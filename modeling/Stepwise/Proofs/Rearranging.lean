import Mathlib.Data.List.Basic
import Mathlib.Tactic.SplitIfs
import Stepwise.Proofs.ValueFaults

/-!
# Sorting rearranges

However the runs of a list are found and merged, and wherever a comparison fails, a sort only moves
items: its result is a permutation of the list (`Sorting.sort_perm`). A merge keeps the items that
are still to be merged together with those already merged, so each of its steps is such a move.
-/

namespace Stepwise

namespace Sorting

open scoped List

variable {α β : Type} (less : Less)

namespace Merging

/-- All items of a merge under way. -/
def content (m : Merging) : List Value := m.left ++ (m.right ++ m.done)

theorem arrange_perm (m : Merging) (first second : List Value) :
    (m.arrange first second).Perm (first ++ (second ++ m.done)) := by
  unfold arrange
  split_ifs
  · exact (List.reverse_perm first).append ((List.reverse_perm second).append_right m.done)
  · have hdone : (m.done.reverse ++ (first ++ second)).Perm (first ++ second ++ m.done) :=
      List.perm_append_comm.trans ((List.reverse_perm m.done).append_left _)
    rwa [List.append_assoc] at hdone

theorem stopped_perm (m : Merging) (fault : Option Fault) :
    (m.stopped fault).items.Perm m.content :=
  m.arrange_perm m.left m.right

theorem takeLeft_perm (m : Merging) (n : Nat) : (m.takeLeft n).content.Perm m.content := by
  have taken : (m.left.drop n ++ (m.left.take n).reverse).Perm m.left :=
    ((List.reverse_perm _).append_left _).trans
      (List.perm_append_comm.trans (by rw [List.take_append_drop]))
  have moved : (m.right ++ ((m.left.take n).reverse ++ m.done)).Perm
      ((m.left.take n).reverse ++ (m.right ++ m.done)) := by
    rw [← List.append_assoc, ← List.append_assoc]
    exact List.perm_append_comm.append_right m.done
  show (m.left.drop n ++ (m.right ++ ((m.left.take n).reverse ++ m.done))).Perm _
  refine (moved.append_left _).trans ?_
  rw [← List.append_assoc]
  exact taken.append_right _

theorem takeRight_perm (m : Merging) (n : Nat) : (m.takeRight n).content.Perm m.content := by
  have taken : (m.right.drop n ++ (m.right.take n).reverse).Perm m.right :=
    ((List.reverse_perm _).append_left _).trans
      (List.perm_append_comm.trans (by rw [List.take_append_drop]))
  show (m.left ++ (m.right.drop n ++ ((m.right.take n).reverse ++ m.done))).Perm _
  rw [← List.append_assoc (m.right.drop n)]
  exact (taken.append_right _).append_left _

/-- Part of a merge of the given items: it goes on with a merge of them, or ends with them. -/
def Merges (items : List Value) (rest : α → Merging) : Except Merged α → Prop
  | .ok a => (rest a).content.Perm items
  | .error merged => merged.items.Perm items

namespace Merges

variable {items : List Value} {rest : α → Merging} {rest' : β → Merging}

theorem bind {x : Except Merged α} {f : α → Except Merged β} (hx : Merges items rest x)
    (hf : ∀ a, (rest a).content.Perm items → Merges items rest' (f a)) :
    Merges items rest' (x >>= f) := by
  cases x with
  | error merged => exact hx
  | ok a => exact hf a hx

variable {m : Merging} (hm : m.content.Perm items)
include hm

theorem stopped (fault : Option Fault) : Merges items rest (throw (m.stopped fault)) :=
  (m.stopped_perm fault).trans hm

theorem proceed : Merges items id m.proceed := by
  have swapped : (m.arrange m.right m.left).Perm m.content := by
    refine (m.arrange_perm _ _).trans ?_
    unfold content
    rw [← List.append_assoc, ← List.append_assoc]
    exact List.perm_append_comm.append_right m.done
  unfold Merging.proceed
  generalize (if m.fromBack = true then m.rightLength else m.leftLength) = setAside
  split_ifs
  · exact swapped.trans hm
  · exact stopped hm none
  · exact hm

theorem ask (answer : Except Fault α) : Merges items (fun _ => m) (m.ask answer) := by
  cases answer with
  | ok a => exact hm
  | error fault => exact stopped hm (some fault)

theorem takeLeft (n : Nat) : Merges items id (m.takeLeft n).proceed :=
  proceed ((m.takeLeft_perm n).trans hm)

theorem takeRight (n : Nat) : Merges items id (m.takeRight n).proceed :=
  proceed ((m.takeRight_perm n).trans hm)

theorem takeOne : Merges items Prod.snd (m.takeOne less) := by
  unfold Merging.takeOne
  split
  · refine (ask hm _).bind fun answer _ => ?_
    extract_lets fromRight
    refine bind (?_ : Merges items id _) fun m' hm' => hm'
    split_ifs
    · exact takeRight hm 1
    · exact takeLeft hm 1
  · exact stopped hm none

theorem winning (before : Value → Except Fault Bool) (run : List Value) (n : Nat) :
    Merges items (fun _ => m) (m.winning before run n) := by
  unfold Merging.winning
  split_ifs
  · exact (ask hm _).bind fun _ _ => hm
  · exact ask hm _

theorem gallopOnce : Merges items Prod.snd (m.gallopOnce less) := by
  unfold Merging.gallopOnce
  split
  · refine (winning hm _ _ _).bind fun ofLeft _ => (takeLeft hm ofLeft).bind fun m₁ h₁ =>
      (takeRight h₁ 1).bind fun m₂ h₂ => ?_
    split
    · exact (winning h₂ _ _ _).bind fun ofRight _ => (takeRight h₂ ofRight).bind fun m₃ h₃ =>
        (takeLeft h₃ 1).bind fun m₄ h₄ => h₄
    · exact stopped h₂ none
  · exact stopped hm none

end Merges

/-- However a merge ends, no item is lost. -/
theorem run_perm : ∀ (fuel : Nat) (pace : Pace) (m : Merging),
    (run less fuel pace m).items.Perm m.content
  | 0, _, m => m.stopped_perm none
  | fuel + 1, .single leftWins rightWins, m => by
    have one := Merges.takeOne less (List.Perm.refl m.content)
    have ih := run_perm fuel
    rw [run]
    split
    · rename_i hone
      rwa [hone] at one
    · rename_i hone
      rw [hone] at one
      dsimp only
      split_ifs <;> exact (ih _ _).trans one
  | fuel + 1, .gallop, m => by
    have gallops := Merges.gallopOnce less
      (List.Perm.refl { m with minGallop := max 1 (m.minGallop - 1) : Merging}.content)
    have ih := run_perm fuel
    rw [run]
    split
    · rename_i hgallop
      rwa [hgallop] at gallops
    · rename_i hgallop
      rw [hgallop] at gallops
      split_ifs <;> exact (ih _ _).trans gallops

theorem whole_perm (m : Merging) : (whole less m).items.Perm m.content := by
  have proceeds : Merges m.content id
      (if m.fromBack then m.takeLeft 1 else m.takeRight 1).proceed := by
    split_ifs
    · exact Merges.takeLeft (List.Perm.refl _) 1
    · exact Merges.takeRight (List.Perm.refl _) 1
  unfold whole
  split
  · rename_i hp
    rwa [hp] at proceeds
  · rename_i hp
    rw [hp] at proceeds
    exact (run_perm less _ _ _).trans proceeds

end Merging

/-- The four parts are the two runs, cut in two. -/
theorem overlap_append (left right : List Value) :
    Gives (fun parts => parts.1 ++ parts.2.1 = left ∧ parts.2.2.1 ++ parts.2.2.2 = right)
      (overlap less left right) := by
  unfold overlap
  split
  · refine .bindAny fun start => ?_
    split
    · exact .bindAny fun stop => .pure ⟨List.take_append_drop .., List.take_append_drop ..⟩
    · exact .pure ⟨List.append_nil left, rfl⟩
  · exact .pure ⟨List.append_nil left, rfl⟩

theorem merge_perm (minGallop : Nat) (left right : List Value) :
    (merge less minGallop left right).items.Perm (left ++ right) := by
  have parts := overlap_append less left right
  unfold merge
  split
  · exact .refl _
  · rename_i head left' right' tail hparts
    obtain ⟨rfl, rfl⟩ := parts _ hparts
    split_ifs
    · simp
    · dsimp only
      have merged : ∀ m : Merging, m.content.Perm (left' ++ right') →
          (head ++ (Merging.whole less m).items ++ tail).Perm
            (head ++ left' ++ (right' ++ tail)) := by
        intro m hm
        have inner := ((Merging.whole_perm less m).trans hm).append_right tail
        simpa only [List.append_assoc] using inner.append_left head
      apply merged
      unfold Merging.content
      rw [List.append_nil]
      split_ifs
      · exact (List.reverse_perm _).append (List.reverse_perm _)
      · exact .refl _

theorem insertAll_perm : ∀ sorted pending : List Value,
    (insertAll less sorted pending).1.Perm (sorted ++ pending)
  | sorted, [] => by simp [insertAll]
  | sorted, item :: rest => by
    rw [insertAll]
    split
    · rename_i i _
      have inserted : (sorted.take i ++ item :: sorted.drop i).Perm (item :: sorted) := by
        refine List.perm_middle.trans (.cons item ?_)
        rw [List.take_append_drop]
      refine (insertAll_perm _ rest).trans ((inserted.append_right rest).trans ?_)
      exact List.perm_middle.symm
    · exact .refl _

theorem nextRun_perm (shortest : Nat) (items : List Value) :
    ((nextRun less shortest items).1 ++ (nextRun less shortest items).2.1).Perm items := by
  unfold nextRun
  split
  · simp
  · rename_i n descending _
    dsimp only
    generalize hrun : (if descending = true then _ else _) = run
    have turned : run.Perm (items.take n) := by
      rw [← hrun]
      split_ifs
      · exact List.reverse_perm _
      · exact .refl _
    have filled : items.take n ++ (items.drop n).take (shortest - n) ++ items.drop (max n shortest)
        = items := by
      rw [← List.take_add, show n + (shortest - n) = max n shortest by omega,
        List.take_append_drop]
    calc (insertAll less run ((items.drop n).take (shortest - n))).1 ++ items.drop (max n shortest)
      _ ~ run ++ (items.drop n).take (shortest - n) ++ items.drop (max n shortest) :=
          (insertAll_perm less _ _).append_right _
      _ ~ items := by
          conv_rhs => rw [← filled]
          exact (turned.append_right _).append_right _

namespace Progress

theorem mergeTwo_perm (p : Progress) (after : List SortedRun) (left right : SortedRun)
    (before : List SortedRun) (hruns : p.runs = after ++ right :: left :: before) :
    (p.mergeTwo less after left right before).1.arranged.Perm p.arranged := by
  have merged := merge_perm less p.minGallop left.items right.items
  unfold mergeTwo arranged
  rw [hruns]
  simp only [List.reverse_append, List.reverse_cons, List.append_assoc, List.flatMap_append,
    List.flatMap_cons, List.flatMap_nil, List.singleton_append, List.append_nil]
  rw [← List.append_assoc left.items]
  exact (merged.append_right _).append_left _

theorem mergeDeeper_perm (depth : Nat) : ∀ (fuel : Nat) (p : Progress),
    (p.mergeDeeper less depth fuel).1.arranged.Perm p.arranged
  | 0, p => .refl _
  | fuel + 1, p => by
    have ih := mergeDeeper_perm depth fuel
    rw [mergeDeeper]
    split
    · rename_i right left more hruns
      have merged := mergeTwo_perm less p [] left right more hruns
      split_ifs
      · split
        · rename_i p' hp
          rw [hp] at merged
          exact (ih p').trans merged
        · exact merged
      · exact .refl _
    · exact .refl _

theorem mergeAll_perm : ∀ (fuel : Nat) (p : Progress),
    (p.mergeAll less fuel).1.arranged.Perm p.arranged
  | 0, p => .refl _
  | fuel + 1, p => by
    have ih := mergeAll_perm fuel
    unfold mergeAll
    extract_lets step
    have stepped : ∀ next ∈ step, next.1.arranged.Perm p.arranged := by
      unfold step
      split
      · rename_i last right left more hruns
        split_ifs
        · rintro _ ⟨⟩
          exact mergeTwo_perm less p [last] left right more hruns
        · rintro _ ⟨⟩
          exact mergeTwo_perm less p [] right last (left :: more) hruns
      · rename_i right left hruns
        rintro _ ⟨⟩
        exact mergeTwo_perm less p [] left right [] hruns
      · simp
    clear_value step
    rcases step with _ | ⟨p', _ | fault⟩
    · exact .refl _
    · exact (ih p').trans (stepped _ rfl)
    · exact stepped _ rfl

theorem prepare_perm (n length : Nat) (p : Progress) :
    (p.prepare less n length).1.arranged.Perm p.arranged := by
  unfold prepare
  split
  · exact .refl _
  · rename_i last more hruns
    have merged := mergeDeeper_perm less (last.depthBefore n length) p.runs.length p
    dsimp only
    split
    · rename_i last' more' hruns'
      refine List.Perm.trans ?_ merged
      simp [arranged, hruns']
    · exact merged

theorem arranged_push (p : Progress) (start : Nat) (run : List Value) :
    { p with runs := ⟨start, run, 0⟩ :: p.runs : Progress }.arranged = p.arranged ++ run := by
  simp [arranged]

end Progress

/-- However sorting ends, the items are the same, in some order. -/
theorem sortFrom_perm (n shortest : Nat) :
    ∀ (fuel start : Nat) (p : Progress) (items : List Value),
      (sortFrom less n shortest fuel start p items).1.Perm (p.arranged ++ items)
  | 0, _, p, items => by simp [sortFrom]
  | fuel + 1, _, p, [] => by
    rw [sortFrom, List.append_nil]
    exact Progress.mergeAll_perm less _ _
  | fuel + 1, start, p, v :: rest => by
    have next := nextRun_perm less shortest (v :: rest)
    have ih := sortFrom_perm n shortest fuel
    rw [sortFrom]
    case x_4 => simp
    split
    · rename_i run rest' fault hnext
      rw [hnext] at next
      rw [List.append_assoc]
      exact next.append_left _
    · rename_i run rest' hnext
      rw [hnext] at next
      have prepared := Progress.prepare_perm less n run.length p
      have kept : ∀ p' : Progress, p'.arranged.Perm p.arranged →
          (p'.arranged ++ run ++ rest').Perm (p.arranged ++ v :: rest) := by
        intro p' hp'
        rw [List.append_assoc]
        exact hp'.append next
      split
      · rename_i p' fault hp'
        rw [hp'] at prepared
        exact kept p' prepared
      · rename_i p' hp'
        rw [hp'] at prepared
        refine (ih _ _ _).trans ?_
        rw [Progress.arranged_push]
        exact kept p' prepared

/-- A sort only moves items, also when a comparison fails. -/
theorem sort_perm (items : List Value) : (sort less items).1.Perm items :=
  sortFrom_perm less _ _ _ _ {} items

end Sorting

end Stepwise
