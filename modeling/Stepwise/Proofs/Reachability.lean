import Mathlib.Data.Finset.Card
import Mathlib.Data.Finset.Filter
import Mathlib.Data.Finset.Range
import Mathlib.Data.Fintype.Pigeonhole
import Stepwise.Proofs.Snapshots

/-!
# Lists that a value reaches

A value reaches the cells of its lists, of the lists in them, and so on. What can be seen of a value
depends on these cells only (`Heap.view?_congr`). To see all of it, it is enough to look as deep as
there are cells, for lists that nest deeper contain themselves: with every more level some cell can
be seen that could not be seen before, or nothing new comes into sight at all
(`Heap.unfold_eq_view?`). So the values of which not all can be seen are those that reach a list
that contains itself (`Heap.view?_eq_none_iff`).
-/

namespace Stepwise

namespace Heap

variable {h h' : Heap}

theorem items_beyond {cell : Nat} (hc : h.cells.size ≤ cell) : h.items cell = [] := by
  simp [items, hc]

/-- A list with a position in it is there. -/
theorem lt_size_of_lt_length {cell i : Nat} (hi : i < (h.items cell).length) :
    cell < h.cells.size := by
  by_contra hge
  rw [items_beyond (Nat.le_of_not_lt hge)] at hi
  exact Nat.not_lt_zero _ hi

theorem items_alloc (h : Heap) (items : List Value) (cell : Nat) :
    (h.alloc items).2.items cell = if cell = h.cells.size then items else h.items cell := by
  simp only [alloc, Heap.items, Array.getD_eq_getD_getElem?, Array.getElem?_push]
  split_ifs <;> rfl

theorem items_write (h : Heap) (cell : Nat) (items : List Value) (cell' : Nat) :
    (h.write cell items).items cell' =
      if cell' = cell ∧ cell < h.cells.size then items else h.items cell' := by
  simp only [write, Heap.items, Array.getD_eq_getD_getElem?, Array.getElem?_setIfInBounds]
  grind

/-- The value is the list in the cell, or an item of it reaches that list. -/
inductive Reaches (h : Heap) : Value → Nat → Prop
  | here (cell : Nat) : Reaches h (.list cell) cell
  | item {cell target : Nat} {v : Value} : v ∈ h.items cell → Reaches h v target →
      Reaches h (.list cell) target

/-- One of several values reaches the cell. -/
def ReachedFrom (h : Heap) (values : List Value) (cell : Nat) : Prop :=
  ∃ v ∈ values, h.Reaches v cell

theorem Reaches.trans {v : Value} {cell target : Nat} (hv : h.Reaches v cell)
    (hc : h.Reaches (.list cell) target) : h.Reaches v target := by
  induction hv with
  | here => exact hc
  | item hmem _ ih => exact .item hmem (ih hc)

theorem ReachedFrom.item {values : List Value} {cell : Nat} (hc : h.ReachedFrom values cell)
    {target : Nat} (ht : .list target ∈ h.items cell) : h.ReachedFrom values target := by
  obtain ⟨v, hv, hreach⟩ := hc
  exact ⟨v, hv, hreach.trans (.item ht (.here target))⟩

section Seeing

theorem mapM_congr_some {α β : Type} {f g : α → Option β} : ∀ {as : List α} {bs : List β},
    (∀ a ∈ as, ∀ b, f a = some b → g a = some b) → as.mapM f = some bs → as.mapM g = some bs
  | [], _, _, h => h
  | a :: as, bs, hfg, h => by
    simp only [List.mapM_cons, Option.pure_def, Option.bind_eq_bind, Option.bind_eq_some_iff,
      Option.some.injEq] at h ⊢
    obtain ⟨b, hb, cs, hcs, rfl⟩ := h
    exact ⟨b, hfg a List.mem_cons_self b hb, cs,
      mapM_congr_some (fun a' ha' => hfg a' (List.mem_cons_of_mem a ha')) hcs, rfl⟩

theorem mapM_congr_mem {α β : Type} {f g : α → Option β} {as : List α}
    (hfg : ∀ a ∈ as, f a = g a) : as.mapM f = as.mapM g :=
  Option.ext fun _ => ⟨mapM_congr_some fun a ha _ hb => hfg a ha ▸ hb,
    mapM_congr_some fun a ha _ hb => (hfg a ha).symm ▸ hb⟩

theorem isSome_of_mapM {α β : Type} {f : α → Option β} : ∀ {as : List α},
    (as.mapM f).isSome = true ↔ ∀ a ∈ as, (f a).isSome = true
  | [] => by simp
  | a :: as => by
    have ih : (as.mapM f).isSome = true ↔ _ := isSome_of_mapM
    rw [List.mapM_cons, List.forall_mem_cons, ← ih]
    cases f a <;> cases as.mapM f <;> simp

/-- What comes into sight stays in sight when one looks deeper. -/
theorem unfold_succ : ∀ {n : Nat} {v : Value} {d : Datum}, h.unfold n v = some d →
    h.unfold (n + 1) v = some d
  | 0, .list _, _, hd => by cases hd
  | n + 1, .list cell, d, hd => by
    rw [unfold] at hd ⊢
    obtain ⟨ds, hds, rfl⟩ := Option.map_eq_some_iff.1 hd
    rw [mapM_congr_some (fun _ _ _ => unfold_succ) hds]
    rfl
  | _, .none, _, hd | _, .unknown, _, hd | _, .bool _, _, hd | _, .int _, _, hd
  | _, .float _, _, hd | _, .nan _, _, hd | _, .complex _ _ _, _, hd | _, .str _, _, hd => by
    rw [unfold] at hd ⊢
    exact hd

/-- What can be seen of a value depends on the cells that it reaches only. -/
theorem unfold_congr : ∀ {n : Nat} {v : Value},
    (∀ cell, h.Reaches v cell → h'.items cell = h.items cell) → h'.unfold n v = h.unfold n v
  | 0, .list _, _ => rfl
  | n + 1, .list cell, hagree => by
    have hitems : ∀ v ∈ h.items cell, h'.unfold n v = h.unfold n v := fun v hv =>
      unfold_congr fun target hreach => hagree target (.item hv hreach)
    rw [unfold, unfold, hagree cell (.here cell), mapM_congr_mem hitems]
  | _, .none, _ | _, .unknown, _ | _, .bool _, _ | _, .int _, _ | _, .float _, _ | _, .nan _, _
  | _, .complex _ _ _, _ | _, .str _, _ => by rw [unfold, unfold]

/-- The cells whose lists can be seen when one looks this deep. -/
def inSight (h : Heap) (n : Nat) : Finset Nat :=
  (Finset.range h.cells.size).filter fun cell => (h.unfold n (.list cell)).isSome = true

/-- Looking one level deeper brings no other list into sight. -/
def Stable (h : Heap) (n : Nat) : Prop :=
  ∀ cell, (h.unfold (n + 1) (.list cell)).isSome = true →
    (h.unfold n (.list cell)).isSome = true

theorem isSome_unfold_succ {n cell : Nat} : (h.unfold (n + 1) (.list cell)).isSome = true ↔
    ∀ v ∈ h.items cell, (h.unfold n v).isSome = true := by
  rw [unfold, Option.isSome_map, isSome_of_mapM]

theorem isSome_unfold_beyond {cell : Nat} (hc : h.cells.size ≤ cell) (n : Nat) :
    (h.unfold (n + 1) (.list cell)).isSome = true := by
  rw [isSome_unfold_succ, items_beyond hc]
  exact fun _ hv => by cases hv

namespace Stable

variable {n : Nat}

theorem isSome (hs : h.Stable n) {v : Value} (hv : (h.unfold (n + 1) v).isSome = true) :
    (h.unfold n v).isSome = true := by
  cases v with
  | list cell => exact hs cell hv
  | _ => rw [unfold]; rfl

theorem unfold_succ_eq (hs : h.Stable n) (v : Value) : h.unfold (n + 1) v = h.unfold n v := by
  cases hv : h.unfold n v with
  | some d => exact unfold_succ hv
  | none =>
    refine Option.not_isSome_iff_eq_none.1 fun hsome => ?_
    have := hs.isSome hsome
    rw [hv] at this
    cases this

theorem succ (hs : h.Stable n) : h.Stable (n + 1) := by
  intro cell hc
  rw [isSome_unfold_succ] at hc ⊢
  exact fun v hv => hs.isSome (hc v hv)

end Stable

/-- As long as something new comes into sight, the lists in sight are at least as many as the levels
that were looked through. -/
theorem stable_or_le_card : ∀ n : Nat, h.Stable (n + 1) ∨ n ≤ (h.inSight (n + 1)).card
  | 0 => .inr (Nat.zero_le _)
  | n + 1 => by
    rcases stable_or_le_card n with hs | hcard
    · exact .inl hs.succ
    by_cases hs : h.Stable (n + 1)
    · exact .inl hs.succ
    right
    simp only [Stable, not_forall] at hs
    obtain ⟨cell, hnew, hold⟩ := hs
    have hlt : cell < h.cells.size := Nat.lt_of_not_le fun hle => hold (isSome_unfold_beyond hle n)
    have hsub : h.inSight (n + 1) ⊂ h.inSight (n + 2) := by
      refine Finset.ssubset_iff_subset_ne.2 ⟨fun c hc => ?_, fun heq => hold ?_⟩
      · obtain ⟨hrange, hsome⟩ := Finset.mem_filter.1 hc
        obtain ⟨d, hd⟩ := Option.isSome_iff_exists.1 hsome
        exact Finset.mem_filter.2 ⟨hrange, by rw [unfold_succ hd]; rfl⟩
      · have hmem : cell ∈ h.inSight (n + 1) :=
          heq ▸ Finset.mem_filter.2 ⟨Finset.mem_range.2 hlt, hnew⟩
        exact (Finset.mem_filter.1 hmem).2
    exact Nat.lt_of_le_of_lt hcard (Finset.card_lt_card hsub)

theorem stable_size (h : Heap) : h.Stable (h.cells.size + 1) := by
  rcases h.stable_or_le_card h.cells.size with hs | hcard
  · exact hs
  have hall : h.inSight (h.cells.size + 1) = Finset.range h.cells.size :=
    Finset.eq_of_subset_of_card_le (Finset.filter_subset _ _) (by rwa [Finset.card_range])
  intro cell _
  by_cases hlt : cell < h.cells.size
  · have hmem : cell ∈ h.inSight (h.cells.size + 1) := hall ▸ Finset.mem_range.2 hlt
    exact (Finset.mem_filter.1 hmem).2
  · exact isSome_unfold_beyond (Nat.le_of_not_lt hlt) _

/-- It is enough to look as deep as there are cells. -/
theorem unfold_eq_view? {n : Nat} (hn : h.cells.size + 1 ≤ n) (v : Value) :
    h.unfold n v = h.view? v := by
  have stable : ∀ k, h.cells.size + 1 ≤ k → h.Stable k :=
    fun k hk => Nat.le_induction h.stable_size (fun _ _ hs => hs.succ) k hk
  induction hn with
  | refl => rfl
  | step hk ih => rw [(stable _ hk).unfold_succ_eq, ih]

/-- What can be seen of a value stays the same when no list that it reaches is changed. -/
theorem view?_congr {v : Value} (hsize : h.cells.size ≤ h'.cells.size)
    (hagree : ∀ cell, h.Reaches v cell → h'.items cell = h.items cell) :
    h'.view? v = h.view? v :=
  calc h'.unfold (h'.cells.size + 1) v
    _ = h.unfold (h'.cells.size + 1) v := unfold_congr hagree
    _ = h.view? v := unfold_eq_view? (Nat.succ_le_succ hsize) v

end Seeing

section Bottomless

/-- The value reaches a list that contains itself. -/
def Bottomless (h : Heap) (v : Value) : Prop :=
  ∃ cell, h.Reaches v cell ∧ h.ReachedFrom (h.items cell) cell

/-- Of a value in sight, the lists that it reaches are in sight from no farther away. -/
theorem Reaches.isSome_unfold {v : Value} {cell : Nat} (hreach : h.Reaches v cell) :
    ∀ {n : Nat}, (h.unfold n v).isSome = true →
      ∃ k ≤ n, (h.unfold k (.list cell)).isSome = true := by
  induction hreach with
  | here cell => exact fun {n} hn => ⟨n, Nat.le_refl n, hn⟩
  | @item cell target v hv _ ih =>
    rintro (_ | n) hn
    · cases hn
    · obtain ⟨k, hk, hsome⟩ := ih (isSome_unfold_succ.1 hn v hv)
      exact ⟨k, Nat.le_succ_of_le hk, hsome⟩

/-- A list that contains itself never comes into sight: it would have to from nearer already. -/
theorem unfold_of_contained {cell : Nat} (hself : h.ReachedFrom (h.items cell) cell) (n : Nat) :
    h.unfold n (.list cell) = none := by
  induction n using Nat.strong_induction_on with
  | _ n ih =>
    by_contra hsome
    rw [← Ne, Option.ne_none_iff_isSome] at hsome
    obtain ⟨v, hv, hreach⟩ := hself
    cases n with
    | zero => cases hsome
    | succ n =>
      obtain ⟨k, hk, hcell⟩ := hreach.isSome_unfold (isSome_unfold_succ.1 hsome v hv)
      rw [ih k (Nat.lt_succ_of_le hk)] at hcell
      cases hcell

/-- A list that cannot be seen as a whole has an item of that kind. -/
theorem exists_item_of_view?_none {cell : Nat} (hc : h.view? (.list cell) = none) :
    ∃ next, .list next ∈ h.items cell ∧ h.view? (.list next) = none := by
  have hdeeper : ¬ (h.unfold (h.cells.size + 2) (.list cell)).isSome = true := by
    rw [h.stable_size.unfold_succ_eq, ← view?, hc]
    exact Bool.false_ne_true
  rw [isSome_unfold_succ] at hdeeper
  push Not at hdeeper
  obtain ⟨v, hv, hnone⟩ := hdeeper
  cases v with
  | list next => exact ⟨next, hv, Option.not_isSome_iff_eq_none.1 hnone⟩
  | _ => exact absurd rfl hnone

/-- Going on from one list that cannot be seen to another in it, one comes back to the same list. -/
theorem bottomless_of_view?_none {cell : Nat} (hc : h.view? (.list cell) = none) :
    h.Bottomless (.list cell) := by
  let Unseen := { c : Nat // h.view? (.list c) = none }
  have hlt (c : Unseen) : c.1 < h.cells.size := Nat.lt_of_not_le fun hle => by
    have hsome := isSome_unfold_beyond hle h.cells.size
    rw [← view?, c.2] at hsome
    cases hsome
  choose next hitem using fun c : Unseen => exists_item_of_view?_none c.2
  let path (n : Nat) : Unseen := (fun c => ⟨next c, (hitem c).2⟩)^[n] ⟨cell, hc⟩
  have hstep (n : Nat) : .list (path (n + 1)).1 ∈ h.items (path n).1 := by
    simp only [path, Function.iterate_succ_apply']
    exact (hitem _).1
  have hreach (i k : Nat) : h.Reaches (.list (path i).1) (path (i + k)).1 := by
    induction k with
    | zero => exact .here _
    | succ k ih => exact ih.trans (.item (hstep (i + k)) (.here _))
  have hcycle {i j : Nat} (hij : i < j) (heq : (path i).1 = (path j).1) :
      h.Bottomless (.list cell) := by
    obtain ⟨k, rfl⟩ := Nat.exists_eq_add_of_lt hij
    have hback := hreach (i + 1) k
    rw [show i + 1 + k = i + k + 1 by omega, ← heq] at hback
    exact ⟨_, Nat.zero_add i ▸ hreach 0 i, _, hstep i, hback⟩
  -- There are only finitely many cells, so the path meets one of them twice.
  obtain ⟨i, j, hne, heq⟩ :=
    Finite.exists_ne_map_eq_of_infinite fun n => (⟨(path n).1, hlt (path n)⟩ : Fin h.cells.size)
  have heq : (path i).1 = (path j).1 := congrArg Fin.val heq
  rcases Nat.lt_or_gt_of_ne hne with hij | hji
  · exact hcycle hij heq
  · exact hcycle hji heq.symm

/-- The values that cannot be seen as a whole are those that reach a list that contains itself. -/
theorem view?_eq_none_iff {v : Value} : h.view? v = none ↔ h.Bottomless v := by
  constructor
  · intro hv
    cases v with
    | list cell => exact bottomless_of_view?_none hv
    | _ => cases hv
  · rintro ⟨cell, hreach, hself⟩
    by_contra hsome
    rw [← Ne, Option.ne_none_iff_isSome] at hsome
    obtain ⟨k, -, hcell⟩ := hreach.isSome_unfold hsome
    rw [unfold_of_contained hself] at hcell
    cases hcell

theorem mapM_ok_or_error {α β : Type} (f : α → Except Fault β) : ∀ as : List α,
    (∃ bs, as.mapM f = .ok bs ∧ ∀ a ∈ as, ∃ b, f a = .ok b) ∨
      ∃ fault, as.mapM f = .error fault ∧ ∃ a ∈ as, f a = .error fault
  | [] => .inl ⟨[], rfl, fun _ ha => by cases ha⟩
  | a :: as => by
    rw [List.mapM_cons]
    rcases ha : f a with fault | b
    · exact .inr ⟨fault, rfl, a, List.mem_cons_self, ha⟩
    rcases mapM_ok_or_error f as with ⟨bs, hbs, hall⟩ | ⟨fault, hfault, a', ha', hf⟩
    · refine .inl ⟨b :: bs, by rw [hbs]; rfl, ?_⟩
      exact List.forall_mem_cons.2 ⟨⟨b, ha⟩, hall⟩
    · exact .inr ⟨fault, by rw [hfault]; rfl, a', List.mem_cons_of_mem a ha', hf⟩

theorem snapshot_of_bottomless {v : Value} (hv : h.Bottomless v) :
    h.snapshot v = .error .bottomless := by
  rw [snapshot, view?_eq_none_iff.2 hv]
  rfl

theorem bottomless_of_snapshot {v : Value} {fault : Fault} (hv : h.snapshot v = .error fault) :
    fault = .bottomless ∧ h.Bottomless v := by
  rw [snapshot] at hv
  split at hv
  · cases hv
  · cases hv
    exact ⟨rfl, view?_eq_none_iff.1 ‹_›⟩

/-- Variables can be shown unless one of them reaches a list that contains itself. -/
theorem snapshotScope_cases (h : Heap) (scope : Scope) :
    (∃ bindings, h.snapshotScope scope = .ok bindings ∧ ∀ e ∈ scope.entries, ¬ h.Bottomless e.2) ∨
      h.snapshotScope scope = .error .bottomless ∧ ∃ e ∈ scope.entries, h.Bottomless e.2 := by
  unfold snapshotScope
  rcases mapM_ok_or_error (fun e : String × Value => do pure (e.1, ← h.snapshot e.2))
    scope.entries with ⟨entries, hok, hall⟩ | ⟨fault, herror, e, he, hfault⟩
  · refine .inl ⟨⟨entries⟩, by rw [hok]; rfl, fun e he hb => ?_⟩
    obtain ⟨b, hbind⟩ := hall e he
    rw [snapshot_of_bottomless hb] at hbind
    cases hbind
  · rcases hs : h.snapshot e.2 with fault' | d <;> rw [hs] at hfault <;> cases hfault
    obtain ⟨rfl, hb⟩ := bottomless_of_snapshot hs
    exact .inr ⟨by rw [herror]; rfl, e, he, hb⟩

end Bottomless

end Heap

end Stepwise
