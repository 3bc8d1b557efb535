import Stepwise.Proofs.Derivations
import Stepwise.Proofs.ElementStores

/-!
# Reading a target again

An assignment to an element reads the element first, and then evaluates its container and its index
once more to write it. Lists that are made on the way are made twice, so the two evaluations do not
agree to the letter. But what they give are twins, which no operator of the braced dialect can tell
apart (`Twin`, `echoes_eval`), and an element of a twin is the same element. So the element that is
written is the one that was read (`content?_locate`). All lists that are referred to have to be
there: a list that is made between the two evaluations would turn up behind a reference that led
nowhere before.
-/

namespace Stepwise

open Run Number

variable {α β : Type}

/-! ### References that lead somewhere -/

def Value.isList : Value → Bool
  | .list _ => true
  | _ => false

/-- If the value is a list, it is one of the first `n`. -/
def Value.Below (n : Nat) (v : Value) : Prop := ∀ cell, v = .list cell → cell < n

theorem Value.Below.mono {n k : Nat} {v : Value} (hv : v.Below n) (hk : n ≤ k) : v.Below k :=
  fun cell hc => (hv cell hc).trans_le hk

theorem Value.below_of_not_list {v : Value} (hv : v.isList = false) (n : Nat) : v.Below n := by
  rintro cell rfl
  cases hv

namespace Heap

/-- If the value is a list, the list is there. -/
abbrev Holds (h : Heap) (v : Value) : Prop := v.Below h.cells.size

/-- Every list that is an item of a list is there. -/
def Closed (h : Heap) : Prop := ∀ cell, ∀ v ∈ h.items cell, h.Holds v

/-- A later heap, with every list as it was. What is in the new lists was there before. -/
structure Sprouts (h₀ h : Heap) : Prop where
  grown : h₀.Grown h
  item : ∀ cell, ∀ v ∈ h.items cell, h₀.Holds v

/-- Two later heaps of which the second has at least as many lists. -/
structure Paired (h₀ h h' : Heap) : Prop where
  left : h₀.Sprouts h
  right : h₀.Sprouts h'
  size : h.cells.size ≤ h'.cells.size

variable {h₀ h h' : Heap}

theorem Grown.size_le (hg : h.Grown h') : h.cells.size ≤ h'.cells.size := by
  by_contra hlt
  have hc : h'.cells.size < h.cells.size := by omega
  have hitems := hg _ _ (Array.getElem?_eq_getElem hc)
  exact absurd (Array.getElem?_eq_some_iff.1 hitems).1 (Nat.lt_irrefl _)

theorem Sprouts.refl (hc : h.Closed) : h.Sprouts h := ⟨.refl h, hc⟩

theorem Sprouts.closed (hs : h₀.Sprouts h) : h.Closed :=
  fun cell v hv => (hs.item cell v hv).mono hs.grown.size_le

theorem Sprouts.alloc (hs : h₀.Sprouts h) {items : List Value} (hi : ∀ v ∈ items, h₀.Holds v) :
    h₀.Sprouts (h.alloc items).2 := by
  refine ⟨hs.grown.trans (.alloc h items), fun cell v hv => ?_⟩
  rw [items_alloc] at hv
  split_ifs at hv
  · exact hi v hv
  · exact hs.item cell v hv

end Heap

/-- Two values, each in its own heap, that no operation can tell apart: NaNs and complex numbers may
differ in their identity, and lists in their place. -/
inductive Twin (h h' : Heap) : Value → Value → Prop
  | atom {v : Value} : v.isList = false → Twin h h' v v
  | nan (i j : Nat) : Twin h h' (.nan i) (.nan j)
  | complex (re im : Float) (i j : Option Nat) : Twin h h' (.complex re im i) (.complex re im j)
  | list {r s : Nat} {items : List Value} : h.cells[r]? = some items → h'.cells[s]? = some items →
      Twin h h' (.list r) (.list s)

/-- A text or a list. -/
def Value.isSequence : Value → Bool
  | .str _ | .list _ => true
  | _ => false

namespace Twin

variable {h₀ h h' k k' : Heap} {v v' w w' : Value}

theorem holds_left (ht : Twin h h' v v') : h.Holds v := by
  cases ht with
  | atom hv => exact Value.below_of_not_list hv _
  | list hr hs =>
    rintro _ ⟨⟩
    exact (Array.getElem?_eq_some_iff.1 hr).1
  | _ => exact fun cell hc => by cases hc

theorem cases_sequence (ht : Twin h h' v v') :
    (∃ s, v = .str s ∧ v' = .str s) ∨ (∃ r r', v = .list r ∧ v' = .list r') ∨
      (v.isSequence = false ∧ v'.isSequence = false) := by
  cases ht with
  | atom hv =>
    cases v with
    | str s => exact .inl ⟨s, rfl, rfl⟩
    | list r => cases hv
    | _ => exact .inr (.inr ⟨rfl, rfl⟩)
  | list hr hs => exact .inr (.inl ⟨_, _, rfl, rfl⟩)
  | _ => exact .inr (.inr ⟨rfl, rfl⟩)

theorem grown (ht : Twin h h' v v') (hg : h.Grown k) (hg' : h'.Grown k') : Twin k k' v v' := by
  cases ht with
  | atom hv => exact .atom hv
  | nan i j => exact .nan i j
  | complex re im i j => exact .complex re im i j
  | list hr hs => exact .list (hg _ _ hr) (hg' _ _ hs)

theorem of_holds (hp : h₀.Paired h h') (hv : h₀.Holds v) : Twin h h' v v := by
  cases v with
  | list cell =>
    have hc := Array.getElem?_eq_getElem (hv cell rfl)
    exact .list (hp.left.grown _ _ hc) (hp.right.grown _ _ hc)
  | _ => exact .atom rfl

theorem num?_eq (ht : Twin h h' v v') : v'.num? = v.num? := by cases ht <;> rfl

theorem int?_eq (ht : Twin h h' v v') : v'.int? = v.int? := by cases ht <;> rfl

theorem num_eq (ht : Twin h h' v v') : v'.num = v.num := by
  unfold Value.num
  rw [ht.num?_eq]

theorem items_eq {r s : Nat} (ht : Twin h h' (.list r) (.list s)) : h'.items s = h.items r := by
  cases ht with
  | atom hv => cases hv
  | list hr hs =>
    rw [Heap.items, Heap.items, Array.getD_eq_getD_getElem?, Array.getD_eq_getD_getElem?, hr, hs]

theorem list_left {r : Nat} (ht : Twin h h' (.list r) v') : ∃ s, v' = .list s := by
  cases ht with
  | atom hv => cases hv
  | list _ _ => exact ⟨_, rfl⟩

theorem isTrue_eq (ht : Twin h h' v v') : h'.isTrue v' = h.isTrue v := by
  cases ht with
  | atom hv => cases v <;> first | rfl | cases hv
  | nan i j => rfl
  | complex re im i j => rfl
  | list hr hs => rw [Heap.isTrue, Heap.isTrue, (Twin.list hr hs).items_eq]

end Twin

/-! ### Comparing again -/

/-- The second result is the first one again, unless the first comparison went too deep. -/
def Recurs (x x' : Except Fault α) : Prop := x ≠ .error .bottomless → x' = x

namespace Recurs

theorem refl (x : Except Fault α) : Recurs x x := fun _ => rfl

theorem bind {x x' : Except Fault α} {f f' : α → Except Fault β} (hx : Recurs x x')
    (hf : ∀ a, x = .ok a → Recurs (f a) (f' a)) : Recurs (x >>= f) (x' >>= f') := by
  intro hne
  rcases x with fault | a
  · rw [hx fun h => hne (by cases h; rfl)]
    rfl
  · rw [hx (by rintro ⟨⟩)]
    exact hf a rfl hne

end Recurs

section Comparing

open Heap Twin

variable {h₀ h h' : Heap} {v v' w w' : Value}

theorem Heap.equalItems_recurs {eq eq' : Value → Value → Except Fault Bool} :
    ∀ {vs ws : List Value}, (∀ v ∈ vs, ∀ w ∈ ws, Recurs (eq v w) (eq' v w)) →
      Recurs (equalItems eq vs ws) (equalItems eq' vs ws)
  | [], _, _ => .refl _
  | _ :: _, [], _ => .refl _
  | v :: vs, w :: ws, hitem => by
    have hrest : Recurs (equalItems eq vs ws) (equalItems eq' vs ws) :=
      equalItems_recurs fun v' hv w' hw =>
        hitem v' (List.mem_cons_of_mem v hv) w' (List.mem_cons_of_mem w hw)
    rw [equalItems, equalItems]
    split_ifs
    · exact hrest
    · refine (hitem v List.mem_cons_self w List.mem_cons_self).bind fun answer _ => ?_
      cases answer with
      | false => exact .refl _
      | true => exact hrest

/-- Only two lists are compared with a look at the heap. -/
theorem Twin.equal_eq (hv : Twin h h' v v') (hw : Twin h h' w w')
    (hvw : ∀ r s, v = .list r → w = .list s → False) (fuel fuel' : Nat) :
    h'.equal fuel' v' w' = h.equal fuel v w := by
  unfold equal
  cases hv with
  | atom hv =>
    cases hw with
    | atom hw => cases v <;> first | (cases w <;> rfl) | cases hv
    | _ => cases v <;> first | rfl | cases hv
  | nan i j => cases hw <;> rfl
  | complex re im i j => cases hw <;> rfl
  | list hr hs =>
    cases hw with
    | atom hw => cases w <;> cases fuel <;> cases fuel' <;> first | rfl | cases hw
    | list hr' hs' => exact (hvw _ _ rfl rfl).elim
    | _ => cases fuel <;> cases fuel' <;> rfl

/-- Twins are equal, or not, as often as they are compared. -/
theorem Heap.Paired.equal_recurs (hp : Paired h₀ h h') : ∀ {fuel fuel' : Nat}, fuel ≤ fuel' →
    ∀ {v v' w w' : Value}, Twin h h' v v' → Twin h h' w w' →
      Recurs (h.equal fuel v w) (h'.equal fuel' v' w') := by
  intro fuel
  induction fuel with
  | zero =>
    intro fuel' _ v v' w w' hv hw hne
    refine hv.equal_eq hw (fun r s hr hs => hne ?_) 0 fuel'
    rw [hr, hs]
    rfl
  | succ fuel ih =>
    intro fuel' hle v v' w w' hv hw
    obtain ⟨fuel', rfl⟩ : ∃ n, fuel' = n + 1 := ⟨fuel' - 1, by omega⟩
    by_cases hlists : ∃ r s, v = .list r ∧ w = .list s
    · obtain ⟨r, s, rfl, rfl⟩ := hlists
      obtain ⟨r', rfl⟩ := hv.list_left
      obtain ⟨s', rfl⟩ := hw.list_left
      rw [equal, equal, hv.items_eq, hw.items_eq]
      -- items were there before, so they are their own twins
      split_ifs
      · exact equalItems_recurs fun v hv w hw => ih (by omega)
          (of_holds hp (hp.left.item r v hv)) (of_holds hp (hp.left.item s w hw))
      · exact .refl _
    · exact fun _ => hv.equal_eq hw (fun r s hr hs => hlists ⟨r, s, hr, hs⟩) _ _

theorem Heap.Paired.compareFuel_le (hp : Paired h₀ h h') : h.compareFuel ≤ h'.compareFuel :=
  Nat.succ_le_succ (Nat.mul_le_mul hp.size hp.size)

theorem Heap.Paired.firstDifference_recurs (hp : Paired h₀ h h') : ∀ {vs ws : List Value},
    (∀ v ∈ vs, h₀.Holds v) → (∀ w ∈ ws, h₀.Holds w) →
      Recurs (h.firstDifference vs ws) (h'.firstDifference vs ws)
  | [], [], _, _ => .refl _
  | [], _ :: _, _, _ => .refl _
  | _ :: _, [], _, _ => .refl _
  | v :: vs, w :: ws, hv, hw => by
    have hrest := hp.firstDifference_recurs (fun v' hv' => hv v' (List.mem_cons_of_mem v hv'))
      fun w' hw' => hw w' (List.mem_cons_of_mem w hw')
    have hhead : Recurs (h.eqItem v w) (h'.eqItem v w) := by
      unfold eqItem
      split_ifs
      · exact .refl _
      · exact hp.equal_recurs hp.compareFuel_le (of_holds hp (hv v List.mem_cons_self))
          (of_holds hp (hw w List.mem_cons_self))
    rw [firstDifference, firstDifference]
    refine hhead.bind fun answer _ => ?_
    cases answer with
    | false => exact .refl _
    | true => exact hrest

theorem Heap.mem_of_firstDifference : ∀ {vs ws : List Value} {v w : Value},
    h.firstDifference vs ws = .ok (.inl (v, w)) → v ∈ vs ∧ w ∈ ws
  | [], [], _, _, hd => by cases hd
  | [], _ :: _, _, _, hd => by cases hd
  | _ :: _, [], _, _, hd => by cases hd
  | v :: vs, w :: ws, _, _, hd => by
    rw [firstDifference] at hd
    rcases hvw : h.eqItem v w with fault | answer <;> rw [hvw] at hd
    · cases hd
    · cases answer with
      | false =>
        cases hd
        exact ⟨List.mem_cons_self, List.mem_cons_self⟩
      | true =>
        obtain ⟨hv, hw⟩ := mem_of_firstDifference hd
        exact ⟨List.mem_cons_of_mem v hv, List.mem_cons_of_mem w hw⟩

/-- The order of two values that are not both lists does not depend on their heap. -/
theorem Twin.orderedWith_eq (op : BinaryOp) (hv : Twin h h' v v') (hw : Twin h h' w w')
    (hvw : ∀ r s, v = .list r → w = .list s → False) (fuel fuel' : Nat) :
    h'.orderedWith op fuel' v' w' = h.orderedWith op fuel v w := by
  unfold orderedWith
  cases hv with
  | atom hv =>
    cases hw with
    | atom hw => cases v <;> first | (cases w <;> rfl) | cases hv
    | _ => cases v <;> first | rfl | cases hv
  | nan i j => cases hw <;> rfl
  | complex re im i j => cases hw <;> rfl
  | list hr hs =>
    cases hw with
    | atom hw => cases w <;> first | rfl | cases hw
    | list hr' hs' => exact (hvw _ _ rfl rfl).elim
    | _ => rfl

theorem Heap.Paired.orderedWith_recurs (hp : Paired h₀ h h') (op : BinaryOp) :
    ∀ {fuel fuel' : Nat}, fuel ≤ fuel' → ∀ {v v' w w' : Value}, Twin h h' v v' → Twin h h' w w' →
      Recurs (h.orderedWith op fuel v w) (h'.orderedWith op fuel' v' w') := by
  intro fuel
  induction fuel with
  | zero =>
    intro fuel' _ v v' w w' hv hw hne
    refine hv.orderedWith_eq op hw (fun r s hr hs => hne ?_) 0 fuel'
    rw [hr, hs]
    rfl
  | succ fuel ih =>
    intro fuel' hle v v' w w' hv hw
    obtain ⟨fuel', rfl⟩ : ∃ n, fuel' = n + 1 := ⟨fuel' - 1, by omega⟩
    by_cases hlists : ∃ r s, v = .list r ∧ w = .list s
    · obtain ⟨r, s, rfl, rfl⟩ := hlists
      obtain ⟨r', rfl⟩ := hv.list_left
      obtain ⟨s', rfl⟩ := hw.list_left
      rw [orderedWith, orderedWith, hv.items_eq, hw.items_eq]
      refine (hp.firstDifference_recurs (hp.left.item r) (hp.left.item s)).bind fun d hd => ?_
      cases d with
      | inl pair =>
        obtain ⟨hv, hw⟩ := mem_of_firstDifference hd
        exact ih (by omega) (of_holds hp (hp.left.item r _ hv)) (of_holds hp (hp.left.item s _ hw))
      | inr o => exact .refl _
    · exact fun _ => hv.orderedWith_eq op hw (fun r s hr hs => hlists ⟨r, s, hr, hs⟩) _ _

/-- Comparison operators, which the braced dialect has for all but membership. -/
theorem Twin.compares_recurs (hp : Paired h₀ h h') (hv : Twin h h' v v') (hw : Twin h h' w w')
    {op : BinaryOp} (hop : op ≠ .mem ∧ op ≠ .notMem) :
    Recurs (Operator.compares h op v w) (Operator.compares h' op v' w') := by
  have heq : Recurs (h.eq v w) (h'.eq v' w') := hp.equal_recurs hp.compareFuel_le hv hw
  cases op with
  | eq => exact heq
  | ne => exact heq.bind fun _ _ => .refl _
  | mem => exact absurd rfl hop.1
  | notMem => exact absurd rfl hop.2
  | _ => exact hp.orderedWith_recurs _ hp.compareFuel_le hv hw

end Comparing

/-! ### Evaluating again -/

/-- Ends of two computations that started in later heaps of `h₀`. The second one ends like the first
one, unless that went too deep. -/
inductive Alike {σ : Type} (heap : σ → Heap) (h₀ : Heap) (s s' : σ)
    (Q : Heap → Heap → α → β → Prop) : Except Fault α × σ → Except Fault β × σ → Prop
  | value {a : α} {b : β} {k k' : σ} : h₀.Paired (heap k) (heap k') →
      (heap s).Grown (heap k) → (heap s').Grown (heap k') → Q (heap k) (heap k') a b →
      Alike heap h₀ s s' Q (.ok a, k) (.ok b, k')
  | fault (f : Fault) {k k' : σ} : h₀.Paired (heap k) (heap k') →
      Alike heap h₀ s s' Q (.error f, k) (.error f, k')
  | bottomless (k : σ) (r : Except Fault β × σ) :
      Alike heap h₀ s s' Q (.error .bottomless, k) r

namespace Alike

variable {σ : Type} {heap : σ → Heap} {h₀ : Heap} {s s' : σ} {Q : Heap → Heap → α → β → Prop}

theorem bind {γ δ : Type} {R : Heap → Heap → γ → δ → Prop} {x : ExceptT Fault (StateM σ) α}
    {x' : ExceptT Fault (StateM σ) β} {f : α → ExceptT Fault (StateM σ) γ}
    {f' : β → ExceptT Fault (StateM σ) δ}
    (hx : Alike heap h₀ s s' Q (x.run.run s) (x'.run.run s'))
    (hf : ∀ a b k k', h₀.Paired (heap k) (heap k') → (heap s).Grown (heap k) →
      (heap s').Grown (heap k') → Q (heap k) (heap k') a b →
        Alike heap h₀ k k' R ((f a).run.run k) ((f' b).run.run k')) :
    Alike heap h₀ s s' R ((x >>= f).run.run s) ((x' >>= f').run.run s') := by
  have hb : ((x >>= f).run.run s) = ExceptT.bindCont f (x.run.run s).1 (x.run.run s).2 := rfl
  have hb' : ((x' >>= f').run.run s') =
    ExceptT.bindCont f' (x'.run.run s').1 (x'.run.run s').2 := rfl
  rw [hb, hb']
  generalize x.run.run s = r at hx
  generalize x'.run.run s' = r' at hx
  cases hx with
  | @value a b k k' hp hg hg' hq =>
    have h := hf a b k k' hp hg hg' hq
    show Alike heap h₀ s s' R ((f a).run.run k) ((f' b).run.run k')
    generalize (f a).run.run k = r at h
    generalize (f' b).run.run k' = r' at h
    cases h with
    | value hp hk hk' hr => exact .value hp (hg.trans hk) (hg'.trans hk') hr
    | fault f hp => exact .fault f hp
    | bottomless k => exact .bottomless k _
  | fault f hp => exact .fault f hp
  | bottomless k => exact .bottomless k _

end Alike

namespace Operator

open HeapM

variable {h₀ h h' : Heap} {v v' w w' : Value}

/-- Operations whose results are twins. -/
abbrev GivesTwins (h₀ h h' : Heap) (x x' : HeapM Value) : Prop :=
  Alike id h₀ h h' Twin (x.run.run h) (x'.run.run h')

theorem GivesTwins.onHeap {m m' : Machine} {act act' : HeapM Value}
    (h : GivesTwins h₀ m.heap m'.heap act act') :
    Alike Machine.heap h₀ m m' Twin ((Run.onHeap act).outcome m)
      ((Run.onHeap act').outcome m') := by
  rw [outcome_onHeap, outcome_onHeap]
  unfold GivesTwins at h
  generalize act.run.run m.heap = r at h
  generalize act'.run.run m'.heap = r' at h
  cases h with
  | value hp hg hg' ht => exact .value hp hg hg' ht
  | fault f hp => exact .fault f hp
  | bottomless => exact .bottomless _ _

theorem twins_value (hp : h₀.Paired h h') (hv : Twin h h' v v') :
    GivesTwins h₀ h h' (pure v) (pure v') :=
  .value hp (.refl h) (.refl h') hv

theorem twins_fault (hp : h₀.Paired h h') (f : Fault) :
    GivesTwins h₀ h h' (throw f) (throw f) := .fault f hp

theorem twins_given (hp : h₀.Paired h h') {x x' : Except Fault α} (hx : Recurs x x')
    {f f' : α → HeapM Value} (hf : ∀ a, GivesTwins h₀ h h' (f a) (f' a)) :
    GivesTwins h₀ h h' (ofExcept x >>= f) (ofExcept x' >>= f') := by
  by_cases hdeep : x = .error .bottomless
  · rw [hdeep]
    exact .bottomless h _
  · rw [hx hdeep]
    cases x with
    | error fault => exact .fault fault hp
    | ok a => exact hf a

theorem twins_newList (hp : h₀.Paired h h') {items : List Value} (hi : ∀ v ∈ items, h₀.Holds v) :
    GivesTwins h₀ h h' (newList items) (newList items) := by
  refine .value ⟨hp.left.alloc hi, hp.right.alloc hi, ?_⟩ (.alloc h items) (.alloc h' items) ?_
  · simpa [Heap.alloc] using hp.size
  · exact .list (Array.getElem?_push_size ..) (Array.getElem?_push_size ..)

theorem twins_newIdentity (hp : h₀.Paired h h') {f : Nat → Value}
    (hf : ∀ i j, Twin h h' (f i) (f j)) :
    GivesTwins h₀ h h' (do pure (f (← newIdentity))) (do pure (f (← newIdentity))) :=
  .value ⟨⟨hp.left.grown, hp.left.item⟩, ⟨hp.right.grown, hp.right.item⟩, hp.size⟩
    (.refl h) (.refl h') ((hf _ _).grown (.refl h) (.refl h'))

theorem twins_identify (hp : h₀.Paired h h') (hv : v.isList = false) :
    GivesTwins h₀ h h' (identify v) (identify v) := by
  unfold identify
  split
  · split_ifs
    · exact twins_newIdentity hp Twin.nan
    · exact twins_value hp (.atom hv)
  · split_ifs
    · exact twins_newIdentity hp fun i j => .complex _ _ (some i) (some j)
    · exact twins_value hp (.atom hv)
  · exact twins_value hp (.atom hv)

theorem isList_ofNum (a : Scalar) : (Value.ofNum a).isList = false := by
  cases a <;> rfl

theorem mem_of_repeatOnto {items : List α} : ∀ {n : Nat} {rest : List α} {a : α},
    a ∈ repeatOnto items n rest → a ∈ items ∨ a ∈ rest
  | 0, _, _, ha => .inr ha
  | n + 1, rest, a, ha => by
    rcases mem_of_repeatOnto (n := n) ha with ha | ha
    · exact .inl ha
    · exact List.mem_append.1 ha

theorem mem_of_repeated {overflow : Fault} {items result : List α} {times : Int}
    (hr : repeated overflow items times = .ok result) {a : α} (ha : a ∈ result) : a ∈ items := by
  unfold repeated at hr
  dsimp only at hr
  split_ifs at hr <;> cases hr
  · cases ha
  · exact (mem_of_repeatOnto ha).resolve_right List.not_mem_nil

theorem add_of_not_sequence (h : v.isSequence = false ∨ w.isSequence = false) :
    add v w = numeric Scalar.add v w := by
  cases v <;> first | rfl | (cases w <;> first | rfl | (rcases h with h | h <;> cases h))

theorem mul_of_not_sequences (hv : v.isSequence = false) (hw : w.isSequence = false) :
    mul v w = numeric Scalar.mul v w := by
  cases v <;> cases hv <;> cases w <;> cases hw <;> rfl

/-- A text or a list a number of times. -/
def times : Value → Int → HeapM Value
  | .str s, n => repeatText s n
  | .list r, n => repeatList r n
  | _, _ => throw .undefined

theorem mul_left (hv : v.isSequence = true) :
    mul v w = w.int?.elim (throw .undefined) (times v) := by
  cases v <;> cases hv <;> unfold mul <;> dsimp only <;> cases w.int? <;> rfl

theorem mul_right (hv : v.isSequence = false) (hw : w.isSequence = true) :
    mul v w = v.int?.elim (throw .undefined) (times w) := by
  cases v <;> cases hv <;> cases w <;> cases hw <;> rfl

section Applying

variable (hp : h₀.Paired h h')
include hp

theorem twins_repeatText (s : Text) (times : Int) :
    GivesTwins h₀ h h' (repeatText s times) (repeatText s times) :=
  twins_given hp (.refl _) fun _ => twins_value hp (.atom rfl)

theorem twins_repeatList {r r' : Nat} (hr : Twin h h' (.list r) (.list r')) (times : Int) :
    GivesTwins h₀ h h' (repeatList r times) (repeatList r' times) := by
  show GivesTwins h₀ h h' (ofExcept (repeated .outOfMemory (h.items r) times) >>= newList)
    (ofExcept (repeated .outOfMemory (h'.items r') times) >>= newList)
  rw [hr.items_eq]
  cases hitems : repeated .outOfMemory (h.items r) times with
  | error fault => exact twins_fault hp fault
  | ok items => exact twins_newList hp fun v hv => hp.left.item r v (mem_of_repeated hitems hv)

variable (hv : Twin h h' v v')
include hv

theorem twins_applyUnary (op : UnaryOp) :
    GivesTwins h₀ h h' (applyUnary op v) (applyUnary op v') := by
  cases op with
  | neg =>
    unfold applyUnary
    dsimp only
    rw [hv.num_eq]
    exact twins_given hp (.refl _) fun a => twins_identify hp (isList_ofNum _)
  | pos =>
    have hnum : GivesTwins h₀ h h' (do pure (.ofNum (← ofExcept v.num)))
        (do pure (.ofNum (← ofExcept v'.num))) := by
      rw [hv.num_eq]
      exact twins_given hp (.refl _) fun a => twins_value hp (.atom (isList_ofNum a))
    cases hv with
    | atom hv => cases v <;> first | exact hnum | exact twins_value hp (.atom hv)
    | nan i j => exact twins_value hp (.nan i j)
    | complex re im i j => exact twins_value hp (.complex re im i j)
    | list hr hs => exact hnum
  | not =>
    show GivesTwins h₀ h h' (pure (.bool (!h.isTrue v))) (pure (.bool (!h'.isTrue v')))
    rw [hv.isTrue_eq]
    exact twins_value hp (.atom rfl)
  | bang =>
    show GivesTwins h₀ h h' (pure (.int (if h.isTrue v then 0 else 1)))
      (pure (.int (if h'.isTrue v' then 0 else 1)))
    rw [hv.isTrue_eq]
    exact twins_value hp (.atom rfl)

variable (hw : Twin h h' w w')
include hw

theorem twins_numeric (op : Scalar → Scalar → Except Fault Scalar) :
    GivesTwins h₀ h h' (numeric op v w) (numeric op v' w') := by
  unfold numeric
  rw [hv.num_eq, hw.num_eq]
  exact twins_given hp (.refl _) fun a => twins_given hp (.refl _) fun b =>
    twins_given hp (.refl _) fun c => twins_identify hp (isList_ofNum c)

theorem twins_add : GivesTwins h₀ h h' (add v w) (add v' w') := by
  have hnum := twins_numeric hp hv hw Scalar.add
  rcases hv.cases_sequence with ⟨s, rfl, rfl⟩ | ⟨r, r', rfl, rfl⟩ | ⟨hv₁, hv₂⟩
  · rcases hw.cases_sequence with ⟨t, rfl, rfl⟩ | ⟨_, _, rfl, rfl⟩ | ⟨hw₁, hw₂⟩
    · exact twins_value hp (.atom rfl)
    · exact hnum
    · rwa [add_of_not_sequence (.inr hw₁), add_of_not_sequence (.inr hw₂)]
  · rcases hw.cases_sequence with ⟨t, rfl, rfl⟩ | ⟨s, s', rfl, rfl⟩ | ⟨hw₁, hw₂⟩
    · exact hnum
    · show GivesTwins h₀ h h' (newList (h.items r ++ h.items s))
        (newList (h'.items r' ++ h'.items s'))
      rw [hv.items_eq, hw.items_eq]
      exact twins_newList hp fun v hv => (List.mem_append.1 hv).elim (hp.left.item r v)
        (hp.left.item s v)
    · rwa [add_of_not_sequence (.inr hw₁), add_of_not_sequence (.inr hw₂)]
  · rwa [add_of_not_sequence (.inl hv₁), add_of_not_sequence (.inl hv₂)]

omit hw in
theorem twins_times (hs : v.isSequence = true) {n n' : Value} (hn : Twin h h' n n') :
    GivesTwins h₀ h h' (n.int?.elim (throw .undefined) (times v))
      (n'.int?.elim (throw .undefined) (times v')) := by
  rw [hn.int?_eq]
  cases n.int? with
  | none => exact twins_fault hp _
  | some n =>
    rcases hv.cases_sequence with ⟨s, rfl, rfl⟩ | ⟨r, r', rfl, rfl⟩ | ⟨hv₁, -⟩
    · exact twins_repeatText hp s n
    · exact twins_repeatList hp hv n
    · exact absurd (hs.symm.trans hv₁) Bool.true_eq_false.mp

theorem twins_mul : GivesTwins h₀ h h' (mul v w) (mul v' w') := by
  rcases hv.cases_sequence with ⟨s, rfl, rfl⟩ | ⟨r, r', rfl, rfl⟩ | ⟨hv₁, hv₂⟩
  · rw [mul_left rfl, mul_left rfl]
    exact twins_times hp hv rfl hw
  · rw [mul_left rfl, mul_left rfl]
    exact twins_times hp hv rfl hw
  · rcases hw.cases_sequence with ⟨s, rfl, rfl⟩ | ⟨r, r', rfl, rfl⟩ | ⟨hw₁, hw₂⟩
    · rw [mul_right hv₁ rfl, mul_right hv₂ rfl]
      exact twins_times hp hw rfl hv
    · rw [mul_right hv₁ rfl, mul_right hv₂ rfl]
      exact twins_times hp hw rfl hv
    · rw [mul_of_not_sequences hv₁ hw₁, mul_of_not_sequences hv₂ hw₂]
      exact twins_numeric hp hv hw _

theorem twins_apply {op : BinaryOp} (hop : op ≠ .mem ∧ op ≠ .notMem) :
    GivesTwins h₀ h h' (apply .braced op v w) (apply .braced op v' w') := by
  have hcompares : GivesTwins h₀ h h'
      (do pure (truth .braced (← ofExcept (compares (← get) op v w))))
      (do pure (truth .braced (← ofExcept (compares (← get) op v' w')))) :=
    twins_given hp (hv.compares_recurs hp hw hop) fun _ =>
      twins_value hp (.atom rfl)
  cases op with
  | add => exact twins_add hp hv hw
  | mul => exact twins_mul hp hv hw
  | sub | div | mod | floorDiv | pow => exact twins_numeric hp hv hw _
  | _ => exact hcompares

end Applying

theorem item_twins (hv : Twin h h' v v') (hw : Twin h h' w w') :
    item .braced h' v' w' = item .braced h v w := by
  cases hv with
  | list hr hs =>
    cases hn : w.int? with
    | none =>
      unfold item
      rw [hw.int?_eq, hn]
    | some n =>
      rw [item_list hn, item_list (hw.int?_eq.trans hn), (Twin.list hr hs).items_eq]
  | atom hv =>
    unfold item
    rw [hw.int?_eq]
    cases v <;> first | rfl | cases hv
  | _ =>
    unfold item
    rw [hw.int?_eq]

/-- An item of a list was there before. -/
theorem holds_item (hs : h₀.Sprouts h) {r : Value} (hr : item .braced h v w = .ok r) :
    h₀.Holds r := by
  cases hn : w.int? with
  | none =>
    unfold item at hr
    rw [hn] at hr
    cases hr
  | some n =>
    cases v with
    | list cell =>
      rw [item_list hn] at hr
      split_ifs at hr
      rcases hi : (position? (h.items cell).length n).bind ((h.items cell)[·]?) with _ | v
      · rw [hi] at hr
        cases hr
      · rw [hi] at hr
        cases hr
        obtain ⟨i, -, hv⟩ := Option.bind_eq_some_iff.1 hi
        exact hs.item cell _ (List.mem_of_getElem? hv)
    | str s =>
      unfold item at hr
      rw [hn] at hr
      dsimp only at hr
      split_ifs at hr
      · cases hr
      · split at hr <;> cases hr
        exact Value.below_of_not_list rfl _
    | _ =>
      unfold item at hr
      rw [hn] at hr
      dsimp only at hr
      split_ifs at hr
      cases hr

end Operator

section Evaluating

open Operator

variable {h₀ : Heap} {host : Host} (hbraced : host.dialect = .braced) {scope : Scope}
  (hscope : ∀ name v, scope.get? name = some v → h₀.Holds v)

/-- Two evaluations of which the second one gives a twin of what the first one gives. -/
def Echoes (h₀ : Heap) (m m' : Machine) (x x' : EvalM Value) : Prop :=
  ∀ n n' : Int, Alike Machine.heap h₀ m m' (fun k k' a b => Twin k k' a.1 b.1)
    ((x.run n).outcome m) ((x'.run n').outcome m')

namespace Echoes

variable {m m' : Machine}

theorem value (hp : h₀.Paired m.heap m'.heap) {v v' : Value} (hv : Twin m.heap m'.heap v v') :
    Echoes h₀ m m' (pure v) (pure v') :=
  fun _ _ => .value hp (.refl _) (.refl _) hv

theorem bind {x x' : EvalM Value} {f f' : Value → EvalM Value} (hx : Echoes h₀ m m' x x')
    (hf : ∀ v v' k k', h₀.Paired k.heap k'.heap → m.heap.Grown k.heap → m'.heap.Grown k'.heap →
      Twin k.heap k'.heap v v' → Echoes h₀ k k' (f v) (f' v')) :
    Echoes h₀ m m' (x >>= f) (x' >>= f') := by
  intro n n'
  rw [StateT.run_bind, StateT.run_bind]
  exact (hx n n').bind fun a b k k' hp hg hg' ht => hf a.1 b.1 k k' hp hg hg' ht a.2 b.2

theorem lift {x x' : Run Value}
    (hx : Alike Machine.heap h₀ m m' Twin (x.outcome m) (x'.outcome m')) :
    Echoes h₀ m m' (liftM x) (liftM x') :=
  fun _ _ => hx.bind fun _ _ _ _ hp _ _ ht => .value hp (.refl _) (.refl _) ht

theorem onHeap {act act' : HeapM Value} (h : GivesTwins h₀ m.heap m'.heap act act') :
    Echoes h₀ m m' (liftM (Run.onHeap act)) (liftM (Run.onHeap act')) :=
  .lift h.onHeap

theorem fromHeap {read read' : Heap → Except Fault Value} (hp : h₀.Paired m.heap m'.heap)
    (heq : read' m'.heap = read m.heap)
    (ht : ∀ v, read m.heap = .ok v → Twin m.heap m'.heap v v) :
    Echoes h₀ m m' (liftM (Run.fromHeap read)) (liftM (Run.fromHeap read')) := by
  refine .lift ?_
  rw [outcome_fromHeap, outcome_fromHeap, heq]
  cases hr : read m.heap with
  | error fault => exact .fault fault hp
  | ok v => exact .value hp (.refl _) (.refl _) (ht v hr)

theorem whenTrue {v v' : Value} (hv : Twin m.heap m'.heap v v') {x x' y y' : EvalM Value}
    (hx : Echoes h₀ m m' x x') (hy : Echoes h₀ m m' y y') :
    Echoes h₀ m m' (do if ← Run.isTrue v then x else y)
      (do if ← Run.isTrue v' then x' else y') := by
  show Echoes h₀ m m' (if m.heap.isTrue v then x else y) (if m'.heap.isTrue v' then x' else y')
  rw [hv.isTrue_eq]
  split_ifs <;> assumption

end Echoes

include hbraced hscope in
/-- In later heaps of one in which the variables have their lists, an expression without calls has
the same value, up to the identity of what is made for it. -/
theorem echoes_eval : ∀ {e : Expr}, e.callFree = true → e.OfDialect .braced →
    ∀ {m m' : Machine}, h₀.Paired m.heap m'.heap →
      Echoes h₀ m m' (Eval.eval host scope e) (Eval.eval host scope e)
  | .lit l, _, _, m, m', hp => by
    rw [Eval.eval]
    exact .value hp (.atom (by cases l <;> rfl))
  | .var name, _, _, m, m', hp => by
    rw [Eval.eval]
    unfold Eval.lookup
    cases hv : scope.get? name with
    | none => exact fun _ _ => .fault _ hp
    | some v => exact .value hp (.of_holds hp (hscope name v hv))
  | .list _, _, he, _, _, _ => by cases he.1
  | .unary op operand, hf, he, m, m', hp => by
    rw [Expr.callFree] at hf
    rw [Eval.eval]
    exact (echoes_eval hf he.2 hp).bind fun v v' k k' hp _ _ hv =>
      .onHeap (twins_applyUnary hp hv op)
  | .binary op left right, hf, he, m, m', hp => by
    rw [Expr.callFree, Bool.and_eq_true] at hf
    obtain ⟨hop, hel, her⟩ := he
    rw [Eval.eval]
    refine (echoes_eval hf.1 hel hp).bind fun v v' k k' hp _ _ hv => ?_
    have hw := @echoes_eval right hf.2 her k k' hp
    have htruth : Echoes h₀ k k'
        (do
          let w ← Eval.eval host scope right
          pure (truth .braced (← Run.isTrue w)))
        (do
          let w ← Eval.eval host scope right
          pure (truth .braced (← Run.isTrue w))) :=
      hw.bind fun w w' k k' hp _ _ hw => by
        show Echoes h₀ k k' (pure (truth .braced (k.heap.isTrue w)))
          (pure (truth .braced (k'.heap.isTrue w')))
        rw [hw.isTrue_eq]
        exact .value hp (.atom rfl)
    cases op with
    | and => exact .whenTrue hv hw (.value hp hv)
    | or => exact .whenTrue hv (.value hp hv) hw
    | logicalAnd => exact .whenTrue hv htruth (.value hp (.atom rfl))
    | logicalOr => exact .whenTrue hv (.value hp (.atom rfl)) htruth
    | mem | notMem => exact absurd hop (by decide)
    | _ =>
      refine hw.bind fun w w' k k' hp hg hg' hw => ?_
      rw [hbraced]
      exact .onHeap (twins_apply hp (hv.grown hg hg') hw (by decide))
  | .index target position, hf, he, m, m', hp => by
    rw [Expr.callFree, Bool.and_eq_true] at hf
    rw [Eval.eval, hbraced]
    refine (echoes_eval hf.1 he.1 hp).bind fun v v' k k' hp _ _ hv =>
      (echoes_eval hf.2 he.2 hp).bind fun i i' k k' hp hg hg' hi => ?_
    exact .fromHeap hp (item_twins (hv.grown hg hg') hi) fun r hr => .of_holds hp
      (holds_item hp.left hr)
  | .call _ _, hf, _, _, _, _ => absurd hf (by rw [Expr.callFree]; exact Bool.false_ne_true)
  | .method _ _ _, hf, _, _, _, _ => absurd hf (by rw [Expr.callFree]; exact Bool.false_ne_true)

/-- The value at a place, if there is one. -/
def Place.content? (dialect : Dialect) (scope : Scope) (h : Heap) : Place → Option Value
  | named name => scope.get? name
  | element base index _ => (Operator.item dialect h base index).toOption
  | nowhere => none

variable {m m₁ m₂ m₃ : Machine} {v : Value}

theorem Heap.Sprouts.paired {h : Heap} (hs : h₀.Sprouts h) : h₀.Paired h h := ⟨hs, hs, le_rfl⟩

/-- A value that was computed, or the unknown value in the place of a fault. -/
theorem Alike.recovered {x : Run Value}
    (hx : Alike Machine.heap h₀ m m Twin (x.outcome m) (x.outcome m))
    (hr : (Run.recover x).outcome m = (.ok v, m₁)) : h₀.Sprouts m₁.heap ∧ m₁.heap.Holds v := by
  rw [outcome_recover] at hr
  rcases hxm : x.outcome m with ⟨fault | w, k⟩ <;> rw [hxm] at hx hr <;> dsimp only at hr
  · split_ifs at hr with hrec <;> cases hr
    cases hx with
    | fault _ hp => exact ⟨hp.left, fun _ h => by cases h⟩
    | bottomless => cases hrec
  · cases hr
    cases hx with
    | value hp _ _ ht => exact ⟨hp.left, ht.holds_left⟩

include hbraced hscope in
theorem sprouts_evaluate {e : Expr} (hf : e.callFree = true) (he : e.OfDialect .braced)
    (hs : h₀.Sprouts m.heap) (hv : (host.evaluate scope e).outcome m = (.ok v, m₁)) :
    h₀.Sprouts m₁.heap ∧ m₁.heap.Holds v := by
  have hx := echoes_eval hbraced hscope hf he hs.paired host.limits.maxCallsPerExpression
    host.limits.maxCallsPerExpression
  refine Alike.recovered ?_ hv
  rw [StateT.run'_eq, map_eq_pure_bind]
  exact hx.bind fun a b k k' hp _ _ ht => .value hp (.refl _) (.refl _) ht

/-- What an operator of the braced dialect makes out of values whose lists are there. -/
theorem sprouts_combine {op : BinaryOp} (hop : op ≠ .mem ∧ op ≠ .notMem) {w result : Value}
    (hbraced : host.dialect = .braced) (hs : h₀.Sprouts m.heap) (hv : Twin m.heap m.heap v v)
    (hw : Twin m.heap m.heap w w)
    (hr : (host.combine op v w).outcome m = (.ok result, m₁)) :
    h₀.Sprouts m₁.heap ∧ m₁.heap.Holds result := by
  refine Alike.recovered ?_ hr
  rw [hbraced]
  exact GivesTwins.onHeap (twins_apply hs.paired hv hw hop)

variable {place : Place}

theorem Run.ok_of_bind {x : Run α} {f : α → Run β} {b : β}
    (h : (x >>= f).outcome m = (.ok b, m₁)) :
    ∃ a k, x.outcome m = (.ok a, k) ∧ (f a).outcome k = (.ok b, m₁) := by
  rcases hx : x.outcome m with ⟨fault | a, k⟩
  · rw [outcome_bind_error hx] at h
    cases h
  · rw [outcome_bind_ok hx] at h
    exact ⟨a, k, rfl, h⟩

theorem Host.locate_ok {container position : Expr}
    (hl : (host.locate scope (.index container position)).outcome m = (.ok place, m₁)) :
    ∃ base index k, (host.evaluate scope container).outcome m = (.ok base, k) ∧
      (host.evaluate scope position).outcome k = (.ok index, m₁) ∧
      place = .element base index container.name? := by
  obtain ⟨base, k, hb, hl⟩ := ok_of_bind hl
  obtain ⟨index, k₁, hi, hl⟩ := ok_of_bind hl
  cases hl
  exact ⟨base, index, k, hb, hi, rfl⟩

/-- The value of an expression is that of its evaluation, and unknown if there is none. -/
theorem Host.evaluate_toOption {e : Expr} {x : Except Fault (Value × Int)}
    (hx : ((Eval.eval host scope e).run host.limits.maxCallsPerExpression).outcome m = (x, m₂))
    (hv : (host.evaluate scope e).outcome m = (.ok v, m₁)) :
    x ≠ .error .bottomless ∧ (x.toOption.map Prod.fst).getD .unknown = v := by
  rw [Host.evaluate, outcome_recover, StateT.run'_eq, map_eq_pure_bind] at hv
  cases x with
  | error fault =>
    rw [outcome_bind_error hx] at hv
    dsimp only at hv
    split_ifs at hv with hrec <;> cases hv
    refine ⟨fun h => ?_, rfl⟩
    cases h
    cases hrec
  | ok a =>
    rw [outcome_bind_ok hx] at hv
    cases hv
    exact ⟨by rintro ⟨⟩, rfl⟩

theorem Operator.item_unknown (dialect : Dialect) (h : Heap) (i : Value) :
    (Operator.item dialect h .unknown i).toOption = none := by
  unfold Operator.item
  cases i.int? with
  | none => rfl
  | some n =>
    dsimp only
    split_ifs <;> rfl

/-- How an element gets its value: its container has none, or its index has none, or it is the item
there, if there is one. -/
theorem Host.evaluate_index_cases {container position : Expr}
    (hv : (host.evaluate scope (.index container position)).outcome m = (.ok v, m₁)) :
    (∃ fault k, fault ≠ .bottomless ∧ v = .unknown ∧
      ((Eval.eval host scope container).run host.limits.maxCallsPerExpression).outcome m =
        (.error fault, k)) ∨
    ∃ base calls k,
      ((Eval.eval host scope container).run host.limits.maxCallsPerExpression).outcome m =
        (.ok (base, calls), k) ∧
      ((∃ fault k', fault ≠ .bottomless ∧ v = .unknown ∧
          ((Eval.eval host scope position).run calls).outcome k = (.error fault, k')) ∨
        ∃ index calls' k',
          ((Eval.eval host scope position).run calls).outcome k = (.ok (index, calls'), k') ∧
          (Operator.item host.dialect k'.heap base index).toOption.getD .unknown = v) := by
  rcases hc : ((Eval.eval host scope container).run host.limits.maxCallsPerExpression).outcome m
    with ⟨fault | ⟨base, calls⟩, k⟩
  · have hrun : ((Eval.eval host scope (.index container position)).run
        host.limits.maxCallsPerExpression).outcome m = (.error fault, k) := by
      rw [Eval.eval, StateT.run_bind, outcome_bind_error hc]
    obtain ⟨hne, hu⟩ := evaluate_toOption hrun hv
    exact .inl ⟨fault, k, fun h => hne (h ▸ rfl), hu.symm, rfl⟩
  refine .inr ⟨base, calls, k, rfl, ?_⟩
  rcases hi : ((Eval.eval host scope position).run calls).outcome k
    with ⟨fault | ⟨index, calls'⟩, k'⟩
  · obtain ⟨hne, hu⟩ := evaluate_toOption (by rw [run_index hc, outcome_bind_error hi]) hv
    exact .inl ⟨fault, k', fun h => hne (h ▸ rfl), hu.symm, rfl⟩
  · have hrun : ((Eval.eval host scope (.index container position)).run
        host.limits.maxCallsPerExpression).outcome m =
          ((Operator.item host.dialect k'.heap base index).map (·, calls'), k') := by
      rw [run_index hc, outcome_bind_ok hi]
      rcases hitem : Operator.item host.dialect k'.heap base index with fault | w
      · rw [outcome_bind_error (by rw [outcome_fromHeap, hitem])]
        rfl
      · rw [outcome_bind_ok (by rw [outcome_fromHeap, hitem])]
        rfl
    obtain ⟨-, hu⟩ := evaluate_toOption hrun hv
    refine .inr ⟨index, calls', k', rfl, hu ▸ ?_⟩
    cases Operator.item host.dialect k'.heap base index <;> rfl

include hbraced hscope in
/-- An element that is evaluated and then located again is the same element: it has the value that
was found there, or it was not there. -/
theorem content?_locate {container position : Expr}
    (hf : (Expr.index container position).callFree = true)
    (he : (Expr.index container position).OfDialect .braced) {m' m₁' : Machine}
    (hp : h₀.Paired m.heap m'.heap)
    (hv : (host.evaluate scope (.index container position)).outcome m = (.ok v, m₁))
    (hl : (host.locate scope (.index container position)).outcome m' = (.ok place, m₁')) :
    (place.content? .braced scope m₁'.heap).getD .unknown = v := by
  rw [Expr.callFree, Bool.and_eq_true] at hf
  obtain ⟨base', index', k', hb, hi, rfl⟩ := Host.locate_ok hl
  have hbase := echoes_eval hbraced hscope hf.1 he.1 hp host.limits.maxCallsPerExpression
    host.limits.maxCallsPerExpression
  generalize hr' : ((Eval.eval host scope container).run _).outcome m' = r' at hbase
  show (Operator.item .braced m₁'.heap base' index').toOption.getD .unknown = v
  rcases Host.evaluate_index_cases hv with ⟨fault, k, hne, rfl, hr⟩ | ⟨base, calls, k, hr, hcases⟩
  · rw [hr] at hbase
    cases hbase with
    | fault _ _ =>
      rw [← (Host.evaluate_toOption hr' hb).2]
      exact congrArg (Option.getD · _) (item_unknown .braced m₁'.heap index')
    | bottomless => exact absurd rfl hne
  rw [hr] at hbase
  cases hbase with
  | @value _ b _ _ hpk _ _ hbb =>
    obtain ⟨base', calls'⟩ := b
    cases (Host.evaluate_of_run _ hr').symm.trans hb
    have hindex := echoes_eval hbraced hscope hf.2 he.2 hpk calls host.limits.maxCallsPerExpression
    generalize hq' : ((Eval.eval host scope position).run _).outcome k' = q' at hindex
    rcases hcases with ⟨fault, l, hne, rfl, hq⟩ | ⟨index, calls₁, l, hq, rfl⟩
    · rw [hq] at hindex
      cases hindex with
      | fault _ _ =>
        rw [← (Host.evaluate_toOption hq' hi).2]
        rfl
      | bottomless => exact absurd rfl hne
    · rw [hq] at hindex
      cases hindex with
      | @value _ b _ _ _ hg hg' hii =>
        obtain ⟨index', calls₁'⟩ := b
        cases (Host.evaluate_of_run _ hq').symm.trans hi
        rw [item_twins (hbb.grown hg hg') hii, hbraced]

end Evaluating

end Stepwise
