import Stepwise.Proofs.OperationFaults
import Stepwise.Proofs.Rearranging

/-!
# Invariants of values and of the heap

A `ValueInvariant` says which values a run may hold and what holds of the heap behind them. It has to
allow the values that operations make by themselves, and to survive new lists and writes to lists
that are held. Then every operator, built-in function and method keeps it: given values that may be
held, it leaves the heap in order, whether it fails or not, and gives a value that may be held.
-/

namespace Stepwise

open Number

variable {α β : Type}

/-- Values that operations of a dialect make out of any others. Only the indented dialect makes
truth values and complex numbers. -/
def Value.isAtomOf (dialect : Dialect) : Value → Bool
  | .list _ => false
  | .bool _ | .complex _ _ _ => dialect == .indented
  | _ => true

/-- A property of values and heaps that is kept when lists are made and written. -/
structure ValueInvariant (dialect : Dialect) where
  /-- The value may be held. -/
  Val : Value → Prop
  Inv : Heap → Prop
  atom : ∀ {v : Value}, v.isAtomOf dialect = true → Val v
  complex : ∀ {re im : Float} {identity : Option Nat}, Val (.complex re im identity) →
    ∀ re' im' identity', Val (.complex re' im' identity')
  item : ∀ {h : Heap} {cell : Nat}, Inv h → Val (.list cell) → ∀ v ∈ h.items cell, Val v
  alloc : ∀ {h : Heap} {items : List Value}, Inv h → (∀ v ∈ items, Val v) →
    Val (h.alloc items).1 ∧ Inv (h.alloc items).2
  write : ∀ {h : Heap} {cell : Nat} {items : List Value}, Inv h → Val (.list cell) →
    (∀ v ∈ items, Val v) → Inv (h.write cell items)
  nans : ∀ {h : Heap} (n : Nat), Inv h → Inv { h with nans := n }

namespace ValueInvariant

variable {dialect : Dialect} (V : ValueInvariant dialect)

/-- All of several values may be held. -/
def All (values : List Value) : Prop := ∀ v ∈ values, V.Val v

/-- A number that may be held. -/
def Num (a : Scalar) : Prop := V.Val (.ofNum a)

/-- A computation on the heap keeps the invariant, however it ends, and its result satisfies `S`. -/
def Keeps (x : HeapM α) (S : α → Prop) : Prop :=
  ∀ h, V.Inv h → V.Inv (x.run.run h).2 ∧ Gives S (x.run.run h).1

/-- Nothing is asked of values. -/
def any (dialect : Dialect) : ValueInvariant dialect where
  Val := fun _ => True
  Inv := fun _ => True
  atom := fun _ => trivial
  complex := fun _ _ _ _ => trivial
  item := fun _ _ _ _ => trivial
  alloc := fun _ _ => ⟨trivial, trivial⟩
  write := fun _ _ _ => trivial
  nans := fun _ _ => trivial

variable {V}

section Values

@[simp] theorem val_none : V.Val .none := V.atom rfl

@[simp] theorem val_unknown : V.Val .unknown := V.atom rfl

@[simp] theorem val_int (n : Int) : V.Val (.int n) := V.atom rfl

@[simp] theorem val_float (x : Float) : V.Val (.float x) := V.atom rfl

@[simp] theorem val_nan (identity : Nat) : V.Val (.nan identity) := V.atom rfl

@[simp] theorem val_str (s : Text) : V.Val (.str s) := V.atom rfl

theorem val_bool (indented : dialect = .indented) (b : Bool) : V.Val (.bool b) :=
  V.atom (by rw [indented]; rfl)

theorem val_complex (indented : dialect = .indented) (re im : Float) (identity : Option Nat) :
    V.Val (.complex re im identity) :=
  V.atom (by rw [indented]; rfl)

@[simp] theorem val_truth (b : Bool) : V.Val (Operator.truth dialect b) :=
  V.atom (by cases dialect <;> rfl)

@[simp] theorem num_int (n : Int) : V.Num (.int n) := V.val_int n

@[simp] theorem num_float (x : Float) : V.Num (.float x) := V.val_float x

/-- If one complex number may be held, all of them may. -/
theorem Num.complex {re im : Float} (h : V.Num (.complex re im)) (re' im' : Float) :
    V.Num (.complex re' im') :=
  V.complex h re' im' none

theorem All.append {vs ws : List Value} (hv : V.All vs) (hw : V.All ws) : V.All (vs ++ ws) :=
  fun v h => (List.mem_append.1 h).elim (hv v) (hw v)

theorem All.cons {v : Value} {vs : List Value} (hv : V.Val v) (hvs : V.All vs) :
    V.All (v :: vs) := by
  intro w hw
  rcases List.mem_cons.1 hw with rfl | hw
  · exact hv
  · exact hvs w hw

theorem All.nil : V.All [] := fun _ h => by cases h

theorem All.of_subset {vs ws : List Value} (hw : V.All ws) (h : vs ⊆ ws) : V.All vs :=
  fun v hv => hw v (h hv)

theorem All.replicate {v : Value} (hv : V.Val v) (n : Nat) : V.All (List.replicate n v) :=
  fun w hw => by rw [List.eq_of_mem_replicate hw]; exact hv

theorem all_charValues (s : Text) : V.All (charValues s) := by
  intro v hv
  obtain ⟨p, -, rfl⟩ := List.mem_map.1 hv
  exact V.val_str [p]

theorem all_sequence? {h : Heap} (hi : V.Inv h) {v : Value} (hv : V.Val v) {items : List Value}
    (hs : h.sequence? v = some items) : V.All items := by
  cases v <;> cases hs
  · exact all_charValues _
  · exact V.item hi hv

/-- The number that a held value is may be held. -/
theorem gives_num {v : Value} (hv : V.Val v) : Gives V.Num v.num := by
  intro a ha
  cases v <;> cases ha
  · exact V.num_int _
  · exact V.num_int _
  · exact V.num_float _
  · exact V.num_float _
  · exact V.complex hv _ _ _

end Values

section Scalars

/-- A complex result needs a complex operand that is held. -/
theorem gives_combine {onInts : Int → Int → Except Fault Scalar}
    {onFloats : Float → Float → Except Fault Scalar}
    {onComplex : Float × Float → Float × Float → Except Fault Scalar}
    (hi : ∀ m n, Gives V.Num (onInts m n)) (hf : ∀ x y, Gives V.Num (onFloats x y))
    (hc : (∀ re im, V.Num (.complex re im)) → ∀ a b, Gives V.Num (onComplex a b)) {a b : Scalar}
    (ha : V.Num a) (hb : V.Num b) :
    Gives V.Num (Scalar.combine onInts onFloats onComplex a b) := by
  cases a <;> cases b
  case int.int => exact hi _ _
  case complex.int => exact .bindAny fun _ => hc ha.complex _ _
  case complex.float => exact .bindAny fun _ => hc ha.complex _ _
  case complex.complex => exact .bindAny fun _ => hc ha.complex _ _
  case int.complex => exact .bindAny fun _ => hc hb.complex _ _
  case float.complex => exact .bindAny fun _ => hc hb.complex _ _
  all_goals exact .bindAny fun _ => .bindAny fun _ => hf _ _

variable {a b : Scalar} (ha : V.Num a) (hb : V.Num b)
include ha hb

theorem gives_add : Gives V.Num (a.add b) :=
  gives_combine (fun _ _ => .pure (num_int _)) (fun _ _ => .pure (num_float _))
    (fun hc _ _ => .pure (hc _ _)) ha hb

theorem gives_sub : Gives V.Num (a.sub b) :=
  gives_combine (fun _ _ => .pure (num_int _)) (fun _ _ => .pure (num_float _))
    (fun hc _ _ => .pure (hc _ _)) ha hb

theorem gives_mul : Gives V.Num (a.mul b) :=
  gives_combine (fun _ _ => .pure (num_int _)) (fun _ _ => .pure (num_float _))
    (fun hc _ _ => .pure (hc _ _)) ha hb

theorem gives_div : Gives V.Num (a.div b) := by
  refine gives_combine (fun m n => ?_) (fun x y => ?_) (fun hc _ _ => .bindAny fun _ => ?_) ha hb
  · unfold Scalar.ratio
    split_ifs
    · exact .throw _
    · dsimp only
      split_ifs
      · exact .throw _
      · exact .pure (num_float _)
  · split_ifs
    · exact .throw _
    · exact .pure (num_float _)
  · exact .pure (hc _ _)

theorem gives_floorDiv : Gives V.Num (a.floorDiv b) := by
  refine gives_combine (fun m n => ?_) (fun x y => ?_) (fun _ _ _ => .throw _) ha hb <;> split_ifs
  · exact .throw _
  · exact .pure (num_int _)
  · exact .throw _
  · exact .pure (num_float _)

theorem gives_mod : Gives V.Num (a.mod b) := by
  refine gives_combine (fun m n => ?_) (fun x y => ?_) (fun _ _ _ => .throw _) ha hb <;> split_ifs
  · exact .throw _
  · exact .pure (num_int _)
  · exact .throw _
  · exact .pure (num_float _)

theorem gives_truncDiv : Gives V.Num (a.truncDiv b) := by
  unfold Scalar.truncDiv
  split
  · exact .bindAny fun _ => .pure (num_int _)
  · exact gives_div ha hb

omit ha hb in
theorem gives_truncMod : Gives V.Num (a.truncMod b) := by
  unfold Scalar.truncMod
  split
  · exact .bindAny fun _ => .pure (num_int _)
  · refine .bindAny fun _ => .bindAny fun _ => ?_
    dsimp only
    split_ifs
    · exact .throw _
    · exact .pure (num_float _)

omit ha hb in
/-- In the indented dialect every number may be held. -/
theorem num_of_indented (indented : dialect = .indented) : ∀ a : Scalar, V.Num a
  | .int n => num_int n
  | .float x => num_float x
  | .complex _ _ => val_complex indented _ _ none

omit hb in
theorem num_neg : V.Num a.neg := by
  cases a with
  | int n => exact num_int _
  | float x => exact num_float _
  | complex re im => exact ha.complex _ _

end Scalars

namespace Keeps

variable {S T : α → Prop} {R : β → Prop}

theorem value {a : α} (h : S a) : V.Keeps (pure a) S := fun _ hi => ⟨hi, .pure h⟩

theorem fault (f : Fault) : V.Keeps (throw f : HeapM α) S := fun _ hi => ⟨hi, .throw f⟩

theorem faultThen (f : Fault) (g : α → HeapM β) : V.Keeps (throw f >>= g) R :=
  fun _ hi => ⟨hi, .throw f⟩

theorem heap : V.Keeps (get : HeapM Heap) V.Inv := fun _ hi => ⟨hi, .pure hi⟩

theorem put {h : Heap} (hi : V.Inv h) : V.Keeps (set h : HeapM PUnit) fun _ => True :=
  fun _ _ => ⟨hi, .pure trivial⟩

theorem given {x : Except Fault α} (h : Gives S x) : V.Keeps (ofExcept x) S := fun _ hi => by
  cases x with
  | error fault => exact ⟨hi, .throw fault⟩
  | ok a => exact ⟨hi, .pure (h a rfl)⟩

theorem read (x : Except Fault α) : V.Keeps (ofExcept x : HeapM α) fun _ => True :=
  given fun _ _ => trivial

theorem bind {x : HeapM α} {f : α → HeapM β} (hx : V.Keeps x S)
    (hf : ∀ a, S a → V.Keeps (f a) R) : V.Keeps (x >>= f) R := by
  intro h hi
  obtain ⟨hi', hs⟩ := hx h hi
  have hb : ((x >>= f).run.run h) = ExceptT.bindCont f (x.run.run h).1 (x.run.run h).2 := rfl
  rw [hb]
  rcases hr : x.run.run h with ⟨fault | a, h'⟩ <;> rw [hr] at hi' hs
  · exact ⟨hi', .throw fault⟩
  · exact hf a (hs a rfl) h' hi'

theorem newList {items : List Value} (h : V.All items) : V.Keeps (HeapM.newList items) V.Val :=
  fun _ hi => ⟨(V.alloc hi h).2, .pure (V.alloc hi h).1⟩

theorem newIdentity : V.Keeps HeapM.newIdentity fun _ => True :=
  fun _ hi => ⟨V.nans _ hi, .pure trivial⟩

theorem identify {v : Value} (hv : V.Val v) : V.Keeps (HeapM.identify v) V.Val := by
  unfold HeapM.identify
  split
  · split_ifs
    · exact newIdentity.bind fun _ _ => value (val_nan _)
    · exact value hv
  · split_ifs
    · exact newIdentity.bind fun _ _ => value (V.complex hv _ _ _)
    · exact value hv
  · exact value hv

theorem foldlM {f : β → α → HeapM β} {items : List α}
    (hf : ∀ b, R b → ∀ a ∈ items, V.Keeps (f b a) R) {b : β} (hb : R b) :
    V.Keeps (items.foldlM f b) R := by
  induction items generalizing b with
  | nil => exact value hb
  | cons a items ih =>
    rw [List.foldlM_cons]
    exact (hf b hb a List.mem_cons_self).bind fun b' hb' =>
      ih (fun b'' hb'' a' ha' => hf b'' hb'' a' (List.mem_cons_of_mem a ha')) hb'

end Keeps

open ValueInvariant.Keeps

section Operators

open Operator

theorem all_repeatOnto {items : List Value} (hi : V.All items) :
    ∀ (n : Nat) {rest : List Value}, V.All rest → V.All (repeatOnto items n rest)
  | 0, _, hr => hr
  | n + 1, _, hr => all_repeatOnto hi n (hi.append hr)

theorem keeps_repeatList {cell : Nat} (hc : V.Val (.list cell)) (times : Int) :
    V.Keeps (repeatList cell times) V.Val := by
  refine heap.bind fun h hi => ?_
  have repeats : Gives V.All (repeated .outOfMemory (h.items cell) times) := by
    unfold repeated
    dsimp only
    split_ifs
    · exact .throw _
    · exact .pure All.nil
    · exact .throw _
    · exact .throw _
    · exact .pure (all_repeatOnto (V.item hi hc) _ All.nil)
  exact (given repeats).bind fun items => newList

theorem keeps_repeatText (s : Text) (times : Int) : V.Keeps (repeatText s times) V.Val :=
  (read _).bind fun _ _ => value (val_str _)

variable {v w : Value} (hv : V.Val v) (hw : V.Val w)
include hv hw

theorem keeps_numeric {op : Scalar → Scalar → Except Fault Scalar}
    (hop : ∀ {a b}, V.Num a → V.Num b → Gives V.Num (op a b)) :
    V.Keeps (numeric op v w) V.Val :=
  (given (gives_num hv)).bind fun _ ha => (given (gives_num hw)).bind fun _ hb =>
    (given (hop ha hb)).bind fun _ => identify

theorem keeps_add : V.Keeps (add v w) V.Val := by
  unfold add
  split
  · exact value (val_str _)
  · exact heap.bind fun h hi => newList (All.append (V.item hi hv) (V.item hi hw))
  · exact keeps_numeric hv hw gives_add

theorem keeps_mul : V.Keeps (mul v w) V.Val := by
  unfold mul
  split
  · split
    · exact keeps_repeatText _ _
    · exact fault _
  · split
    · exact keeps_repeatList hv _
    · exact fault _
  · split
    · exact keeps_repeatText _ _
    · exact fault _
  · split
    · exact keeps_repeatList hw _
    · exact fault _
  · exact keeps_numeric hv hw gives_mul

theorem keeps_mod : V.Keeps (mod v w) V.Val := by
  unfold mod
  split
  · exact heap.bind fun _ _ => (read _).bind fun _ _ => value (val_str _)
  · exact keeps_numeric hv hw gives_mod

/-- Only powers make complex numbers out of others, and the braced dialect has no such operator. -/
theorem keeps_apply {op : BinaryOp} (hop : dialect = .braced → op ≠ .pow) :
    V.Keeps (apply dialect op v w) V.Val := by
  unfold apply
  split
  · exact keeps_add hv hw
  · exact keeps_numeric hv hw gives_sub
  · exact keeps_mul hv hw
  · split
    · exact keeps_numeric hv hw gives_div
    · exact keeps_numeric hv hw gives_truncDiv
  · split
    · exact keeps_mod hv hw
    · exact keeps_numeric hv hw fun _ _ => gives_truncMod
  · exact keeps_numeric hv hw gives_floorDiv
  · have indented : dialect = .indented := by
      cases dialect
      · rfl
      · exact absurd rfl (hop rfl)
    exact keeps_numeric hv hw fun _ _ _ _ => num_of_indented indented _
  · exact heap.bind fun _ _ => (read _).bind fun _ _ => value (val_truth _)

omit hw in
theorem keeps_applyUnary {op : UnaryOp} (hop : dialect = .braced → op ≠ .not) :
    V.Keeps (applyUnary op v) V.Val := by
  unfold applyUnary
  split
  · exact (given (gives_num hv)).bind fun _ ha => identify (num_neg ha)
  · split
    · exact value hv
    · exact value hv
    · exact (given (gives_num hv)).bind fun _ ha => value (S := V.Val) ha
  · have indented : dialect = .indented := by
      cases dialect
      · rfl
      · exact absurd rfl (hop rfl)
    exact heap.bind fun _ _ => value (val_bool indented _)
  · exact heap.bind fun _ _ => value (val_int _)

omit hw in
theorem gives_item {h : Heap} (hi : V.Inv h) (index : Value) :
    Gives V.Val (Operator.item dialect h v index) := by
  unfold Operator.item
  split
  · extract_lets pick
    have picked : Gives V.Val (pick ()) := by
      unfold pick
      split
      · dsimp only
        split
        · rename_i hitem
          obtain ⟨i, -, hi'⟩ := Option.bind_eq_some_iff.1 hitem
          exact .pure (V.item hi hv _ (List.mem_of_getElem? hi'))
        · exact .throw _
      · split
        · split
          · exact .pure (val_str _)
          · exact .pure (val_int _)
        · exact .throw _
      · exact .throw _
    split_ifs
    · exact .bindAny fun _ => picked
    · exact picked
  · exact .throw _

end Operators

section Builtins

open Builtin

theorem keeps_sequence {v : Value} (hv : V.Val v) : V.Keeps (sequence v) V.All := by
  refine heap.bind fun h hi => ?_
  split
  · exact value (all_sequence? hi hv ‹_›)
  · exact fault _

theorem keeps_single {f : Value → HeapM Value} (hf : ∀ v, V.Val v → V.Keeps (f v) V.Val)
    {args : List Value} (ha : V.All args) : V.Keeps (single f args) V.Val := by
  unfold single
  split
  · exact hf _ (ha _ List.mem_cons_self)
  · exact fault _

theorem keeps_length {v : Value} (hv : V.Val v) : V.Keeps (length v) V.Val := by
  unfold length
  split
  · exact value (val_int _)
  · exact (keeps_sequence hv).bind fun _ _ => value (val_int _)

theorem keeps_rangeOf (start stop step : Int) : V.Keeps (rangeOf start stop step) V.Val := by
  have ints (n : Nat) : V.All ((List.range n).map fun i : Nat => .int (start + step * i)) := by
    intro v hv
    obtain ⟨i, -, rfl⟩ := List.mem_map.1 hv
    exact val_int _
  unfold rangeOf
  split_ifs
  · exact faultThen _ _
  · show V.Keeps (if maxSequenceLength < rangeLength start stop step then
      throw .undefined >>= fun _ => HeapM.newList _ else HeapM.newList _) V.Val
    split_ifs
    · exact faultThen _ _
    · exact newList (ints _)

theorem keeps_range (args : List Value) : V.Keeps (range args) V.Val := by
  unfold range
  split
  · exact keeps_rangeOf _ _ _
  · exact keeps_rangeOf _ _ _
  · exact keeps_rangeOf _ _ _
  · exact fault _

theorem gives_extreme (op : BinaryOp) (h : Heap) : ∀ {best : Value} {items : List Value},
    V.Val best → V.All items → Gives V.Val (extreme op h best items)
  | best, [], hb, _ => .pure hb
  | best, v :: rest, hb, hi => by
    have hrest : V.All rest := hi.of_subset (List.subset_cons_self v rest)
    rw [extreme]
    refine .bindAny fun before => ?_
    cases before with
    | true => exact gives_extreme op h (hi v List.mem_cons_self) hrest
    | false => exact gives_extreme op h hb hrest

theorem keeps_extremeOf (op : BinaryOp) {args : List Value} (ha : V.All args) :
    V.Keeps (extremeOf op args) V.Val := by
  unfold extremeOf
  extract_lets choose
  have chosen : ∀ items : List Value, V.All items → V.Keeps (choose items) V.Val := by
    intro items hi
    cases items with
    | nil => exact fault _
    | cons v rest =>
      exact heap.bind fun h _ => given (gives_extreme op h (hi v List.mem_cons_self)
        (hi.of_subset (List.subset_cons_self v rest)))
  split
  · exact (keeps_sequence (ha _ List.mem_cons_self)).bind chosen
  · exact (value ha).bind chosen

theorem keeps_toFloat {v : Value} (hv : V.Val v) : V.Keeps (toFloat v) V.Val := by
  unfold toFloat
  split_ifs
  · exact value hv
  · exact (read _).bind fun _ _ => identify (val_float _)

theorem keeps_round (args : List Value) : V.Keeps (Builtin.round args) V.Val := by
  unfold Builtin.round
  extract_lets roundTo
  have rounded : ∀ v : Value × Option Int, True → V.Keeps (roundTo v) V.Val := by
    intro v _
    refine (read _).bind fun a _ => ?_
    split
    · exact value (val_int _)
    · exact value (val_int _)
    · split
      · exact value (val_int _)
      · exact fault _
    · exact (read _).bind fun _ _ => identify (val_float _)
    · exact fault _
  split
  · exact (value trivial).bind rounded
  · exact (value trivial).bind rounded
  · split
    · exact (value trivial).bind rounded
    · exact faultThen _ _
  · exact faultThen _ _

theorem all_sort {items : List Value} (hi : V.All items) (less : Sorting.Less) :
    V.All (Sorting.sort less items).1 :=
  hi.of_subset (Sorting.sort_perm less items).subset

theorem keeps_sorted {v : Value} (hv : V.Val v) : V.Keeps (sorted v) V.Val := by
  refine (keeps_sequence hv).bind fun items hi => heap.bind fun h _ => ?_
  have arranged := all_sort hi (less h)
  split
  · rename_i hsort
    rw [hsort] at arranged
    exact newList arranged
  · exact fault _

theorem keeps_sum {v : Value} (hv : V.Val v) : V.Keeps (sum v) V.Val :=
  (keeps_sequence hv).bind fun _ hi => foldlM (fun _ hb _ ha => keeps_add hb (hi _ ha)) (val_int 0)

/-- The built-in functions of the indented dialect. -/
theorem keeps_indented? (indented : dialect = .indented) {name : String}
    {f : List Value → HeapM Value} (hf : indented? name = some f) {args : List Value}
    (ha : V.All args) : V.Keeps (f args) V.Val := by
  unfold indented? at hf
  split at hf <;> cases hf
  · exact keeps_single (fun v => keeps_length) ha
  · exact keeps_range args
  · exact keeps_single (fun v hv => (read _).bind fun _ _ => (read _).bind fun _ _ =>
      identify (num_of_indented indented _)) ha
  · exact keeps_extremeOf .lt ha
  · exact keeps_extremeOf .gt ha
  · exact keeps_single (fun v _ => heap.bind fun _ _ => (read _).bind fun _ _ =>
      value (val_str _)) ha
  · exact keeps_single (fun v _ => (read _).bind fun _ _ => value (val_int _)) ha
  · exact keeps_single (fun v => keeps_toFloat) ha
  · exact keeps_single (fun v _ => heap.bind fun _ _ => value (val_bool indented _)) ha
  · exact keeps_round args
  · exact keeps_single (fun v => keeps_sorted) ha
  · exact keeps_single (fun v hv => (keeps_sequence hv).bind fun items hi =>
      newList (hi.of_subset (List.reverse_perm items).subset)) ha
  · exact keeps_single (fun v => keeps_sum) ha
  · exact keeps_single (fun v hv => (keeps_sequence hv).bind fun _ => newList) ha
  · exact keeps_single (fun v _ => value (val_str _)) ha

theorem keeps_sqrt (v : Value) : V.Keeps (sqrt v) V.Val := by
  refine (read _).bind fun _ _ => (read _).bind fun x _ => ?_
  split_ifs
  · exact fault _
  · exact identify (val_float _)

theorem keeps_pow (args : List Value) : V.Keeps (pow args) V.Val := by
  unfold Builtin.pow
  split
  · exact (read _).bind fun _ _ => (read _).bind fun _ _ => (read _).bind fun _ _ =>
      (read _).bind fun _ _ => (read _).bind fun _ _ => identify (val_float _)
  · exact fault _

theorem keeps_strlen (args : List Value) : V.Keeps (strlen args) V.Val := by
  unfold strlen
  split
  · exact heap.bind fun _ _ => (read _).bind fun _ _ => value (val_int _)
  · exact value (val_int _)
  · exact fault _

/-- The built-in functions of the braced dialect. -/
theorem keeps_braced? {name : String} {f : List Value → HeapM Value} (hf : braced? name = some f)
    {args : List Value} (ha : V.All args) : V.Keeps (f args) V.Val := by
  unfold braced? at hf
  split at hf <;> cases hf
  · exact keeps_single (fun v _ => (read _).bind fun _ _ => value (val_int _)) ha
  · exact keeps_single (fun v _ => (read _).bind fun _ _ => identify (val_float _)) ha
  · exact keeps_single (fun v _ => keeps_sqrt v) ha
  · exact keeps_pow args
  · exact keeps_strlen args

end Builtins

section Methods

open Method

theorem keeps_writeList {cell : Nat} (hc : V.Val (.list cell)) {items : List Value}
    (hi : V.All items) : V.Keeps (writeList cell items) V.Val :=
  heap.bind fun _ hh => (put (V.write hh hc hi)).bind fun _ _ => value val_none

theorem keeps_pop {cell : Nat} (hc : V.Val (.list cell)) {items : List Value} (hi : V.All items)
    (index : Int) : V.Keeps (pop cell items index) V.Val := by
  unfold pop
  split
  · rename_i i v hpop
    obtain ⟨j, -, hj⟩ := Option.bind_eq_some_iff.1 hpop
    obtain ⟨w, hw, heq⟩ := Option.map_eq_some_iff.1 hj
    cases heq
    have rest : V.All (items.eraseIdx i) := hi.of_subset (List.eraseIdx_subset)
    exact (keeps_writeList hc rest).bind fun _ _ => value (hi _ (List.mem_of_getElem? hw))
  · exact fault _

theorem keeps_sort {cell : Nat} (hc : V.Val (.list cell)) {items : List Value} (hi : V.All items) :
    V.Keeps (sort cell items) V.Val := by
  refine heap.bind fun h _ => (keeps_writeList hc (all_sort hi _)).bind fun result hr => ?_
  split
  · exact value hr
  · exact fault _

theorem keeps_ofList {cell : Nat} (hc : V.Val (.list cell)) (name : String) {args : List Value}
    (ha : V.All args) : V.Keeps (ofList cell name args) V.Val := by
  refine heap.bind fun h hh => ?_
  have hi : V.All (h.items cell) := V.item hh hc
  dsimp only
  split
  · exact keeps_writeList hc (hi.append (All.cons (ha _ List.mem_cons_self) All.nil))
  · exact keeps_pop hc hi _
  · split
    · exact keeps_pop hc hi _
    · exact fault _
  · split
    · split_ifs
      · refine keeps_writeList hc (All.append (hi.of_subset (List.take_subset _ _)) (All.cons ?_
          (hi.of_subset (List.drop_subset _ _))))
        exact ha _ (List.mem_cons_of_mem _ List.mem_cons_self)
      · exact fault _
    · exact fault _
  · refine (read _).bind fun place _ => ?_
    split
    · exact keeps_writeList hc (hi.of_subset List.eraseIdx_subset)
    · exact fault _
  · exact (keeps_sequence (ha _ List.mem_cons_self)).bind fun _ hs =>
      keeps_writeList hc (hi.append hs)
  · refine (read _).bind fun _ _ => given (.bindAny fun place => ?_)
    split
    · exact .pure (val_int _)
    · exact .throw _
  · exact (read _).bind fun _ _ => value (val_int _)
  · exact keeps_writeList hc (hi.of_subset (List.reverse_perm _).subset)
  · exact keeps_sort hc hi
  · exact fault _

theorem gives_ofText (s : Text) (name : String) (args : List Value) :
    Gives V.Val (ofText s name args) := by
  unfold ofText
  split
  · exact .pure (val_str _)
  · exact .pure (val_str _)
  · exact .pure (val_str _)
  · exact .pure (val_str _)
  · exact .pure (val_str _)
  · refine .bindAny fun inside => ?_
    split
    · exact .pure (val_int _)
    · exact .pure (val_int _)
  · refine .bindAny fun inside => ?_
    split
    · exact .pure (val_int _)
    · exact .throw _
  · exact .throw _

theorem keeps_call {receiver : Value} (hr : V.Val receiver) (name : String) {args : List Value}
    (ha : V.All args) : V.Keeps (Method.call receiver name args) V.Val := by
  unfold Method.call
  split
  · exact keeps_ofList hr name ha
  · exact given (gives_ofText _ name args)
  · exact fault _

end Methods

end ValueInvariant

end Stepwise
