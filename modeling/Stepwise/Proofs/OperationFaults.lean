import Stepwise.Proofs.ValueFaults

/-!
# Faults of operations on the heap

Operators, built-in functions and methods work on the heap, and all their faults are of values too.
Sorting has no faults but those of its comparison, whichever way the runs are merged.
-/

namespace Stepwise

open Number

variable {α β : Type}

/-- All faults of a computation on this heap are of values. -/
def HeapM.OfValue (x : HeapM α) (h : Heap) : Prop := Stepwise.OfValue (x.run.run h).1

namespace HeapM.OfValue

variable (h : Heap)

@[simp] theorem pure (a : α) : OfValue (Pure.pure a) h := FaultsIn.pure a

@[simp] theorem throw_iff (fault : Fault) : OfValue (throw fault : HeapM α) h ↔ fault.OfValue :=
  FaultsIn.error_iff fault

@[simp] theorem get : OfValue (get : HeapM Heap) h := FaultsIn.pure _

@[simp] theorem set (h' : Heap) : OfValue (set h' : HeapM PUnit) h := FaultsIn.pure _

@[simp] theorem ofExcept_iff (x : Except Fault α) :
    OfValue (ofExcept x : HeapM α) h ↔ Stepwise.OfValue x := by
  cases x <;> exact Iff.rfl

@[simp] theorem bind_iff (x : HeapM α) (f : α → HeapM β) :
    OfValue (x >>= f) h ↔ OfValue x h ∧ ∀ a h', x.run.run h = (.ok a, h') → OfValue (f a) h' := by
  have hb : ((x >>= f).run.run h) = ExceptT.bindCont f (x.run.run h).1 (x.run.run h).2 := rfl
  unfold OfValue
  rw [hb]
  rcases x.run.run h with ⟨fault | a, h'⟩
  · simp only [FaultsIn.error_iff]
    exact ⟨fun hf => ⟨(FaultsIn.error_iff fault).1 hf, fun _ _ h => by cases h⟩,
      fun hf => (FaultsIn.error_iff fault).2 hf.1⟩
  · exact ⟨fun hf => ⟨FaultsIn.pure a, fun _ _ h => by cases h; exact hf⟩, fun hf => hf.2 a h' rfl⟩

@[simp] theorem map_iff (f : α → β) (x : HeapM α) : OfValue (f <$> x) h ↔ OfValue x h := by
  rw [map_eq_pure_bind, bind_iff]
  exact ⟨fun hx => hx.1, fun hx => ⟨hx, fun a h' _ => pure h' (f a)⟩⟩

@[simp] theorem ite_iff (c : Prop) [Decidable c] (x y : HeapM α) :
    OfValue (if c then x else y) h ↔ (c → OfValue x h) ∧ (¬c → OfValue y h) := by
  split_ifs with hc <;> simp [hc]

theorem foldlM {f : β → α → HeapM β} (hf : ∀ b a h, OfValue (f b a) h) :
    ∀ (l : List α) (b : β) (h : Heap), OfValue (l.foldlM f b) h
  | [], b, h => by simp
  | a :: l, b, h => by
    have ih := foldlM hf l
    simp [hf b a, ih]

@[simp] theorem newList (items : List Value) : OfValue (newList items) h := FaultsIn.pure _

@[simp] theorem identify (v : Value) : OfValue (identify v) h := by
  unfold HeapM.identify HeapM.newIdentity
  split <;> simp

end HeapM.OfValue

namespace Operator

variable (h : Heap)

theorem ofValue_repeated {overflow : Fault} (ho : overflow.OfValue) (items : List α) (times : Int) :
    OfValue (repeated overflow items times) := by
  simp [repeated, ho]

@[simp] theorem ofValue_repeatText (s : Text) (times : Int) : (repeatText s times).OfValue h := by
  simp [repeatText, ofValue_repeated]

@[simp] theorem ofValue_repeatList (cell : Nat) (times : Int) :
    (repeatList cell times).OfValue h := by
  simp [repeatList, ofValue_repeated]

@[simp] theorem ofValue_numeric {op : Scalar → Scalar → Except Fault Scalar}
    (hop : ∀ a b, OfValue (op a b)) (v w : Value) : (numeric op v w).OfValue h := by
  simp [numeric, hop]

@[simp] theorem ofValue_add (v w : Value) : (add v w).OfValue h := by
  unfold add
  split <;> simp

@[simp] theorem ofValue_mul (v w : Value) : (mul v w).OfValue h := by
  unfold mul
  split <;> (try split) <;> simp

@[simp] theorem ofValue_mod (v w : Value) : (mod v w).OfValue h := by
  unfold mod
  split <;> simp

@[simp] theorem ofValue_contains (item container : Value) :
    OfValue (contains h item container) := by
  unfold contains
  split
  · simp
  · split <;> simp
  · simp

@[simp] theorem ofValue_compares (op : BinaryOp) (v w : Value) : OfValue (compares h op v w) := by
  unfold compares
  split <;> simp

@[simp] theorem ofValue_apply (dialect : Dialect) (op : BinaryOp) (v w : Value) :
    (apply dialect op v w).OfValue h := by
  unfold apply
  cases dialect <;> split <;> simp

@[simp] theorem ofValue_applyUnary (op : UnaryOp) (v : Value) : (applyUnary op v).OfValue h := by
  unfold applyUnary
  split
  · simp
  · split <;> simp
  · simp
  · simp

@[simp] theorem ofValue_item (dialect : Dialect) (target index : Value) :
    OfValue (item dialect h target index) := by
  unfold item
  split
  · refine (FaultsIn.ite_iff _ _ _).2 ⟨fun _ => by simp, fun _ => ?_⟩
    dsimp only
    split
    · split <;> simp
    · split
      · cases dialect <;> simp
      · simp
    · simp
  · simp

end Operator

/-! ## Sorting: the only faults are those of the comparison -/

namespace Sorting

variable {S : Fault → Prop}

section Searching

variable {before : Nat → Except Fault Bool} (hb : ∀ i, FaultsIn S (before i))
include hb

theorem faultsIn_boundary : ∀ fuel low high : Nat, FaultsIn S (boundary before fuel low high)
  | 0, low, high => by simp [boundary]
  | fuel + 1, low, high => by simp [boundary, hb, faultsIn_boundary fuel]

theorem faultsIn_stride (limit : Nat) :
    ∀ fuel last step : Nat, FaultsIn S (stride before limit fuel last step)
  | 0, last, step => by simp [stride]
  | fuel + 1, last, step => by simp [stride, hb, faultsIn_stride limit fuel]

theorem faultsIn_gallop (n hint : Nat) : FaultsIn S (gallop before n hint) := by
  simp [gallop, hb, faultsIn_stride, faultsIn_boundary]

end Searching

/-- The fault that ended a merge, if any, is of the given sort. -/
def Merged.FaultIn (S : Fault → Prop) (m : Merged) : Prop := ∀ fault ∈ m.fault, S fault

variable {less : Less} (hless : ∀ v w, FaultsIn S (less v w))

namespace Merging

@[simp] theorem faultIn_stopped_none (m : Merging) : (m.stopped none).FaultIn S := by
  simp [stopped, Merged.FaultIn]

@[simp] theorem faultsIn_proceed (m : Merging) : FaultsIn (Merged.FaultIn S) m.proceed := by
  have ended (items : List Value) (minGallop : Nat) :
      Merged.FaultIn S ⟨items, minGallop, none⟩ := by
    simp [Merged.FaultIn]
  simp [proceed, ended]

theorem faultsIn_ask (m : Merging) {answer : Except Fault α} (h : FaultsIn S answer) :
    FaultsIn (Merged.FaultIn S) (m.ask answer) := by
  unfold ask
  split
  · simp
  · simpa [stopped, Merged.FaultIn] using h _ rfl

theorem faultsIn_winning (m : Merging) {before : Value → Except Fault Bool}
    (hb : ∀ v, FaultsIn S (before v)) (run : List Value) (n : Nat) :
    FaultsIn (Merged.FaultIn S) (m.winning before run n) := by
  simp [winning, faultsIn_ask, faultsIn_gallop, hb]

include hless

theorem faultsIn_takeOne (m : Merging) : FaultsIn (Merged.FaultIn S) (m.takeOne less) := by
  unfold takeOne
  split
  · simp [faultsIn_ask m (hless _ _)]
  · simp

theorem faultsIn_gallopOnce (m : Merging) :
    FaultsIn (Merged.FaultIn S) (m.gallopOnce less) := by
  unfold gallopOnce
  split
  · refine (FaultsIn.bind_iff _ _).2 ⟨?_, fun _ _ => ?_⟩
    · exact faultsIn_winning m (fun v => by simp [hless]) _ _
    refine (FaultsIn.bind_iff _ _).2 ⟨faultsIn_proceed _, fun _ _ => ?_⟩
    refine (FaultsIn.bind_iff _ _).2 ⟨faultsIn_proceed _, fun _ _ => ?_⟩
    split <;> simp [faultsIn_winning, hless]
  · simp

theorem faultIn_run : ∀ (fuel : Nat) (pace : Pace) (m : Merging), (run less fuel pace m).FaultIn S
  | 0, _, m => by simp [run]
  | fuel + 1, .single leftWins rightWins, m => by
    have one := faultsIn_takeOne hless m
    have ih := faultIn_run fuel
    rw [run]
    split
    · exact one _ ‹_›
    · dsimp only
      split_ifs <;> apply ih
  | fuel + 1, .gallop, m => by
    have gallops := faultsIn_gallopOnce hless { m with minGallop := max 1 (m.minGallop - 1) }
    have ih := faultIn_run fuel
    rw [run]
    split
    · exact gallops _ ‹_›
    · split_ifs <;> apply ih

theorem faultIn_whole (m : Merging) : (whole less m).FaultIn S := by
  have proceeds := fun m : Merging => faultsIn_proceed (S := S) m
  unfold whole
  split
  · exact proceeds _ _ ‹_›
  · exact faultIn_run hless _ _ _

end Merging

include hless

theorem faultsIn_overlap (left right : List Value) : FaultsIn S (overlap less left right) := by
  unfold overlap
  split
  · refine (FaultsIn.bind_iff _ _).2 ⟨?_, fun _ _ => ?_⟩
    · simp [faultsIn_gallop, hless]
    split <;> simp [faultsIn_gallop, hless]
  · simp

theorem faultIn_merge (minGallop : Nat) (left right : List Value) :
    (merge less minGallop left right).FaultIn S := by
  have overlaps := faultsIn_overlap hless left right
  unfold merge
  split
  · simpa [Merged.FaultIn] using overlaps _ ‹_›
  · split_ifs
    · simp [Merged.FaultIn]
    · exact Merging.faultIn_whole hless _

theorem faultsIn_runLength (descending : Bool) : ∀ (n : Nat) (v : Value) (items : List Value),
    FaultsIn S (runLength less descending n v items)
  | n, v, [] => by simp [runLength]
  | n, v, w :: rest => by simp [runLength, hless, faultsIn_runLength descending (n + 1) w rest]

theorem faultsIn_firstRun (items : List Value) : FaultsIn S (firstRun less items) := by
  unfold firstRun
  split <;> simp [hless, faultsIn_runLength hless]

theorem insertAll_fault : ∀ (sorted pending : List Value),
    ∀ fault ∈ (insertAll less sorted pending).2, S fault
  | _, [] => by simp [insertAll]
  | sorted, item :: rest => by
    have ih := fun sorted => insertAll_fault sorted rest
    have before (i : Nat) : FaultsIn S (do pure (!(← less item (sorted.getD i .none)))) := by
      simp [hless]
    rw [insertAll]
    split
    · apply ih
    · simpa using faultsIn_boundary before _ _ _ _ ‹_›

theorem nextRun_fault (shortest : Nat) (items : List Value) :
    ∀ fault ∈ (nextRun less shortest items).2.2, S fault := by
  have first := faultsIn_firstRun hless items
  unfold nextRun
  split
  · simpa using first _ ‹_›
  · exact insertAll_fault hless _ _

namespace Progress

theorem mergeTwo_fault (p : Progress) (after : List SortedRun) (left right : SortedRun)
    (before : List SortedRun) : ∀ fault ∈ (p.mergeTwo less after left right before).2, S fault :=
  faultIn_merge hless _ _ _

theorem mergeDeeper_fault (depth : Nat) : ∀ (fuel : Nat) (p : Progress),
    ∀ fault ∈ (p.mergeDeeper less depth fuel).2, S fault
  | 0, p => by simp [mergeDeeper]
  | fuel + 1, p => by
    have ih := mergeDeeper_fault depth fuel
    rw [mergeDeeper]
    split
    · split_ifs
      · split
        · apply ih
        · apply mergeTwo_fault hless
      · simp
    · simp

theorem mergeAll_fault : ∀ (fuel : Nat) (p : Progress),
    ∀ fault ∈ (p.mergeAll less fuel).2, S fault
  | 0, p => by simp [mergeAll]
  | fuel + 1, p => by
    have ih := mergeAll_fault fuel
    unfold mergeAll
    extract_lets step
    have stepped : ∀ failed ∈ step, ∀ fault ∈ failed.2, S fault := by
      unfold step
      split
      · split_ifs <;> simpa using mergeTwo_fault hless _ _ _ _ _
      · simpa using mergeTwo_fault hless _ _ _ _ _
      · simp
    clear_value step
    rcases step with _ | ⟨p', _ | fault⟩
    · simp
    · exact ih p'
    · exact stepped _ rfl

theorem prepare_fault (n length : Nat) (p : Progress) :
    ∀ fault ∈ (p.prepare less n length).2, S fault := by
  unfold prepare
  split
  · simp
  · dsimp only
    split <;> exact mergeDeeper_fault hless _ _ _

end Progress

theorem sortFrom_fault (n shortest : Nat) :
    ∀ (fuel start : Nat) (p : Progress) (items : List Value),
      ∀ fault ∈ (sortFrom less n shortest fuel start p items).2, S fault
  | 0, _, p, items => by simp [sortFrom]
  | fuel + 1, _, p, [] => by
    rw [sortFrom]
    exact Progress.mergeAll_fault hless _ _
  | fuel + 1, start, p, v :: rest => by
    have next := nextRun_fault hless shortest (v :: rest)
    have ih := sortFrom_fault n shortest fuel
    rw [sortFrom]
    case x_4 => simp
    split
    · simp_all
    · split
      · rename_i run _ _ _ _ _ hp
        have prepared := Progress.prepare_fault hless n run.length p
        rw [hp] at prepared
        exact prepared
      · apply ih

theorem sort_fault (items : List Value) : ∀ fault ∈ (sort less items).2, S fault :=
  sortFrom_fault hless _ _ _ _ _ _

end Sorting

namespace Builtin

variable (h : Heap)

theorem ofValue_single {f : Value → HeapM Value} (hf : ∀ v, (f v).OfValue h) (args : List Value) :
    (single f args).OfValue h := by
  unfold single
  split <;> simp [hf]

@[simp] theorem ofValue_sequence (v : Value) : (sequence v).OfValue h := by
  refine (HeapM.OfValue.bind_iff ..).2 ⟨.get h, fun _ _ _ => ?_⟩
  split <;> simp

@[simp] theorem ofValue_length (v : Value) : (length v).OfValue h := by
  unfold length
  split <;> simp

@[simp] theorem ofValue_rangeOf (start stop step : Int) : (rangeOf start stop step).OfValue h := by
  simp [rangeOf]

@[simp] theorem ofValue_range (args : List Value) : (range args).OfValue h := by
  unfold range
  split <;> simp

@[simp] theorem ofValue_extreme (op : BinaryOp) : ∀ (best : Value) (items : List Value),
    OfValue (extreme op h best items)
  | best, [] => by simp [extreme]
  | best, v :: rest => by simp [extreme, ofValue_extreme op _ rest]

@[simp] theorem ofValue_extremeOf (op : BinaryOp) (args : List Value) :
    (extremeOf op args).OfValue h := by
  unfold extremeOf
  extract_lets choose
  have chosen (items : List Value) (h' : Heap) : (choose items).OfValue h' := by
    cases items <;> simp [choose]
  split <;> simp [chosen]

@[simp] theorem ofValue_toFloat (v : Value) : (toFloat v).OfValue h := by simp [toFloat]

@[simp] theorem ofValue_round (args : List Value) : (round args).OfValue h := by
  unfold round
  extract_lets roundTo
  have rounded (v : Value × Option Int) (h' : Heap) : (roundTo v).OfValue h' := by
    refine (HeapM.OfValue.bind_iff ..).2 ⟨by simp, fun a _ _ => ?_⟩
    split
    case h_3 => split <;> simp
    all_goals simp
  split
  case h_3 => split <;> simp [rounded]
  all_goals simp [rounded]

theorem ofValue_less (v w : Value) : OfValue (less h v w) := Heap.ofValue_ordered h .lt v w

@[simp] theorem ofValue_sorted (v : Value) : (sorted v).OfValue h := by
  refine (HeapM.OfValue.bind_iff ..).2 ⟨ofValue_sequence h v, fun items h' _ => ?_⟩
  refine (HeapM.OfValue.bind_iff ..).2 ⟨.get h', fun h'' _ _ => ?_⟩
  have sorted := Sorting.sort_fault (ofValue_less h'') items
  split
  · simp
  · simp_all

@[simp] theorem ofValue_sum (v : Value) : (sum v).OfValue h := by
  simp [sum, HeapM.OfValue.foldlM]

theorem ofValue_indented? {name : String} {f : List Value → HeapM Value}
    (hf : indented? name = some f) (args : List Value) : (f args).OfValue h := by
  unfold indented? at hf
  split at hf <;> cases hf <;> simp [ofValue_single]

@[simp] theorem ofValue_sqrt (v : Value) : (sqrt v).OfValue h := by simp [sqrt]

@[simp] theorem ofValue_realPow (x y : Float) : OfValue (realPow x y) := by simp [realPow]

@[simp] theorem ofValue_pow (args : List Value) : (pow args).OfValue h := by
  unfold pow
  split <;> simp

@[simp] theorem ofValue_beforeZero : ∀ items : List Value, OfValue (beforeZero h items)
  | [] => by simp [beforeZero]
  | v :: rest => by simp [beforeZero, ofValue_beforeZero rest]

@[simp] theorem ofValue_strlen (args : List Value) : (strlen args).OfValue h := by
  unfold strlen
  split <;> simp

theorem ofValue_braced? {name : String} {f : List Value → HeapM Value}
    (hf : braced? name = some f) (args : List Value) : (f args).OfValue h := by
  unfold braced? at hf
  split at hf <;> cases hf <;> simp [ofValue_single]

end Builtin

namespace Method

variable (h : Heap)

@[simp] theorem ofValue_bounds (length : Nat) (noneAllowed : Bool) (args : List Value) :
    OfValue (bounds length noneAllowed args) := by
  unfold bounds
  extract_lets bound
  have bounded (v : Value) (missing : Nat) : OfValue (bound v missing) := by
    unfold bound
    split <;> simp
  split <;> simp [bounded]

@[simp] theorem ofValue_writeList (cell : Nat) (items : List Value) :
    (writeList cell items).OfValue h := by
  simp [writeList]

@[simp] theorem ofValue_pop (cell : Nat) (items : List Value) (index : Int) :
    (pop cell items index).OfValue h := by
  unfold pop
  split <;> simp

@[simp] theorem ofValue_indexOf (items : List Value) (item : Value) (start stop : Nat) :
    OfValue (indexOf h items item start stop) := by
  refine (FaultsIn.bind_iff ..).2 ⟨by simp, fun place _ => ?_⟩
  split <;> simp

@[simp] theorem ofValue_sort (cell : Nat) (items : List Value) : (sort cell items).OfValue h := by
  refine (HeapM.OfValue.bind_iff ..).2 ⟨.get h, fun h' _ _ => ?_⟩
  have sorted := Sorting.sort_fault (Builtin.ofValue_less (h'.write cell [])) items
  refine (HeapM.OfValue.bind_iff ..).2 ⟨by simp, fun _ _ _ => ?_⟩
  split
  · simp
  · exact (HeapM.OfValue.throw_iff ..).2 (sorted _ ‹_›)

@[simp] theorem ofValue_ofList (cell : Nat) (name : String) (args : List Value) :
    (ofList cell name args).OfValue h := by
  refine (HeapM.OfValue.bind_iff ..).2 ⟨.get h, fun h' _ _ => ?_⟩
  dsimp only
  split
  · simp
  · simp
  · split <;> simp
  · split <;> simp
  · refine (HeapM.OfValue.bind_iff ..).2 ⟨by simp, fun place _ _ => ?_⟩
    split <;> simp
  all_goals simp

@[simp] theorem ofValue_slice? (text : Text) (args : List Value) : OfValue (slice? text args) := by
  simp [slice?]

@[simp] theorem ofValue_ofText (s : Text) (name : String) (args : List Value) :
    OfValue (ofText s name args) := by
  unfold ofText
  split
  case h_6 =>
    refine (FaultsIn.bind_iff ..).2 ⟨by simp, fun inside _ => ?_⟩
    split <;> simp
  case h_7 =>
    refine (FaultsIn.bind_iff ..).2 ⟨by simp, fun inside _ => ?_⟩
    split <;> simp
  all_goals simp

@[simp] theorem ofValue_call (receiver : Value) (name : String) (args : List Value) :
    (call receiver name args).OfValue h := by
  unfold call
  split <;> simp

end Method

/-! ## Operations of statements -/

theorem Heap.faultsIn_snapshot (h : Heap) (v : Value) :
    FaultsIn (· = .bottomless) (h.snapshot v) := by
  unfold snapshot
  split <;> simp

theorem Heap.faultsIn_snapshotScope (h : Heap) (scope : Scope) :
    FaultsIn (· = .bottomless) (h.snapshotScope scope) := by
  have entries := FaultsIn.mapM (S := (· = .bottomless))
    (f := fun entry : String × Value => do pure (entry.1, ← h.snapshot entry.2))
    (fun entry => by simp [h.faultsIn_snapshot]) scope.entries
  simpa [snapshotScope] using entries

theorem Expr.faultsIn_parse? (dialect : Dialect) (text : List Char) :
    FaultsIn (· = .tooManyDigits) (Expr.parse? dialect text) := by
  unfold Expr.parse?
  split <;> simp

namespace Braced

theorem faultsIn_coerce (isFloat : Bool) (v : Value) :
    FaultsIn (· = .tooLarge) (coerce isFloat v) := by
  unfold coerce
  split
  · simp [intToFloat]
  · split_ifs
    · simp
    · split <;> simp
  · simp

theorem faultsIn_keepKind (current v : Value) : FaultsIn (· = .tooLarge) (keepKind current v) := by
  unfold keepKind
  split
  · exact faultsIn_coerce _ _
  · simp [intToFloat]
  · simp [intToFloat]
  · simp

theorem ofText_outputText (function : String) (args : List Value) (h : Heap) :
    OfText (outputText function args h) := by
  unfold outputText
  split
  · simp
  · split_ifs <;> simp

end Braced

end Stepwise
