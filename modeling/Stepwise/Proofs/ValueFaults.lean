import Mathlib.Tactic.SplitIfs
import Stepwise.Trace

/-!
# Faults of operations on values

Operators, built-in functions and methods fail in five ways, the constructors of `Fault.OfValue`.
The text of a value can only be too long, or endless (`Fault.OfText`). Both are shown of one
operation after the other, in the order in which they use each other.
-/

namespace Stepwise

open Number

variable {α β : Type}

/-- The faults that operations on values have. -/
inductive Fault.OfValue : Fault → Prop
  | undefined : OfValue .undefined
  | tooManyDigits : OfValue .tooManyDigits
  | tooLarge : OfValue .tooLarge
  | bottomless : OfValue .bottomless
  | outOfMemory : OfValue .outOfMemory

attribute [simp] Fault.OfValue.undefined Fault.OfValue.tooManyDigits Fault.OfValue.tooLarge
  Fault.OfValue.bottomless Fault.OfValue.outOfMemory

/-- The faults of writing a value as a text. -/
inductive Fault.OfText : Fault → Prop
  | tooManyDigits : OfText .tooManyDigits
  | bottomless : OfText .bottomless
  | outOfMemory : OfText .outOfMemory

attribute [simp] Fault.OfText.tooManyDigits Fault.OfText.bottomless Fault.OfText.outOfMemory

theorem Fault.OfText.ofValue {fault : Fault} (h : fault.OfText) : fault.OfValue := by
  cases h <;> simp

/-- All faults of a computation are of one sort. -/
def FaultsIn {ε : Type} (S : ε → Prop) (x : Except ε α) : Prop :=
  ∀ fault, x = .error fault → S fault

namespace FaultsIn

variable {ε : Type} {S T : ε → Prop}

theorem mono (h : ∀ fault, S fault → T fault) {x : Except ε α} (hx : FaultsIn S x) :
    FaultsIn T x :=
  fun fault hf => h fault (hx fault hf)

@[simp] theorem pure (a : α) : FaultsIn S (Pure.pure a) := fun _ h => by cases h

theorem error_iff (fault : ε) : FaultsIn S (.error fault : Except ε α) ↔ S fault :=
  ⟨fun h => h fault rfl, fun h _ hf => by cases hf; exact h⟩

@[simp] theorem throw_iff (fault : ε) :
    FaultsIn S (throw fault : Except ε α) ↔ S fault :=
  error_iff fault

@[simp] theorem bind_iff (x : Except ε α) (f : α → Except ε β) :
    FaultsIn S (x >>= f) ↔ FaultsIn S x ∧ ∀ a, x = .ok a → FaultsIn S (f a) := by
  cases x with
  | error fault =>
    rw [error_iff, show (Except.error fault >>= f) = .error fault from rfl, error_iff]
    exact ⟨fun h => ⟨h, fun _ h => by cases h⟩, fun h => h.1⟩
  | ok a => exact ⟨fun h => ⟨pure a, fun _ h' => by cases h'; exact h⟩, fun h => h.2 a rfl⟩

@[simp] theorem map_iff (f : α → β) (x : Except ε α) : FaultsIn S (f <$> x) ↔ FaultsIn S x := by
  cases x with
  | error fault => rw [error_iff, show f <$> Except.error fault = .error fault from rfl, error_iff]
  | ok a => exact ⟨fun _ => pure a, fun _ => pure (f a)⟩

@[simp] theorem ite_iff (c : Prop) [Decidable c] (x y : Except ε α) :
    FaultsIn S (if c then x else y) ↔ (c → FaultsIn S x) ∧ (¬c → FaultsIn S y) := by
  split_ifs with h <;> simp [h]

theorem mapM {f : α → Except ε β} (h : ∀ a, FaultsIn S (f a)) :
    ∀ l : List α, FaultsIn S (l.mapM f)
  | [] => by simp
  | a :: l => by simp [h a, mapM h l]

end FaultsIn

/-- Whatever a computation gives satisfies `Q`. -/
def Gives {ε : Type} (Q : α → Prop) (x : Except ε α) : Prop := ∀ a, x = .ok a → Q a

namespace Gives

variable {ε : Type} {Q : α → Prop} {R : β → Prop}

theorem pure {a : α} (h : Q a) : Gives (ε := ε) Q (Pure.pure a) := fun _ ha => by
  cases ha
  exact h

theorem throw (fault : ε) : Gives Q (throw fault : Except ε α) := fun _ ha => by cases ha

theorem bind {x : Except ε α} {f : α → Except ε β} (hx : Gives Q x)
    (hf : ∀ a, Q a → Gives R (f a)) : Gives R (x >>= f) := by
  cases x with
  | error fault => exact fun _ h => by cases h
  | ok a => exact hf a (hx a rfl)

/-- What is known of the result is not needed for what follows. -/
theorem bindAny {x : Except ε α} {f : α → Except ε β} (hf : ∀ a, Gives R (f a)) :
    Gives R (x >>= f) :=
  bind (Q := fun _ => True) (fun _ _ => trivial) fun a _ => hf a

end Gives

/-- An operation on values without the heap. -/
abbrev OfValue (x : Except Fault α) : Prop := FaultsIn Fault.OfValue x

namespace Number

@[simp] theorem ofValue_intToFloat (n : Int) : OfValue (intToFloat n) := by simp [intToFloat]

namespace Scalar

@[simp] theorem ofValue_toFloat (a : Scalar) : OfValue a.toFloat := by cases a <;> simp [toFloat]

@[simp] theorem ofValue_parts (a : Scalar) : OfValue a.parts := by cases a <;> simp [parts]

theorem ofValue_combine {onInts : Int → Int → Except Fault Scalar}
    {onFloats : Float → Float → Except Fault Scalar}
    {onComplex : Float × Float → Float × Float → Except Fault Scalar}
    (hi : ∀ m n, OfValue (onInts m n)) (hf : ∀ x y, OfValue (onFloats x y))
    (hc : ∀ a b, OfValue (onComplex a b)) (a b : Scalar) :
    OfValue (combine onInts onFloats onComplex a b) := by
  cases a <;> cases b <;> simp [combine, hi, hf, hc]

end Scalar

@[simp] theorem ofValue_complexDiv (a b : Float × Float) : OfValue (complexDiv a b) := by
  simp [complexDiv]

@[simp] theorem ofValue_complexPowPolar (a b : Float × Float) :
    OfValue (complexPowPolar a b) := by
  simp [complexPowPolar]

@[simp] theorem ofValue_complexPow (a b : Float × Float) : OfValue (complexPow a b) := by
  unfold complexPow
  split <;> simp

@[simp] theorem ofValue_floatPow (x y : Float) : OfValue (floatPow x y) := by simp [floatPow]

namespace Scalar

@[simp] theorem ofValue_add (a b : Scalar) : OfValue (a.add b) :=
  ofValue_combine (by simp) (by simp) (by simp) a b

@[simp] theorem ofValue_sub (a b : Scalar) : OfValue (a.sub b) :=
  ofValue_combine (by simp) (by simp) (by simp) a b

@[simp] theorem ofValue_mul (a b : Scalar) : OfValue (a.mul b) :=
  ofValue_combine (by simp) (by simp) (by simp) a b

@[simp] theorem ofValue_ratio (m n : Int) : OfValue (ratio m n) := by simp [ratio]

@[simp] theorem ofValue_div (a b : Scalar) : OfValue (a.div b) :=
  ofValue_combine (by simp) (by simp) (by simp) a b

@[simp] theorem ofValue_floorDiv (a b : Scalar) : OfValue (a.floorDiv b) :=
  ofValue_combine (by simp) (by simp) (by simp [noComplex]) a b

@[simp] theorem ofValue_mod (a b : Scalar) : OfValue (a.mod b) :=
  ofValue_combine (by simp) (by simp) (by simp [noComplex]) a b

@[simp] theorem ofValue_intPow (m n : Int) : OfValue (intPow m n) := by simp [intPow, natPow]

@[simp] theorem ofValue_pow (a b : Scalar) : OfValue (a.pow b) :=
  ofValue_combine (by simp) (by simp) (by simp) a b

@[simp] theorem ofValue_truncQuotient (m n : Int) : OfValue (truncQuotient m n) := by
  unfold truncQuotient
  split <;> simp

@[simp] theorem ofValue_truncDiv (a b : Scalar) : OfValue (a.truncDiv b) := by
  unfold truncDiv
  split <;> simp

@[simp] theorem ofValue_truncMod (a b : Scalar) : OfValue (a.truncMod b) := by
  unfold truncMod
  split <;> simp

@[simp] theorem ofValue_abs (a : Scalar) : OfValue a.abs := by cases a <;> simp [abs]

@[simp] theorem ofValue_roundFloat (x : Float) (places : Int) : OfValue (roundFloat x places) := by
  unfold roundFloat
  split <;> simp

@[simp] theorem ofValue_truncate (a : Scalar) : OfValue a.truncate := by
  unfold truncate
  split
  · simp
  · split <;> simp
  · simp

end Scalar

@[simp] theorem ofValue_readInt (text : List Char) : OfValue (readInt text) := by
  unfold readInt
  split <;> simp

end Number

namespace Value

@[simp] theorem ofValue_num (v : Value) : OfValue v.num := by
  unfold num
  split <;> simp

@[simp] theorem ofValue_toInt (v : Value) : OfValue v.toInt := by
  unfold toInt
  split
  · split <;> simp
  · simp

@[simp] theorem ofValue_toFloat (v : Value) : OfValue v.toFloat := by
  unfold toFloat
  split
  · split <;> simp
  · simp

end Value

section Texts

/-- A text of a value. -/
abbrev OfText (x : Except Fault α) : Prop := FaultsIn Fault.OfText x

theorem OfText.ofValue {x : Except Fault α} (h : OfText x) : OfValue x :=
  h.mono fun _ => Fault.OfText.ofValue

variable {S : Fault → Prop} (hS : S .tooManyDigits)

include hS in
theorem faultsIn_intText (n : Int) : FaultsIn S (intText n) := by
  unfold intText
  -- The bound has thousands of digits, so it must not be computed.
  generalize Nat.pow 10 maxDigits = bound
  simp [hS]

@[simp] theorem ofText_intText (n : Int) : OfText (intText n) :=
  faultsIn_intText .tooManyDigits n

@[simp] theorem ofValue_intText (n : Int) : OfValue (intText n) := (ofText_intText n).ofValue

include hS in
-- The cases hold by definition: the equations of `literal` would compute the bound of `intText`.
theorem Indented.faultsIn_literal (h : Heap) :
    ∀ (fuel : Nat) (outer : List Nat) (v : Value), FaultsIn S (Indented.literal h fuel outer v)
  | fuel, _, .int n => by
    have shown : FaultsIn S (intText n >>= fun s => pure (Text.ofString s)) := by
      simp [faultsIn_intText hS]
    cases fuel <;> exact shown
  | 0, outer, .list cell => FaultsIn.pure _
  | fuel + 1, outer, .list cell => by
    have ih := FaultsIn.mapM (Indented.faultsIn_literal h fuel (cell :: outer)) (h.items cell)
    show FaultsIn S (if outer.contains cell then _ else _)
    simp [ih]
  | fuel, _, .none | fuel, _, .unknown | fuel, _, .bool _ | fuel, _, .float _ | fuel, _, .nan _
  | fuel, _, .complex _ _ _ | fuel, _, .str _ => by cases fuel <;> exact FaultsIn.pure _

theorem Indented.ofText_literal (h : Heap) (fuel : Nat) (outer : List Nat) (v : Value) :
    OfText (Indented.literal h fuel outer v) :=
  Indented.faultsIn_literal .tooManyDigits h fuel outer v

@[simp] theorem Indented.ofText_describe (h : Heap) (v : Value) : OfText (Indented.describe h v) :=
  Indented.ofText_literal h _ _ v

@[simp] theorem Indented.ofValue_describe (h : Heap) (v : Value) :
    OfValue (Indented.describe h v) :=
  (Indented.ofText_describe h v).ofValue

@[simp] theorem Indented.ofText_display (h : Heap) (v : Value) :
    OfText (Indented.display h v) := by
  unfold Indented.display
  split <;> simp

@[simp] theorem Indented.ofValue_display (h : Heap) (v : Value) :
    OfValue (Indented.display h v) :=
  (Indented.ofText_display h v).ofValue

theorem Braced.ofText_describeIn (h : Heap) :
    ∀ (fuel : Nat) (v : Value), OfText (Braced.describeIn h fuel v)
  | 0, v => by cases v <;> simp [Braced.describeIn]
  | fuel + 1, v => by
    have ih := FaultsIn.mapM (Braced.ofText_describeIn h fuel)
    cases v <;> simp [Braced.describeIn, ih]

@[simp] theorem Braced.ofText_describe (h : Heap) (v : Value) : OfText (Braced.describe h v) :=
  Braced.ofText_describeIn h _ v

@[simp] theorem Braced.ofText_display (h : Heap) (v : Value) : OfText (Braced.display h v) := by
  unfold Braced.display
  split <;> simp

@[simp] theorem Braced.ofValue_display (h : Heap) (v : Value) : OfValue (Braced.display h v) :=
  (Braced.ofText_display h v).ofValue

end Texts

namespace Format

@[simp] theorem ofValue_missing (spec : Spec) (length : Nat) : OfValue (missing spec length) := by
  simp [missing]

@[simp] theorem ofValue_padNumber (spec : Spec) (text : List Char) :
    OfValue (padNumber spec text) := by
  simp [padNumber]

@[simp] theorem ofValue_padText (spec : Spec) (t : Text) : OfValue (padText spec t) := by
  simp [padText]

@[simp] theorem ofValue_places (spec : Spec) (default allowed : Nat) :
    OfValue (places spec default allowed) := by
  simp [places]

@[simp] theorem ofValue_integer (spec : Spec) (letter : Char) (n : Int) :
    OfValue (integer spec letter n) := by
  simp [integer]

@[simp] theorem ofValue_finite (spec : Spec) (letter : Char) (d : Number.Dyadic) :
    OfValue (finite spec letter d) := by
  simp [finite]

@[simp] theorem ofValue_float (spec : Spec) (letter : Char) (x : Float) :
    OfValue (float spec letter x) := by
  unfold float
  split <;> split <;> simp

@[simp] theorem ofValue_text (spec : Spec) (t : Text) : OfValue (text spec t) :=
  ofValue_padText spec _

@[simp] theorem ofValue_codePoint (v : Value) : OfValue (codePoint v) := by
  unfold codePoint
  split
  · simp
  · split <;> simp

@[simp] theorem ofValue_conversion (h : Heap) (spec : Spec) (letter : Char) (v : Value) :
    OfValue (conversion h spec letter v) := by
  unfold conversion
  split_ifs
  · simp
  · simp
  · simp
  · simp
  · split <;> simp
  · simp
  · simp
  · simp

@[simp] theorem ofValue_take (s : Supply) : OfValue s.take := by simp [Supply.take]

@[simp] theorem ofValue_measure (limit : Nat) (supply : Supply) (rest : Text) :
    OfValue (measure limit supply rest) := by
  unfold measure
  split_ifs
  · refine (FaultsIn.bind_iff _ _).2 ⟨ofValue_take supply, fun taken _ => ?_⟩
    dsimp only
    split <;> simp
  · dsimp only
    split_ifs
    · simp
    · split <;> simp

@[simp] theorem ofValue_spec (supply : Supply) (rest : Text) : OfValue (spec supply rest) := by
  simp [spec]

theorem ofValue_fill (h : Heap) (isList : Bool) :
    ∀ (fuel : Nat) (before : List Text) (supply : Supply) (t : Text),
      OfValue (fill h isList fuel before supply t)
  | 0, _, _, _ => by simp [fill]
  | fuel + 1, before, supply, t => by
    have ih := ofValue_fill h isList fuel
    unfold fill
    dsimp only
    split
    · simp
    · split_ifs
      · exact ih _ _ _
      · refine (FaultsIn.bind_iff _ _).2 ⟨ofValue_spec _ _, fun read _ => ?_⟩
        split
        · split <;> simp [ih]
        · simp

@[simp] theorem ofValue_percent (h : Heap) (format : Text) (v : Value) :
    OfValue (percent h format v) :=
  ofValue_fill h _ _ _ _ _

end Format

namespace Printf

@[simp] theorem ofValue_convert (h : Heap) (conv : Conversion) (v : Value) :
    OfValue (convert h conv v) := by
  unfold convert
  dsimp only
  split_ifs
  · simp [write]
  · simp [write]
  · simp [write]
  · split
    · split <;> simp
    · simp
  · simp [write]

/-- What a conversion cannot write is displayed, so only the faults of texts are left. -/
@[simp] theorem ofText_substitute (h : Heap) (conv : Conversion) (v : Value) :
    OfText (substitute h conv v) := by
  have converted := ofValue_convert h conv v
  unfold substitute
  split
  · simp
  · rename_i fault hf
    have : fault.OfValue := converted fault hf
    cases this <;> simp [Fault.isRecoverable]

theorem ofText_fill (h : Heap) : ∀ (before : List Text) (pieces : List Piece) (args : List Value),
    OfText (fill h before pieces args)
  | _, [], _ => by simp [fill]
  | before, .text t :: rest, args => by
    rw [fill]
    exact ofText_fill h _ rest args
  | before, .conversion conv :: rest, args => by
    have ih := fun before => ofText_fill h before rest
    simp [fill, ih]

@[simp] theorem ofText_format (h : Heap) (fmt : Value) (args : List Value) :
    OfText (format h fmt args) := by
  simp [format, ofText_fill]

end Printf

namespace Heap

section Equality

variable {eq : Value → Value → Except Fault Bool} (heq : ∀ v w, OfValue (eq v w))
include heq

theorem ofValue_equalItems : ∀ vs ws : List Value, OfValue (equalItems eq vs ws)
  | [], _ => by simp [equalItems]
  | _ :: _, [] => by simp [equalItems]
  | v :: vs, w :: ws => by simp [equalItems, heq, ofValue_equalItems vs ws]

end Equality

variable (h : Heap)

theorem ofValue_equal (fuel : Nat) (v w : Value) : OfValue (h.equal fuel v w) := by
  induction fuel generalizing v w with
  | zero =>
    unfold Heap.equal
    split
    case h_6 => split <;> simp
    all_goals simp_all
  | succ fuel ih =>
    unfold Heap.equal
    split
    case h_5 inner r s hfuel =>
      obtain rfl : fuel = inner := by omega
      simp [ofValue_equalItems ih]
    case h_6 => split <;> simp
    all_goals simp

@[simp] theorem ofValue_eq (v w : Value) : OfValue (h.eq v w) := ofValue_equal h _ v w

@[simp] theorem ofValue_eqItem (v w : Value) : OfValue (h.eqItem v w) := by simp [eqItem]

@[simp] theorem ofValue_firstDifference :
    ∀ vs ws : List Value, OfValue (h.firstDifference vs ws)
  | [], [] => by simp [firstDifference]
  | [], _ :: _ => by simp [firstDifference]
  | _ :: _, [] => by simp [firstDifference]
  | v :: vs, w :: ws => by simp [firstDifference, ofValue_firstDifference vs ws]

theorem ofValue_orderedWith (op : BinaryOp) (fuel : Nat) (v w : Value) :
    OfValue (h.orderedWith op fuel v w) := by
  fun_induction Heap.orderedWith h op fuel v w with
  | case2 r s fuel ih =>
    rw [OfValue, FaultsIn.bind_iff]
    refine ⟨ofValue_firstDifference h _ _, fun difference _ => ?_⟩
    split
    · exact ih _ _
    · simp
  | _ => simp

@[simp] theorem ofValue_ordered (op : BinaryOp) (v w : Value) : OfValue (h.ordered op v w) :=
  ofValue_orderedWith h op _ v w

@[simp] theorem ofValue_position? (item : Value) : ∀ (position : Nat) (items : List Value),
    OfValue (h.position? item position items)
  | _, [] => by simp [position?]
  | position, v :: rest => by simp [position?, ofValue_position? item (position + 1) rest]

@[simp] theorem ofValue_countItem (item : Value) : ∀ items : List Value,
    OfValue (h.countItem item items)
  | [] => by simp [countItem]
  | v :: rest => by simp [countItem, ofValue_countItem item rest]

end Heap

end Stepwise
