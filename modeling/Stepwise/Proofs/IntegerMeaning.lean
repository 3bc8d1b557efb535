import Mathlib.Algebra.Order.Group.Unbundled.Int
import Stepwise.Proofs.AssignmentTargets

/-!
# Integer expressions of the braced dialect

The integers of the braced dialect have no bound, and are divided toward zero. What an expression
over integers means is said here by rules: `Means` gives its value, and `DividesByZero` says that a
division by zero is reached, which one in an operand that is skipped is not. Quotient and remainder
are described by what they satisfy (`Truncates`), and the quotient that is computed from sizes and
signs is the one described (`truncQuotient_eq`). Every such expression has a value or divides by
zero, and evaluating it gives just that and changes nothing (`evaluate_integral`).
-/

namespace Stepwise

open Number Run

/-! ### The reference -/

/-- Quotient and remainder of a division toward zero: the remainder is smaller than the divisor, and
zero or of the sign of the dividend. -/
structure Truncates (a b q r : Int) : Prop where
  sum : a = b * q + r
  small : r.natAbs < b.natAbs
  sign : r = 0 ∨ r.sign = a.sign

/-- The function that an operator of arithmetic stands for, where it is defined everywhere. -/
def BinaryOp.function? : BinaryOp → Option (Int → Int → Int)
  | .add => some (· + ·)
  | .sub => some (· - ·)
  | .mul => some (· * ·)
  | _ => none

/-- The relation that a comparison stands for. -/
def BinaryOp.relation? : BinaryOp → Option (Int → Int → Bool)
  | .eq => some (· == ·)
  | .ne => some (· != ·)
  | .lt => some fun x y => x < y
  | .gt => some fun x y => y < x
  | .le => some fun x y => x ≤ y
  | .ge => some fun x y => y ≤ x
  | _ => none

/-- A truth value as an integer. -/
def bit (b : Bool) : Int := if b then 1 else 0

/-- Expressions over integer literals and variables that hold integers. -/
inductive Integral (scope : Scope) : Expr → Prop
  | int (n : Int) : Integral scope (.lit (.int n))
  | var {name : String} {n : Int} : scope.get? name = some (.int n) → Integral scope (.var name)
  | unary {op : UnaryOp} {e : Expr} : op ∈ [.neg, .pos, .bang] → Integral scope e →
      Integral scope (.unary op e)
  | binary {op : BinaryOp} {a b : Expr} : op ∈ BinaryOp.symbolic .braced → Integral scope a →
      Integral scope b → Integral scope (.binary op a b)

/-- The value of an expression over integers. -/
inductive Means (scope : Scope) : Expr → Int → Prop
  | int (n : Int) : Means scope (.lit (.int n)) n
  | var {name : String} {n : Int} : scope.get? name = some (.int n) → Means scope (.var name) n
  | neg {e : Expr} {x : Int} : Means scope e x → Means scope (.unary .neg e) (-x)
  | pos {e : Expr} {x : Int} : Means scope e x → Means scope (.unary .pos e) x
  | bang {e : Expr} {x : Int} : Means scope e x → Means scope (.unary .bang e) (bit (x == 0))
  | function {op : BinaryOp} {f : Int → Int → Int} {a b : Expr} {x y : Int} :
      op.function? = some f → Means scope a x → Means scope b y →
        Means scope (.binary op a b) (f x y)
  | relation {op : BinaryOp} {r : Int → Int → Bool} {a b : Expr} {x y : Int} :
      op.relation? = some r → Means scope a x → Means scope b y →
        Means scope (.binary op a b) (bit (r x y))
  | div {a b : Expr} {x y q r : Int} : Means scope a x → Means scope b y → Truncates x y q r →
      Means scope (.binary .div a b) q
  | mod {a b : Expr} {x y q r : Int} : Means scope a x → Means scope b y → Truncates x y q r →
      Means scope (.binary .mod a b) r
  /-- The right operand is skipped, whatever it is. -/
  | andSkips {a b : Expr} : Means scope a 0 → Means scope (.binary .logicalAnd a b) 0
  | andGoesOn {a b : Expr} {x y : Int} : Means scope a x → x ≠ 0 → Means scope b y →
      Means scope (.binary .logicalAnd a b) (bit (y != 0))
  | orSkips {a b : Expr} {x : Int} : Means scope a x → x ≠ 0 →
      Means scope (.binary .logicalOr a b) 1
  | orGoesOn {a b : Expr} {y : Int} : Means scope a 0 → Means scope b y →
      Means scope (.binary .logicalOr a b) (bit (y != 0))

/-- A division or remainder by zero is reached. -/
inductive DividesByZero (scope : Scope) : Expr → Prop
  | zero {op : BinaryOp} {a b : Expr} {x : Int} : op = .div ∨ op = .mod → Means scope a x →
      Means scope b 0 → DividesByZero scope (.binary op a b)
  | unary {op : UnaryOp} {e : Expr} : DividesByZero scope e → DividesByZero scope (.unary op e)
  | left {op : BinaryOp} {a b : Expr} : DividesByZero scope a →
      DividesByZero scope (.binary op a b)
  | right {op : BinaryOp} {a b : Expr} {x : Int} : op ∈ BinaryOp.applicable .braced →
      Means scope a x → DividesByZero scope b → DividesByZero scope (.binary op a b)
  | andGoesOn {a b : Expr} {x : Int} : Means scope a x → x ≠ 0 → DividesByZero scope b →
      DividesByZero scope (.binary .logicalAnd a b)
  | orGoesOn {a b : Expr} : Means scope a 0 → DividesByZero scope b →
      DividesByZero scope (.binary .logicalOr a b)

/-! ### Division toward zero -/

namespace Truncates

variable {a b q r : Int}

theorem sign_iff : (r = 0 ∨ r.sign = a.sign) ↔ (0 ≤ a → 0 ≤ r) ∧ (a ≤ 0 → r ≤ 0) := by
  rcases Int.lt_trichotomy a 0 with ha | rfl | ha <;>
    rcases Int.lt_trichotomy r 0 with hr | rfl | hr <;>
    simp [Int.sign_eq_one_of_pos, Int.sign_eq_neg_one_of_neg, Int.le_of_lt, Int.ne_of_lt,
      Int.ne_of_gt, *]

theorem tdiv_tmod (a : Int) (hb : b ≠ 0) : Truncates a b (a.tdiv b) (a.tmod b) where
  sum := (Int.mul_tdiv_add_tmod a b).symm
  small := by
    rw [Int.natAbs_tmod]
    exact Nat.mod_lt _ (Int.natAbs_pos.2 hb)
  sign := by
    refine sign_iff.2 ⟨Int.tmod_nonneg b, fun ha => ?_⟩
    have hneg := Int.tmod_nonneg b (Int.neg_nonneg_of_nonpos ha)
    rw [Int.neg_tmod] at hneg
    omega

/-- The divisor is not zero, and the quotient and the remainder are determined. -/
theorem eq (h : Truncates a b q r) : b ≠ 0 ∧ q = a.tdiv b ∧ r = a.tmod b := by
  have hb : b ≠ 0 := by
    rintro rfl
    exact Nat.not_lt_zero _ h.small
  have h' := tdiv_tmod a hb
  have hdvd : a.tmod b - r = b * (q - a.tdiv b) := by
    have := h.sum.symm.trans h'.sum
    rw [Int.mul_sub]
    omega
  -- Both remainders are on the side of the dividend, so that they differ by less than the divisor.
  have hrem : a.tmod b - r = 0 := by
    refine Int.eq_zero_of_dvd_of_natAbs_lt_natAbs ⟨_, hdvd⟩ ?_
    have hsmall := h.small
    have hsmall' := h'.small
    have hsign := sign_iff.1 h.sign
    have hsign' := sign_iff.1 h'.sign
    omega
  rw [hrem] at hdvd
  have hquot := (Int.mul_eq_zero.1 hdvd.symm).resolve_left hb
  exact ⟨hb, by omega, by omega⟩

end Truncates

/-! ### What the operators do with integers -/

namespace Operator

variable {op : BinaryOp} {f : Int → Int → Int} {r : Int → Int → Bool}

theorem apply_function {dialect : Dialect} (hop : op.function? = some f) (x y : Int) (h : Heap) :
    (apply dialect op (.int x) (.int y)).run.run h = (.ok (.int (f x y)), h) := by
  cases op <;> cases hop <;> rfl

theorem compares_int (hop : op.relation? = some r) (x y : Int) (h : Heap) :
    compares h op (.int x) (.int y) = .ok (r x y) := by
  have hlt := compare_lt_iff_lt (a := x) (b := y)
  have hgt := compare_gt_iff_gt (a := x) (b := y)
  have heq := compare_eq_iff_eq (a := x) (b := y)
  cases op <;> cases hop <;> refine congrArg Except.ok ?_
  case eq => show (some (compare x y) == some .eq) = (x == y); grind
  case ne => show (!(some (compare x y) == some .eq)) = (x != y); grind
  case lt => show (compare x y == .lt) = decide (x < y); grind
  case gt => show (compare x y == .gt) = decide (y < x); grind
  case le => show (compare x y != .gt) = decide (x ≤ y); grind
  case ge => show (compare x y != .lt) = decide (y ≤ x); grind

theorem apply_relation (hop : op.relation? = some r) (x y : Int) (h : Heap) :
    (apply .braced op (.int x) (.int y)).run.run h = (.ok (.int (bit (r x y))), h) := by
  have hc := compares_int hop x y h
  have happly : (apply .braced op (.int x) (.int y)).run.run h =
      ((compares h op (.int x) (.int y)).map (truth .braced), h) := by
    cases op <;> cases hop <;> rfl
  rw [happly, hc]
  rfl

theorem numeric_int {act : Scalar → Scalar → Except Fault Scalar} {x y z : Int}
    (hact : act (.int x) (.int y) = .ok (.int z)) (h : Heap) :
    (numeric act (.int x) (.int y)).run.run h = (.ok (.int z), h) := by
  show ((ofExcept (act (.int x) (.int y)) : HeapM Scalar) >>= fun a =>
    HeapM.identify (.ofNum a)).run.run h = _
  rw [hact]
  rfl

/-- The quotient of the sizes with the sign of the two numbers is the quotient toward zero. -/
theorem truncQuotient_eq (m : Int) {n : Int} (hn : n ≠ 0) :
    Scalar.truncQuotient m n = .ok (m.tdiv n) := by
  -- The sizes agree in every case, so only the sign is left to compare.
  have hsize : m.natAbs / n.natAbs = (m.tdiv n).natAbs := (Int.natAbs_tdiv m n).symm
  rw [Scalar.truncQuotient, if_neg (by simpa using hn), hsize]
  refine congrArg Except.ok ?_
  simp only [beq_iff_eq, decide_eq_decide]
  rcases lt_or_ge m 0 with hm | hm <;> rcases lt_or_ge n 0 with hneg | hpos
  · have hsign : 0 ≤ m.tdiv n :=
      Int.tdiv_nonneg_of_nonpos_of_nonpos (Int.le_of_lt hm) (Int.le_of_lt hneg)
    rw [if_pos (by omega), Int.natAbs_of_nonneg hsign]
  · have hsign : m.tdiv n ≤ 0 := by
      rw [← Int.neg_tdiv_neg]
      exact Int.tdiv_nonpos_of_nonneg_of_nonpos (by omega) (by omega)
    rw [if_neg (by omega), Int.ofNat_natAbs_of_nonpos hsign, Int.neg_neg]
  · have hsign : m.tdiv n ≤ 0 := Int.tdiv_nonpos_of_nonneg_of_nonpos hm (Int.le_of_lt hneg)
    rw [if_neg (by omega), Int.ofNat_natAbs_of_nonpos hsign, Int.neg_neg]
  · have hsign : 0 ≤ m.tdiv n := Int.tdiv_nonneg hm hpos
    rw [if_pos (by omega), Int.natAbs_of_nonneg hsign]

theorem apply_div (x : Int) {y : Int} (hy : y ≠ 0) (h : Heap) :
    (apply .braced .div (.int x) (.int y)).run.run h = (.ok (.int (x.tdiv y)), h) := by
  refine numeric_int ?_ h
  rw [Scalar.truncDiv, truncQuotient_eq x hy]
  rfl

theorem apply_mod (x : Int) {y : Int} (hy : y ≠ 0) (h : Heap) :
    (apply .braced .mod (.int x) (.int y)).run.run h = (.ok (.int (x.tmod y)), h) := by
  refine numeric_int ?_ h
  rw [Scalar.truncMod, truncQuotient_eq x hy, Int.tmod_def]
  rfl

theorem apply_zero (hop : op = .div ∨ op = .mod) (x : Int) (h : Heap) :
    (apply .braced op (.int x) (.int 0)).run.run h = (.error .undefined, h) := by
  rcases hop with rfl | rfl <;> rfl

end Operator

/-! ### Evaluation -/

/-- A computation inside an expression that is undefined, and changes nothing. -/
def Faults {α : Type} (x : EvalM α) (m : Machine) : Prop :=
  ∀ calls : Int, (x.run calls).outcome m = (.error .undefined, m)

namespace Faults

variable {α β : Type} {m : Machine} {x : EvalM α} {a : α}

theorem bind (hx : Faults x m) (f : α → EvalM β) : Faults (x >>= f) m := fun calls => by
  rw [StateT.run_bind, outcome_bind_error (hx calls)]

theorem after {f : α → EvalM β} (hx : Yields x a m) (hf : Faults (f a) m) :
    Faults (x >>= f) m := fun calls => by
  rw [StateT.run_bind, outcome_bind_ok (hx calls)]
  exact hf calls

theorem lift {x : Run α} (hx : x.outcome m = (.error .undefined, m)) :
    Faults (liftM x : EvalM α) m := fun calls => by
  show (x >>= fun a => pure (a, calls)).outcome m = _
  rw [outcome_bind_error hx]

end Faults

section Evaluation

variable {host : Host} {scope : Scope} {m : Machine}

theorem Yields.evaluate {e : Expr} {v : Value} (h : Yields (Eval.eval host scope e) v m) :
    (host.evaluate scope e).outcome m = (.ok v, m) :=
  Host.evaluate_of_run _ (h _)

theorem Faults.evaluate {e : Expr} (h : Faults (Eval.eval host scope e) m) :
    (host.evaluate scope e).outcome m = (.ok .unknown, m) := by
  rw [Host.evaluate, outcome_recover, StateT.run'_eq, map_eq_pure_bind, outcome_bind_error (h _)]
  rfl

theorem eval_applicable {op : BinaryOp} (hop : op ∈ BinaryOp.applicable .braced) (a b : Expr) :
    Eval.eval host scope (.binary op a b) = (do
      let v ← Eval.eval host scope a
      let w ← Eval.eval host scope b
      Run.onHeap (Operator.apply host.dialect op v w)) := by
  rw [Eval.eval]
  cases op <;> first | rfl | exact absurd hop (by decide)

theorem yields_applicable {op : BinaryOp} (hop : op ∈ BinaryOp.applicable .braced) {a b : Expr}
    {v w r : Value} (ha : Yields (Eval.eval host scope a) v m)
    (hb : Yields (Eval.eval host scope b) w m)
    (happly : ∀ h, (Operator.apply host.dialect op v w).run.run h = (.ok r, h)) :
    Yields (Eval.eval host scope (.binary op a b)) r m := by
  rw [eval_applicable hop]
  refine ha.bind (hb.bind (.lift ?_))
  rw [outcome_onHeap, happly]

theorem yields_unary {op : UnaryOp} {e : Expr} {v r : Value}
    (he : Yields (Eval.eval host scope e) v m)
    (happly : ∀ h, (Operator.applyUnary op v).run.run h = (.ok r, h)) :
    Yields (Eval.eval host scope (.unary op e)) r m := by
  rw [Eval.eval]
  refine he.bind (.lift ?_)
  rw [outcome_onHeap, happly]

theorem yields_isTrue (x : Int) : Yields (liftM (Run.isTrue (.int x)) : EvalM Bool) (x != 0) m :=
  .lift (outcome_isTrue _ _)

theorem mem_applicable_of_function {dialect : Dialect} {op : BinaryOp} {f : Int → Int → Int}
    (hop : op.function? = some f) : op ∈ BinaryOp.applicable dialect := by
  cases dialect <;> cases op <;> first | cases hop; done | decide

theorem mem_applicable_of_relation {op : BinaryOp} {r : Int → Int → Bool}
    (hop : op.relation? = some r) : op ∈ BinaryOp.applicable .braced := by
  cases op <;> first | cases hop; done | decide

/-- Evaluation follows the rules of the values. -/
theorem Means.yields (hd : host.dialect = .braced) {e : Expr} {n : Int} (h : Means scope e n) :
    Yields (Eval.eval host scope e) (.int n) m := by
  induction h with
  | int n =>
    rw [Eval.eval]
    exact .value _
  | var hname =>
    rw [Eval.eval]
    refine .lift ?_
    rw [Eval.lookup, hname]
    rfl
  | neg _ ih => exact yields_unary ih fun _ => rfl
  | pos _ ih => exact yields_unary ih fun _ => rfl
  | @bang e x _ ih =>
    refine yields_unary ih fun h => ?_
    show (Except.ok (Value.int (if (x != 0) = true then 0 else 1)), h) = _
    rw [bit, bne]
    cases x == 0 <;> rfl
  | function hop _ _ iha ihb =>
    refine yields_applicable (mem_applicable_of_function hop) iha ihb fun h => ?_
    rw [hd, Operator.apply_function hop]
  | relation hop _ _ iha ihb =>
    refine yields_applicable (mem_applicable_of_relation hop) iha ihb fun h => ?_
    rw [hd, Operator.apply_relation hop]
  | div _ _ htrunc iha ihb =>
    obtain ⟨hy, rfl, -⟩ := htrunc.eq
    refine yields_applicable (by decide) iha ihb fun h => ?_
    rw [hd, Operator.apply_div _ hy]
  | mod _ _ htrunc iha ihb =>
    obtain ⟨hy, -, rfl⟩ := htrunc.eq
    refine yields_applicable (by decide) iha ihb fun h => ?_
    rw [hd, Operator.apply_mod _ hy]
  | andSkips _ ih =>
    rw [Eval.eval]
    exact ih.bind ((yields_isTrue 0).bind (.value _))
  | @andGoesOn a b x y _ hx _ iha ihb =>
    rw [Eval.eval]
    refine iha.bind ((yields_isTrue x).bind ?_)
    rw [if_pos (by simpa using hx)]
    exact ihb.bind ((yields_isTrue y).bind (.value _))
  | @orSkips a b x _ hx ih =>
    rw [Eval.eval]
    refine ih.bind ((yields_isTrue x).bind ?_)
    rw [if_pos (by simpa using hx)]
    exact .value _
  | @orGoesOn a b y _ _ iha ihb =>
    rw [Eval.eval]
    exact iha.bind ((yields_isTrue 0).bind (ihb.bind ((yields_isTrue y).bind (.value _))))

/-- Evaluation follows the rules of the divisions by zero. -/
theorem DividesByZero.faults (hd : host.dialect = .braced) {e : Expr} (h : DividesByZero scope e) :
    Faults (Eval.eval host scope e) m := by
  induction h with
  | @zero op a b x hop ha hb =>
    rw [eval_applicable (by rcases hop with rfl | rfl <;> decide)]
    refine .after (ha.yields hd) (.after (hb.yields hd) (.lift ?_))
    rw [outcome_onHeap, hd, Operator.apply_zero hop]
  | unary _ ih =>
    rw [Eval.eval]
    exact ih.bind _
  | left _ ih =>
    rw [Eval.eval]
    exact ih.bind _
  | right hop ha _ ih =>
    rw [eval_applicable hop]
    exact .after (ha.yields hd) (ih.bind _)
  | @andGoesOn a b x ha hx _ ih =>
    rw [Eval.eval]
    refine .after (ha.yields hd) (.after (yields_isTrue x) ?_)
    rw [if_pos (by simpa using hx)]
    exact ih.bind _
  | orGoesOn ha _ ih =>
    rw [Eval.eval]
    exact .after (ha.yields hd) (.after (yields_isTrue 0) (ih.bind _))

end Evaluation

/-! ### Every expression over integers has a meaning -/

section Meaning

variable {scope : Scope} {op : BinaryOp} {a b e : Expr} {x y : Int}

theorem BinaryOp.applicable_cases (hop : op ∈ applicable .braced) :
    (∃ f, op.function? = some f) ∨ (∃ r, op.relation? = some r) ∨ op = .div ∨ op = .mod := by
  simp only [← Option.isSome_iff_exists]
  revert hop
  cases op <;> decide

theorem BinaryOp.symbolic_cases (hop : op ∈ symbolic .braced) :
    op = .logicalAnd ∨ op = .logicalOr ∨ op ∈ applicable .braced := by
  revert hop
  cases op <;> decide

theorem Means.applicable (ha : Means scope a x) (hb : Means scope b y)
    (hop : op ∈ BinaryOp.applicable .braced) :
    (∃ n, Means scope (.binary op a b) n) ∨ DividesByZero scope (.binary op a b) := by
  obtain ⟨f, hf⟩ | ⟨r, hr⟩ | hdiv := BinaryOp.applicable_cases hop
  · exact .inl ⟨_, .function hf ha hb⟩
  · exact .inl ⟨_, .relation hr ha hb⟩
  · by_cases hy : y = 0
    · subst hy
      exact .inr (.zero hdiv ha hb)
    · have htrunc := Truncates.tdiv_tmod x hy
      rcases hdiv with rfl | rfl
      · exact .inl ⟨_, .div ha hb htrunc⟩
      · exact .inl ⟨_, .mod ha hb htrunc⟩

/-- An integer expression has a value, or divides by zero. -/
theorem Integral.means_or_dividesByZero (h : Integral scope e) :
    (∃ n, Means scope e n) ∨ DividesByZero scope e := by
  induction h with
  | int n => exact .inl ⟨n, .int n⟩
  | var hname => exact .inl ⟨_, .var hname⟩
  | @unary op e hop _ ih =>
    rcases ih with ⟨x, hx⟩ | hzero
    · refine .inl ?_
      cases op with
      | neg => exact ⟨_, hx.neg⟩
      | pos => exact ⟨_, hx.pos⟩
      | bang => exact ⟨_, hx.bang⟩
      | not => exact absurd hop (by decide)
    · exact .inr hzero.unary
  | @binary op a b hop _ _ iha ihb =>
    rcases iha with ⟨x, ha⟩ | hzero
    · obtain rfl | rfl | hop := BinaryOp.symbolic_cases hop
      -- The left operand decides before the right one is looked at.
      · by_cases hx : x = 0
        · subst hx
          exact .inl ⟨_, .andSkips ha⟩
        · exact ihb.imp (fun ⟨_, hb⟩ => ⟨_, .andGoesOn ha hx hb⟩) (.andGoesOn ha hx)
      · by_cases hx : x = 0
        · subst hx
          exact ihb.imp (fun ⟨_, hb⟩ => ⟨_, .orGoesOn ha hb⟩) (.orGoesOn ha)
        · exact .inl ⟨_, .orSkips ha hx⟩
      · rcases ihb with ⟨y, hb⟩ | hzero
        · exact ha.applicable hb hop
        · exact .inr (.right hop ha hzero)
    · exact .inr hzero.left

end Meaning

/-- In the braced dialect an expression over integers evaluates to its value; it is unknown exactly
if it divides by zero; one of the two is the case, and nothing changes. -/
theorem evaluate_integral {host : Host} {scope : Scope} {e : Expr} (hd : host.dialect = .braced)
    (he : Integral scope e) (m : Machine) :
    ((host.evaluate scope e).outcome m).2 = m ∧
      (∀ n, ((host.evaluate scope e).outcome m).1 = .ok (.int n) ↔ Means scope e n) ∧
      (((host.evaluate scope e).outcome m).1 = .ok .unknown ↔ DividesByZero scope e) ∧
      ((∃ n, Means scope e n) ∨ DividesByZero scope e) := by
  have hvalue : ∀ {n}, Means scope e n →
      (host.evaluate scope e).outcome m = (.ok (.int n), m) := fun hn => (hn.yields hd).evaluate
  have hunknown : DividesByZero scope e →
      (host.evaluate scope e).outcome m = (.ok .unknown, m) := fun hn => (hn.faults hd).evaluate
  have htotal := he.means_or_dividesByZero
  refine ⟨?_, fun n => ⟨fun hn => ?_, fun hn => ?_⟩, ⟨fun hn => ?_, fun hn => ?_⟩, htotal⟩
  · rcases htotal with ⟨n, hn⟩ | hn
    · rw [hvalue hn]
    · rw [hunknown hn]
  · rcases htotal with ⟨k, hk⟩ | hk
    · rw [hvalue hk] at hn
      cases hn
      exact hk
    · rw [hunknown hk] at hn
      cases hn
  · rw [hvalue hn]
  · rcases htotal with ⟨k, hk⟩ | hk
    · rw [hvalue hk] at hn
      cases hn
    · exact hk
  · rw [hunknown hn]

/-- A variable with a negative value. -/
def negativeScope : Scope := Table.ofList [("x", .int (-8))]

/-- `-7 / 2 * (x % 3 || 1 / 0)` -/
def skippedDivision : Expr :=
  .binary .mul (.binary .div (.unary .neg (.lit (.int 7))) (.lit (.int 2)))
    (.binary .logicalOr (.binary .mod (.var "x") (.lit (.int 3)))
      (.binary .div (.lit (.int 1)) (.lit (.int 0))))

/-- `x + 8 || 5 % (x + 8)` -/
def reachedDivision : Expr :=
  let sum : Expr := .binary .add (.var "x") (.lit (.int 8))
  .binary .logicalOr sum (.binary .mod (.lit (.int 5)) sum)

/-- A remainder of a negative number beside a division that is skipped, and one that is not. -/
theorem evaluate_integral_divisions :
    (Means negativeScope skippedDivision (-3) ∧ ¬ DividesByZero negativeScope skippedDivision) ∧
    DividesByZero negativeScope reachedDivision := by
  have hx : Integral negativeScope (.var "x") := .var (n := -8) rfl
  have hskipped : Integral negativeScope skippedDivision :=
    .binary (by decide) (.binary (by decide) (.unary (by decide) (.int 7)) (.int 2))
      (.binary (by decide) (.binary (by decide) hx (.int 3))
        (.binary (by decide) (.int 1) (.int 0)))
  have hsum : Integral negativeScope (.binary .add (.var "x") (.lit (.int 8))) :=
    .binary (by decide) hx (.int 8)
  have hreached : Integral negativeScope reachedDivision :=
    .binary (by decide) hsum (.binary (by decide) (.int 5) hsum)
  have hd : (lonelyHost .braced).dialect = .braced := rfl
  obtain ⟨-, hvalue, hunknown, -⟩ := evaluate_integral hd hskipped {}
  obtain ⟨-, -, hunknown', -⟩ := evaluate_integral hd hreached {}
  refine ⟨⟨(hvalue _).1 rfl, fun h => ?_⟩, hunknown'.1 rfl⟩
  cases hunknown.2 h

end Stepwise
