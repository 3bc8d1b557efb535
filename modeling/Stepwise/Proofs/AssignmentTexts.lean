import Stepwise.Proofs.ClosedRuns
import Stepwise.Proofs.TopLevel

/-!
# Texts of assignments and comparisons

An assignment is found again in its text, whatever its value holds, because the scan meets no equals
sign in the target and stops at the sign of the operator. Texts with comparisons between them are no
assignment: the scan passes each equals sign of a comparison, or ends there
(`split?_written`).
-/

namespace Stepwise.Source

open Text

namespace Assignment

/-- The text of an assignment. -/
def written (a : Assignment) : List Char :=
  a.target ++ ' ' :: ((opSymbol a.op).toList ++ ' ' :: a.value)

/-- The operators that an assignment can have. -/
def assignable : List (Option BinaryOp) := none :: operators.map some

example : assignable.map opSymbol = ["=", "+=", "-=", "*=", "/=", "%=", "//=", "**="] := rfl

/-- An assignment whose text shows where its target ends. -/
structure Writable (a : Assignment) : Prop where
  target : a.target ≠ []
  value : a.value ≠ []
  trimmed : trim a.target = a.target ∧ trim a.value = a.value
  neutral : Neutral a.target
  unmet : ¬ Meets .start '=' a.target
  op : a.op ∈ assignable

/-- The comparisons that are written with signs. -/
def comparisons : List BinaryOp := [.eq, .ne, .le, .ge, .lt, .gt]

example : comparisons.map BinaryOp.symbol = ["==", "!=", "<=", ">=", "<", ">"] := rfl

/-- Texts with comparisons between them. -/
def compared (first : List Char) (others : List (BinaryOp × List Char)) : List Char :=
  first ++ others.flatMap fun other => ' ' :: (other.1.symbol.toList ++ ' ' :: other.2)

variable {s : Nesting} {text rest : List Char}

/-- A scan that meets no equals sign takes over the text. -/
theorem splitFrom_append_of_not_meets (h : ¬ Meets s '=' text) (front : List Char) :
    splitFrom s front (text ++ rest) =
      splitFrom (text.foldl Nesting.next s) (text.reverse ++ front) rest := by
  induction text generalizing s front with
  | nil => rfl
  | cons c text ih =>
    rw [meets_cons, not_or] at h
    have hc : ¬ (s.atTop c && c == '=') = true := by
      rw [Bool.and_eq_true, beq_iff_eq]
      rintro ⟨htop, rfl⟩
      exact h.1 ⟨rfl, htop⟩
    rw [List.cons_append, splitFrom, if_neg hc, ih h.2]
    simp

/-- The scan stops at the sign of an operator with blanks around it. -/
theorem splitFrom_operator {op : Option BinaryOp} (h : op ∈ assignable) (front value : List Char) :
    splitFrom .start front (' ' :: ((opSymbol op).toList ++ ' ' :: value)) =
      if (trim (' ' :: front).reverse).isEmpty || (trim (' ' :: value)).isEmpty then none
      else some ⟨trim (' ' :: front).reverse, op, trim (' ' :: value)⟩ := by
  simp only [assignable, operators, List.map_cons, List.map_nil, List.mem_cons, List.not_mem_nil,
    or_false] at h
  rcases h with rfl | rfl | rfl | rfl | rfl | rfl | rfl | rfl <;> rfl

theorem Writable.split?_eq {a : Assignment} (h : Writable a) : split? a.written = some a := by
  have htarget : trim (' ' :: (a.target.reverse ++ [])).reverse = a.target := by
    rw [List.append_nil, List.reverse_cons, List.reverse_reverse, trim_concat_blank rfl, h.trimmed.1]
  have hvalue : trim (' ' :: a.value) = a.value := by
    rw [trim_cons_blank rfl, h.trimmed.2]
  rw [split?, written, splitFrom_append_of_not_meets h.unmet, h.neutral, splitFrom_operator h.op,
    htarget, hvalue, List.isEmpty_eq_false_iff.2 h.target, List.isEmpty_eq_false_iff.2 h.value]
  rfl

/-- The scan passes a comparison with blanks around it, or ends there. -/
theorem splitFrom_comparison {op : BinaryOp} (h : op ∈ comparisons) (front rest : List Char) :
    splitFrom .start front (' ' :: (op.symbol.toList ++ ' ' :: rest)) = none ∨
      ∃ front', splitFrom .start front (' ' :: (op.symbol.toList ++ ' ' :: rest)) =
        splitFrom .start front' rest := by
  simp only [comparisons, List.mem_cons, List.not_mem_nil, or_false] at h
  rcases h with rfl | rfl | rfl | rfl | rfl | rfl
  · exact .inl rfl
  all_goals exact .inr ⟨_, rfl⟩

/-- No assignment is found in texts with comparisons between them, wherever the scan comes from. -/
theorem splitFrom_compared : ∀ {first : List Char} {others : List (BinaryOp × List Char)},
    (∀ t ∈ first :: others.map Prod.snd, Neutral t ∧ ¬ Meets .start '=' t) →
    (∀ op ∈ others.map Prod.fst, op ∈ comparisons) → ∀ front,
      splitFrom .start front (compared first others) = none
  | first, [], h, _, front => by
    obtain ⟨-, hunmet⟩ := h first List.mem_cons_self
    rw [compared, splitFrom_append_of_not_meets hunmet]
    rfl
  | first, (op, next) :: others, h, hops, front => by
    obtain ⟨⟨hneutral, hunmet⟩, hnext⟩ := List.forall_mem_cons.1 h
    obtain ⟨hop, hops⟩ := List.forall_mem_cons.1 hops
    have hcompared : compared first ((op, next) :: others) =
        first ++ ' ' :: (op.symbol.toList ++ ' ' :: compared next others) := by
      simp [compared]
    rw [hcompared, splitFrom_append_of_not_meets hunmet, hneutral]
    rcases splitFrom_comparison hop (first.reverse ++ front) (compared next others) with
      hnone | ⟨front', heq⟩
    · exact hnone
    · rw [heq, splitFrom_compared hnext hops]

/-- Splitting undoes writing an assignment, and finds none in texts with comparisons between them.
-/
theorem split?_written :
    (∀ a, Writable a → split? a.written = some a) ∧
    ∀ first others, (∀ t ∈ first :: others.map Prod.snd, Neutral t ∧ ¬ Meets .start '=' t) →
      (∀ op ∈ others.map Prod.fst, op ∈ comparisons) → split? (compared first others) = none :=
  ⟨fun _ h => h.split?_eq, fun _ _ h hops => splitFrom_compared h hops []⟩

/-- Equals signs in literals, in brackets and in the value, and a chain of comparisons. -/
theorem split?_written_nested :
    let a : Assignment := ⟨"d['=', f(x == 1)]".toList, some .floorDiv, "b == c = 2".toList⟩
    let others : List (BinaryOp × List Char) := [(.le, "'='".toList), (.ne, "g[y = 1]".toList)]
    Writable a ∧ split? "d['=', f(x == 1)] //= b == c = 2".toList = some a ∧
      (∀ t ∈ "f(x=1)".toList :: others.map Prod.snd, Neutral t ∧ ¬ Meets .start '=' t) ∧
      split? "f(x=1) <= '=' != g[y = 1]".toList = none := by
  intro a others
  have ha : Writable a := by constructor <;> decide
  have hothers : ∀ t ∈ "f(x=1)".toList :: others.map Prod.snd,
      Neutral t ∧ ¬ Meets .start '=' t := by decide
  have htext : a.written = "d['=', f(x == 1)] //= b == c = 2".toList := by decide
  have hcompared : compared "f(x=1)".toList others = "f(x=1) <= '=' != g[y = 1]".toList := by
    decide
  exact ⟨ha, htext ▸ split?_written.1 a ha, hothers,
    hcompared ▸ split?_written.2 "f(x=1)".toList others hothers (by decide)⟩

end Assignment

end Stepwise.Source
