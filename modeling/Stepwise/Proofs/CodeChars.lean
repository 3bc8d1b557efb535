import Mathlib.Order.Bounds.Basic
import Stepwise.Proofs.Texts

/-!
# Characters outside literals

A comment begins where its marker stands outside literals, braces are counted outside literals, and
a text is split where a separator stands outside literals and brackets: these scans look at the same
characters, `codeChars` (`seesCodeChars`). The search for the parenthesis that closes another one
follows literals in a way of its own, by the character right before a quote. It finds the first
position at which the parentheses among the `codeChars` balance, unless a literal on the way ends
right after a backslash (`closingParen_balances`): such a literal it takes for open
(`closingParen_misses_literal`).
-/

namespace Stepwise.Source

/-- The characters outside literals with their positions, where the scan stands at `position`. -/
def codeCharsFrom : Quoting → Nat → List Char → List (Nat × Char)
  | _, _, [] => []
  | q, position, c :: rest =>
    if q.seesCode c then (position, c) :: codeCharsFrom (q.next c) (position + 1) rest
    else codeCharsFrom (q.next c) (position + 1) rest

/-- The characters of a text outside literals, with their positions. -/
def codeChars (text : List Char) : List (Nat × Char) := codeCharsFrom .code 0 text

/-- Where the scan stands with respect to literals in front of a position. -/
def quotingAt (text : List Char) (i : Nat) : Quoting := (text.take i).foldl Quoting.next .code

/-- A literal ends with the character at a position, and a backslash stands right before that. -/
def EndsEscaped (text : List Char) (i : Nat) : Prop :=
  quotingAt text i ≠ .code ∧ quotingAt text (i + 1) = .code ∧ text[i - 1]? = some '\\'

instance (text : List Char) (i : Nat) : Decidable (EndsEscaped text i) :=
  inferInstanceAs (Decidable (_ ∧ _))

section CodeChars

variable {text : List Char} {q : Quoting} {i : Nat} {c : Char}

theorem codeCharsFrom_append (front rest : List Char) : ∀ (q : Quoting) (position : Nat),
    codeCharsFrom q position (front ++ rest) =
      codeCharsFrom q position front ++
        codeCharsFrom (front.foldl Quoting.next q) (position + front.length) rest := by
  induction front with
  | nil => exact fun q position => rfl
  | cons c front ih =>
    intro q position
    have hposition : position + 1 + front.length = position + (c :: front).length := by
      rw [List.length_cons, Nat.add_assoc, Nat.add_comm 1]
    rw [List.cons_append, codeCharsFrom, codeCharsFrom, ih, hposition, List.foldl_cons]
    split_ifs <;> rfl

/-- A character counts if the scan of all in front of it says so. -/
theorem mem_codeCharsFrom : ∀ {text : List Char} {q : Quoting} {position : Nat},
    (i, c) ∈ codeCharsFrom q position text ↔
      ∃ j, i = position + j ∧ text[j]? = some c ∧
        ((text.take j).foldl Quoting.next q).seesCode c = true
  | [], q, position => by simp [codeCharsFrom]
  | d :: text, q, position => by
    have hlater : (i, c) ∈ codeCharsFrom (q.next d) (position + 1) text ↔
        ∃ j, i = position + (j + 1) ∧ (d :: text)[j + 1]? = some c ∧
          (((d :: text).take (j + 1)).foldl Quoting.next q).seesCode c = true := by
      rw [mem_codeCharsFrom]
      simp only [List.getElem?_cons_succ, List.take_succ_cons, List.foldl_cons, Nat.add_assoc,
        Nat.add_comm 1]
    have hmem : (i, c) ∈ codeCharsFrom q position (d :: text) ↔
        (i = position ∧ d = c ∧ q.seesCode c = true) ∨
          (i, c) ∈ codeCharsFrom (q.next d) (position + 1) text := by
      rw [codeCharsFrom]
      split_ifs with hd
      · rw [List.mem_cons, Prod.mk.injEq]
        exact or_congr_left ⟨fun ⟨hi, hc⟩ => ⟨hi, hc.symm, hc ▸ hd⟩,
          fun ⟨hi, hc, _⟩ => ⟨hi, hc.symm⟩⟩
      · exact (or_iff_right fun ⟨_, hc, hsees⟩ => hd (hc ▸ hsees)).symm
    rw [hmem, hlater]
    constructor
    · rintro (⟨rfl, rfl, hc⟩ | ⟨j, hj⟩)
      · exact ⟨0, rfl, rfl, hc⟩
      · exact ⟨j + 1, hj⟩
    · rintro ⟨_ | j, hi, hc, hsees⟩
      · exact .inl ⟨hi, Option.some.inj hc, hsees⟩
      · exact .inr ⟨j, hi, hc, hsees⟩

theorem mem_codeChars :
    (i, c) ∈ codeChars text ↔ text[i]? = some c ∧ (quotingAt text i).seesCode c = true := by
  rw [codeChars, mem_codeCharsFrom]
  simp only [Nat.zero_add, exists_eq_left', quotingAt]

theorem code_of_seesCode (h : q.seesCode c = true) : q = .code ∧ isQuote c = false := by
  cases q with
  | code => exact ⟨rfl, by simpa [Quoting.seesCode] using h⟩
  | literal d escaped => cases h

/-- The scan of a text that starts later finds the same characters at later positions. -/
theorem codeCharsFrom_succ : ∀ (text : List Char) (q : Quoting) (position : Nat),
    codeCharsFrom q (position + 1) text =
      (codeCharsFrom q position text).map fun p => (p.1 + 1, p.2)
  | [], _, _ => rfl
  | c :: text, q, position => by
    rw [codeCharsFrom, codeCharsFrom, codeCharsFrom_succ text]
    split_ifs <;> rfl

end CodeChars

/-! ### The scans of a line -/

section Scans

/-- Comments, braces and the top level of a text are found by its characters outside literals. -/
structure SeesCodeChars (text : List Char) : Prop where
  /-- The text is cut in front of the first marker that begins outside literals. -/
  comments : ∀ marker, stripComment marker text =
    text.take (((codeChars text).find? fun p => marker.isPrefixOf (text.drop p.1)).elim
      text.length Prod.fst)
  braces : braceBalance text =
    (codeChars text).countP (·.2 == '\x7b') - (codeChars text).countP (·.2 == '\x7d')
  /-- The top level is outside literals and behind as many closing as opening brackets. -/
  topLevel : ∀ i c, text[i]? = some c →
    (((text.take i).foldl Nesting.next .start).atTop c = true ↔
      (i, c) ∈ codeChars text ∧ isOpener c = false ∧ isCloser c = false ∧
        (codeChars (text.take i)).countP (isOpener ·.2) =
          (codeChars (text.take i)).countP (isCloser ·.2))

/-- A comment begins at the first place outside literals where its marker stands. -/
theorem stripCommentFrom_eq_take (marker : List Char) : ∀ (text : List Char) (q : Quoting),
    stripCommentFrom marker q text =
      text.take (((codeCharsFrom q 0 text).find? fun p => marker.isPrefixOf (text.drop p.1)).elim
        text.length Prod.fst)
  | [], _ => rfl
  | c :: text, q => by
    have hlater : ((codeCharsFrom (q.next c) 1 text).find? fun p =>
          marker.isPrefixOf ((c :: text).drop p.1)).elim (c :: text).length Prod.fst =
        ((codeCharsFrom (q.next c) 0 text).find? fun p =>
          marker.isPrefixOf (text.drop p.1)).elim text.length Prod.fst + 1 := by
      rw [codeCharsFrom_succ, List.find?_map]
      simp only [Function.comp_def, List.drop_succ_cons]
      cases (codeCharsFrom (q.next c) 0 text).find? fun p => marker.isPrefixOf (text.drop p.1) <;>
        rfl
    rw [stripCommentFrom, codeCharsFrom, stripCommentFrom_eq_take marker text]
    by_cases hsees : q.seesCode c = true
    · by_cases hmark : marker.isPrefixOf (c :: text) = true
      · simp [hsees, hmark]
      · rw [if_neg (by simp [hmark]), if_pos hsees, List.find?_cons_of_neg (by simpa using hmark),
          hlater, List.take_succ_cons]
    · rw [if_neg (by simp [hsees]), if_neg hsees, hlater, List.take_succ_cons]

/-- The balance of braces is the difference of two counts. -/
theorem braceBalanceFrom_eq_count : ∀ (text : List Char) (q : Quoting) (position : Nat),
    braceBalanceFrom q text =
      (codeCharsFrom q position text).countP (·.2 == '\x7b') -
        (codeCharsFrom q position text).countP (·.2 == '\x7d')
  | [], _, _ => rfl
  | c :: text, q, position => by
    rw [braceBalanceFrom, codeCharsFrom, braceBalanceFrom_eq_count text (q.next c) (position + 1)]
    split_ifs with hsees hopen hclose
    · have hc : c = '\x7b' := by simpa using hopen
      simp [hc]
      omega
    · have hc : c = '\x7d' := by simpa using hclose
      simp [hc]
      omega
    · simp [hopen, hclose]
    · rw [Int.zero_add]

/-- Brackets are followed by counting them outside literals. -/
theorem foldl_nesting : ∀ (text : List Char) (s : Nesting) (position : Nat),
    text.foldl Nesting.next s =
      ⟨text.foldl Quoting.next s.quoting,
        s.depth + ((codeCharsFrom s.quoting position text).countP (isOpener ·.2) -
          (codeCharsFrom s.quoting position text).countP (isCloser ·.2))⟩
  | [], s, _ => by simp [codeCharsFrom]
  | c :: text, s, position => by
    have hboth : isOpener c = true → isCloser c = false := by
      simp only [isOpener, isCloser, Bool.or_eq_true, beq_iff_eq]
      rintro ((rfl | rfl) | rfl) <;> rfl
    rw [List.foldl_cons, List.foldl_cons, foldl_nesting text _ (position + 1), Nesting.next,
      codeCharsFrom]
    congr 1
    dsimp only
    split_ifs with hsees hopen hclose
    · simp [hopen, hboth hopen]
      omega
    · simp [hopen, hclose]
      omega
    · simp [hopen, hclose]
    · rfl

theorem seesCodeChars (text : List Char) : SeesCodeChars text where
  comments marker := stripCommentFrom_eq_take marker text .code
  braces := braceBalanceFrom_eq_count text .code 0
  topLevel i c hc := by
    rw [foldl_nesting _ _ 0, mem_codeChars]
    simp only [Nesting.atTop, Nesting.start, quotingAt, codeChars, hc, true_and, Bool.and_eq_true,
      Bool.not_eq_true', beq_iff_eq, and_assoc]
    refine and_congr_right fun _ => and_congr_right fun _ => and_congr_right fun _ => ?_
    omega

end Scans

/-! ### The closing parenthesis -/

/-- The characters outside literals from one position up to another one, without that at `stop`. -/
def codeBetween (text : List Char) (first stop : Nat) : List Char :=
  ((codeChars text).filter fun p => first ≤ p.1 && p.1 < stop).map Prod.snd

/-- Opening less closing parentheses outside literals, from one position up to another one. -/
def parenBalance (text : List Char) (first stop : Nat) : Int :=
  (codeBetween text first stop).count '(' - (codeBetween text first stop).count ')'

/-- From a position on, and up to where its parenthesis is closed, no literal ends right after a
backslash. -/
def EndsPlainly (text : List Char) (first : Nat) : Prop :=
  ∀ j < text.length, first < j → (∀ i < j, first < i → parenBalance text first (i + 1) ≠ 0) →
    ¬ EndsEscaped text j

instance (text : List Char) (first : Nat) : Decidable (EndsPlainly text first) :=
  inferInstanceAs (Decidable (∀ j < text.length, _))

section Closing

variable {text front : List Char} {first stop : Nat} {c before : Char}

/-- One more character outside literals is one more in the range that ends with it. -/
theorem codeBetween_succ (c : Char) (rest : List Char) (hfirst : first ≤ front.length) :
    codeBetween (front ++ c :: rest) first (front.length + 1) =
      codeBetween (front ++ c :: rest) first front.length ++
        if (front.foldl Quoting.next .code).seesCode c then [c] else [] := by
  have hfront : ∀ p ∈ codeCharsFrom .code 0 front, p.1 < front.length := by
    rintro ⟨i, d⟩ hp
    obtain ⟨j, rfl, hd, -⟩ := mem_codeCharsFrom.1 hp
    rw [Nat.zero_add]
    exact (List.getElem?_eq_some_iff.1 hd).1
  have hsame :
      (codeCharsFrom .code 0 front).filter (fun p => first ≤ p.1 && p.1 < front.length + 1) =
        (codeCharsFrom .code 0 front).filter fun p => first ≤ p.1 && p.1 < front.length := by
    refine List.filter_congr fun p hp => ?_
    have := hfront p hp
    congr 2
    exact propext (by omega)
  have hnone (q : Quoting) {stop : Nat} (hstop : stop ≤ front.length + 1) :
      (codeCharsFrom q (front.length + 1) rest).filter
        (fun p => first ≤ p.1 && p.1 < stop) = [] := by
    refine List.filter_eq_nil_iff.2 fun ⟨i, d⟩ hp => ?_
    obtain ⟨j, rfl, -⟩ := mem_codeCharsFrom.1 hp
    simp only [Bool.and_eq_true, decide_eq_true_eq, not_and]
    omega
  rw [codeBetween, codeBetween, codeChars, codeCharsFrom_append, codeCharsFrom, Nat.zero_add]
  split_ifs with hsees
  · rw [List.filter_append, List.filter_append, hsame, List.filter_cons_of_pos (by simp [hfirst]),
      List.filter_cons_of_neg (by simp), hnone _ le_rfl, hnone _ (Nat.le_succ _), List.append_nil,
      List.map_append]
    rfl
  · rw [List.filter_append, List.filter_append, hsame, hnone _ le_rfl, hnone _ (Nat.le_succ _),
      List.append_nil, List.append_nil]

theorem codeBetween_self (text : List Char) (first : Nat) : codeBetween text first first = [] := by
  rw [codeBetween, List.filter_eq_nil_iff.2 fun p _ => by simp, List.map_nil]

/-- Behind the end of the text nothing is added. -/
theorem codeBetween_of_length_le (h : text.length ≤ stop) :
    codeBetween text first stop = codeBetween text first text.length := by
  rw [codeBetween, codeBetween]
  congr 1
  refine List.filter_congr fun p hp => ?_
  obtain ⟨hc, -⟩ := mem_codeChars.1 (show (p.1, p.2) ∈ codeChars text from hp)
  have := (List.getElem?_eq_some_iff.1 hc).1
  congr 2
  exact propext (by omega)

theorem parenBalance_succ (c : Char) (rest : List Char) (hfirst : first ≤ front.length) :
    parenBalance (front ++ c :: rest) first (front.length + 1) =
      parenBalance (front ++ c :: rest) first front.length +
        if (front.foldl Quoting.next .code).seesCode c then
          if c == '(' then 1 else if c == ')' then -1 else 0
        else 0 := by
  rw [parenBalance, parenBalance, codeBetween_succ c rest hfirst]
  split_ifs with hsees hopen hclose
  · have hc : c = '(' := by simpa using hopen
    simp [hc]
    omega
  · have hc : c = ')' := by simpa using hclose
    simp [hc]
    omega
  · simp [List.count_singleton, hopen, hclose]
  · simp

/-- What the search knows of the literal it is in. Right after a backslash that escapes, the
character before is that backslash; after one that is escaped it is a backslash too. -/
inductive Follows : Option Char → Char → Quoting → Prop
  | code (before : Char) : Follows none before .code
  | literal {d before : Char} {escaped : Bool} :
      isQuote d = true → (escaped = true → before = '\\') →
        Follows (some d) before (.literal d escaped)

/-- One character in a literal, which does not end right after a backslash. -/
theorem Follows.step {d : Char} {q : Quoting} (h : Follows (some d) before q)
    (hends : q.next c = .code → before ≠ '\\') :
    Follows (if c == d && before != '\\' then none else some d) c (q.next c) := by
  cases h with
  | @literal _ _ escaped hd hbefore =>
    cases escaped with
    | true =>
      rw [hbefore rfl, if_neg (by simp)]
      exact .literal hd nofun
    | false =>
      by_cases hc : c = '\\'
      · have hne : (c == d) = false := by
          rw [beq_eq_false_iff_ne, hc]
          rintro rfl
          exact absurd hd (by decide)
        have hnext : (Quoting.literal d false).next c = .literal d true := by
          simp [Quoting.next, hc]
        rw [hne, hnext]
        exact .literal hd fun _ => hc
      · by_cases hcd : c = d
        · subst hcd
          have hnext : (Quoting.literal c false).next c = .code := by simp [Quoting.next, hc]
          rw [hnext, if_pos (by simp [hends hnext])]
          exact .code c
        · have hnext : (Quoting.literal d false).next c = .literal d false := by
            simp [Quoting.next, hc, hcd]
          rw [hnext, if_neg (by simp [hcd])]
          exact .literal hd nofun

/-- The answer of a search for the first position with a property. -/
def Finds (P : Nat → Prop) : Option Nat → Prop
  | some i => IsLeast {i | P i} i
  | none => ∀ i, ¬ P i

theorem Finds.eq_some_iff {P : Nat → Prop} {found : Option Nat} (h : Finds P found) (i : Nat) :
    found = some i ↔ IsLeast {i | P i} i := by
  cases found with
  | none => exact ⟨fun hi => (nomatch hi), fun hi => absurd hi.1 (h i)⟩
  | some j => exact ⟨fun hi => Option.some.inj hi ▸ h, fun hi => congrArg some (h.unique hi)⟩

theorem Finds.eq_none_iff {P : Nat → Prop} {found : Option Nat} (h : Finds P found) :
    found = none ↔ ∀ i, ¬ P i := by
  cases found with
  | none => exact ⟨fun _ => h, fun _ => rfl⟩
  | some j => exact ⟨fun hj => (nomatch hj), fun hP => absurd h.1 (hP j)⟩

/-- The parentheses from `first` on balance with the character at a position, a later one. -/
def BalancesAt (text : List Char) (first i : Nat) : Prop :=
  first < i ∧ parenBalance text first (i + 1) = 0

/-- The search goes on behind a front in which the parenthesis at `first` stays open. -/
theorem closingFrom_finds (hplain : EndsPlainly text first) :
    ∀ (rest front : List Char) (delimiter : Option Char) (before : Char),
      text = front ++ rest → first < front.length → front.getLast? = some before →
      Follows delimiter before (front.foldl Quoting.next .code) →
      (∀ i < front.length, first ≤ i → 0 < parenBalance text first (i + 1)) →
      Finds (BalancesAt text first)
        (closingFrom delimiter before (parenBalance text first front.length) front.length rest)
  | [], front, delimiter, before, htext, hfirst, _, _, hopen => by
    -- Behind the end the balance is that at the last character.
    rintro i ⟨hi, hzero⟩
    rw [List.append_nil] at htext
    subst htext
    by_cases hlt : i < text.length
    · exact (hopen i hlt hi.le).ne' hzero
    · have hlast := hopen (text.length - 1) (by omega) (by omega)
      rw [Nat.sub_add_cancel (by omega)] at hlast
      rw [parenBalance, codeBetween_of_length_le (by omega)] at hzero
      exact hlast.ne' hzero
  | c :: rest, front, delimiter, before, htext, hfirst, hlast, hfollows, hopen => by
    have hnext : (front ++ [c]).foldl Quoting.next .code =
        (front.foldl Quoting.next .code).next c := by rw [List.foldl_concat]
    have hstep := parenBalance_succ c rest hfirst.le
    have hbefore := hopen (front.length - 1) (by omega) (by omega)
    rw [Nat.sub_add_cancel (by omega)] at hbefore
    rw [← htext] at hstep
    -- If the parenthesis is still open here, the search goes on.
    have hmore (delimiter : Option Char) (depth : Int)
        (hdepth : parenBalance text first (front.length + 1) = depth) (hpos : 0 < depth)
        (hf : Follows delimiter c ((front.foldl Quoting.next .code).next c)) :
        Finds (BalancesAt text first)
          (closingFrom delimiter c depth (front.length + 1) rest) := by
      have hlength : (front ++ [c]).length = front.length + 1 := by simp
      have := closingFrom_finds hplain rest (front ++ [c]) delimiter c (by simp [htext])
        (by omega) List.getLast?_concat (hnext ▸ hf) fun i hi hfi => by
          by_cases hlt : i < front.length
          · exact hopen i hlt hfi
          · obtain rfl : i = front.length := by omega
            exact hdepth ▸ hpos
      rwa [hlength, hdepth] at this
    cases hq : front.foldl Quoting.next .code with
    | literal d escaped =>
      rw [hq] at hfollows hstep hmore
      cases hfollows with
      | literal hd hescaped =>
        rw [closingFrom]
        refine hmore _ _ (by simpa [Quoting.seesCode] using hstep) hbefore
          ((Follows.literal hd hescaped).step fun hcode => ?_)
        -- The literal ends here and the parenthesis is still open, so the end is a plain one.
        have htake : text.take front.length = front := by rw [htext, List.take_left]
        have htake' : text.take (front.length + 1) = front ++ [c] := by
          rw [htext, List.take_length_add_append]
          rfl
        have hback : text[front.length - 1]? = some before := by
          rw [htext, List.getElem?_append_left (by omega), ← List.getLast?_eq_getElem?, hlast]
        have hends := hplain front.length (by simp [htext]) hfirst
          fun i hi hfi => (hopen i hi hfi.le).ne'
        rw [EndsEscaped, quotingAt, quotingAt, htake, htake', hnext, hq, hback] at hends
        exact fun h => hends ⟨by rintro ⟨⟩, hcode, congrArg some h⟩
    | code =>
      rw [hq] at hfollows hstep hmore
      cases hfollows
      rw [closingFrom]
      by_cases hquote : isQuote c = true
      · rw [if_pos hquote]
        refine hmore _ _ (by simpa [Quoting.seesCode, hquote] using hstep) hbefore ?_
        rw [Quoting.next, if_pos hquote]
        exact .literal hquote (by rintro ⟨⟩)
      · have hcode : Quoting.code.next c = .code := by rw [Quoting.next, if_neg hquote]
        have hsees : Quoting.code.seesCode c = true := by simpa [Quoting.seesCode] using hquote
        rw [if_pos hsees] at hstep
        rw [hcode] at hmore
        rw [if_neg hquote]
        split_ifs at hstep ⊢ with hleft hright hone
        · exact hmore _ _ hstep (by omega) (.code c)
        · -- The last parenthesis that was open is closed.
          refine ⟨⟨hfirst, by rw [hstep, beq_iff_eq.1 hone]; rfl⟩, fun i hi => ?_⟩
          by_contra hlt
          exact (hopen i (by omega) hi.1.le).ne' hi.2
        · have hmany : parenBalance text first front.length ≠ 1 := by simpa using hone
          exact hmore _ _ hstep (by omega) (.code c)
        · exact hmore _ _ (by simpa using hstep) hbefore (.code c)

/-- The search for a closing parenthesis finds the first place where the balance is zero. -/
theorem matchParen?_finds (hopen : (first, '(') ∈ codeChars text)
    (hplain : EndsPlainly text first) :
    Finds (BalancesAt text first) (matchParen? text first) := by
  obtain ⟨hc, hsees⟩ := mem_codeChars.1 hopen
  obtain ⟨hlt, hget⟩ := List.getElem?_eq_some_iff.1 hc
  have hcode : (text.take first).foldl Quoting.next .code = .code := (code_of_seesCode hsees).1
  have htext : text = text.take first ++ '(' :: text.drop (first + 1) := by
    rw [← hget, List.getElem_cons_drop, List.take_append_drop]
  have hlength : (text.take first).length = first := List.length_take_of_le hlt.le
  have hone : parenBalance text first (first + 1) = 1 := by
    have hstep := parenBalance_succ '(' (text.drop (first + 1)) hlength.ge
    rw [← htext, hlength, hcode] at hstep
    rw [hstep, parenBalance, codeBetween_self]
    rfl
  have hfound := closingFrom_finds hplain (text.drop (first + 1)) (text.take first ++ ['(']) none
    '(' (by simpa using htext) (by simp [hlength]) List.getLast?_concat
    (by rw [List.foldl_concat, hcode]; exact .code '(') fun i hi hfi => by
      obtain rfl : i = first := by
        rw [List.length_append, hlength, List.length_singleton] at hi
        omega
      rw [hone]
      decide
  rw [List.length_append, hlength, List.length_singleton, hone] at hfound
  rw [matchParen?, ← List.getElem_cons_drop hlt, hget]
  exact hfound

end Closing

/-- The search for a closing parenthesis gives the first position at which the parentheses outside
literals balance, and fails if there is none. -/
theorem closingParen_balances {text : List Char} {first : Nat}
    (hopen : (first, '(') ∈ codeChars text) (hplain : EndsPlainly text first) :
    (∀ i, matchParen? text first = some i ↔
      IsLeast {i | first < i ∧ parenBalance text first (i + 1) = 0} i) ∧
    (matchParen? text first = none ↔ ∀ i, first < i → parenBalance text first (i + 1) ≠ 0) ∧
    SeesCodeChars text := by
  have hfound := matchParen?_finds hopen hplain
  refine ⟨hfound.eq_some_iff, hfound.eq_none_iff.trans ?_, seesCodeChars text⟩
  exact forall_congr' fun i => not_and

/-- Escaped quotes, an escaped backslash inside a literal, and a parenthesis in each of two
literals. -/
theorem closingParen_balances_escapes :
    let text := "f(\"\\\\ \\\")\", g(')'), \"(\") + 1".toList
    (1, '(') ∈ codeChars text ∧ EndsPlainly text 1 ∧ matchParen? text 1 = some 23 ∧
      IsLeast {i | 1 < i ∧ parenBalance text 1 (i + 1) = 0} 23 := by
  intro text
  have hopen : (1, '(') ∈ codeChars text := by decide +kernel
  have hplain : EndsPlainly text 1 := by decide +kernel
  have hfound : matchParen? text 1 = some 23 := by decide +kernel
  exact ⟨hopen, hplain, hfound, ((closingParen_balances hopen hplain).1 23).1 hfound⟩

/-- The literal in parentheses is a backslash, written with an escape. The search does not see that
it ends. -/
theorem closingParen_misses_literal :
    let text := "(\"\\\\\")".toList
    (0, '(') ∈ codeChars text ∧ IsLeast {i | 0 < i ∧ parenBalance text 0 (i + 1) = 0} 5 ∧
      matchParen? text 0 = none := by
  intro text
  refine ⟨by decide +kernel, ⟨by decide +kernel, fun i hi => ?_⟩, by decide +kernel⟩
  by_contra hlt
  have hbefore : ∀ i < 5, ¬ (0 < i ∧ parenBalance text 0 (i + 1) = 0) := by decide +kernel
  exact hbefore i (by omega) hi

end Stepwise.Source
