import Mathlib.Data.List.Find
import Mathlib.Data.List.Induction
import Stepwise.Proofs.Numerals
import Stepwise.Proofs.ValueFaults

/-!
# Conversions of a format

A conversion is written as flags, a width, a precision, a length mark and a letter. The scan of a
format finds it whatever stands behind it (`Directive.conversion?_options`). Its options are a
specification (`Directive.spec?`), unless a number is too large or is not in ASCII digits, and what
the conversion makes of a value depends on that and on the letter (`Directive.convert_eq`). Where it
does not fit the value, the value is displayed (`Directive.substitute_eq`).
-/

namespace Stepwise

open Number Text

namespace Printf

/-- A conversion as it is written in a format. -/
structure Directive where
  flags : Text
  width : Text
  /-- The digits behind the point. -/
  precision : Option Text
  /-- The length mark, which says nothing about the value. -/
  mark : Text
  letter : Char
  isFlag : ∀ p ∈ flags, Format.isFlag p = true
  isWidth : ∀ p ∈ width, isDecimalPoint p = true
  isPrecision : ∀ digits ∈ precision, digits ≠ [] ∧ ∀ p ∈ digits, isDecimalPoint p = true
  isMark : mark ∈ ([] :: lengthMarks)
  isLetter : letter ∈ letters

namespace Directive

variable (d : Directive)

/-- The precision with its point. -/
def precisionPart : Text := d.precision.elim [] (CodePoint.ofChar '.' :: ·)

/-- Flags, width and precision. -/
def options : Text := d.flags ++ (d.width ++ d.precisionPart)

/-- The length mark and the letter. -/
def ending : Text := d.mark ++ [CodePoint.ofChar d.letter]

/-- The conversion in a format. -/
def text : Text := CodePoint.ofChar '%' :: (d.options ++ d.ending)

/-- A text that does not go on with flags, digits or a precision. -/
def Behind (rest : Text) : Prop :=
  ∀ p ∈ rest.head?, Format.isFlag p = false ∧ isDecimalPoint p = false ∧ p ≠ CodePoint.ofChar '.' ∧
    p ≠ CodePoint.ofChar '*'

/-- A character that begins what stands behind the options. -/
def endingHeads : List Char := "hlLz".toList ++ letters

theorem behind_of_head {c : Char} (hc : c ∈ endingHeads) (rest : Text) :
    Behind (CodePoint.ofChar c :: rest) := by
  have hall : endingHeads.all (fun c => !Format.isFlag (CodePoint.ofChar c) &&
      !isDecimalPoint (CodePoint.ofChar c) && CodePoint.ofChar c != CodePoint.ofChar '.' &&
      CodePoint.ofChar c != CodePoint.ofChar '*') = true := by decide
  rintro p ⟨⟩
  simpa [and_assoc] using List.all_eq_true.1 hall c hc

theorem behind_letter {c : Char} (hc : c ∈ letters) (rest : Text) :
    Behind (CodePoint.ofChar c :: rest) :=
  behind_of_head (List.mem_append_right _ hc) rest

theorem ending_append (rest : Text) :
    d.ending ++ rest = d.mark ++ CodePoint.ofChar d.letter :: rest := by
  rw [ending, List.append_assoc, List.singleton_append]

theorem behind_ending (rest : Text) : Behind (d.ending ++ rest) := by
  have hall : ([] :: lengthMarks).all (fun mark => mark.isEmpty ||
      endingHeads.any fun c => mark.head? == some (CodePoint.ofChar c)) = true := by decide
  rw [ending_append]
  cases hmark : d.mark with
  | nil => exact behind_letter d.isLetter rest
  | cons p mark =>
    have hp := List.all_eq_true.1 hall _ (hmark ▸ d.isMark)
    simp only [List.isEmpty_cons, Bool.false_or, List.any_eq_true, List.head?_cons,
      beq_iff_eq, Option.some_inj] at hp
    obtain ⟨c, hc, rfl⟩ := hp
    exact behind_of_head hc _

/-- No letter is in a length mark, so the mark that is found is the one that is written. -/
theorem find?_lengthMark (rest : Text) :
    lengthMarks.find? (·.isPrefixOf (d.ending ++ rest)) =
      if d.mark = [] then none else some d.mark := by
  have hletters : lengthMarks.all (fun mark =>
      letters.all fun c => !mark.contains (CodePoint.ofChar c)) = true := by decide
  have hmarks : ([] :: lengthMarks).all (fun mark => lengthMarks.find? (·.isPrefixOf mark) ==
      if mark = [] then none else some mark) = true := by decide
  rw [← eq_of_beq (List.all_eq_true.1 hmarks d.mark d.isMark), ending_append]
  refine List.find?_congr fun mark hmark => isPrefixOf_append_cons ?_ _ _
  simpa using List.all_eq_true.1 (List.all_eq_true.1 hletters mark hmark) d.letter d.isLetter

variable {rest : Text}

theorem precisionText_options (hrest : Behind rest) :
    precisionText (d.precisionPart ++ rest) = d.precisionPart := by
  cases hd : d.precision with
  | none =>
    rw [precisionPart, hd, Option.elim_none, List.nil_append]
    cases rest with
    | nil => rfl
    | cons p rest => rw [precisionText, if_pos (by simp [(hrest p rfl).2.2.1])]
  | some digits =>
    obtain ⟨hne, hdigits⟩ := d.isPrecision digits hd
    have hspan : (digits ++ rest).takeWhile isDecimalPoint = digits :=
      takeWhile_exact hdigits fun p hp => (hrest p hp).2.1
    rw [precisionPart, hd, Option.elim_some, List.cons_append, precisionText, hspan,
      if_neg (by simp [hne])]

/-- The precision begins with no flag and no digit. -/
theorem head_precision (hrest : Behind rest) : ∀ p ∈ (d.precisionPart ++ rest).head?,
    Format.isFlag p = false ∧ isDecimalPoint p = false ∧ p ≠ CodePoint.ofChar '*' := by
  cases hd : d.precision with
  | none =>
    rw [precisionPart, hd]
    exact fun p hp => ⟨(hrest p hp).1, (hrest p hp).2.1, (hrest p hp).2.2.2⟩
  | some digits =>
    rw [precisionPart, hd]
    rintro p ⟨⟩
    decide

/-- Zeros in front of a width are flags. -/
def allFlags : Text := d.flags ++ d.width.takeWhile Format.isFlag

/-- The width without zeros in front. -/
def bareWidth : Text := d.width.dropWhile Format.isFlag

theorem isDecimalPoint_bareWidth : ∀ p ∈ d.bareWidth, isDecimalPoint p = true :=
  fun p hp => d.isWidth p ((List.dropWhile_suffix _).subset hp)

theorem takeWhile_options (hrest : Behind rest) :
    (d.options ++ rest).takeWhile Format.isFlag = d.allFlags := by
  rw [options, List.append_assoc, List.takeWhile_append_of_pos d.isFlag, List.append_assoc,
    takeWhile_append_of_head fun p hp => (d.head_precision hrest p hp).1, allFlags]

theorem dropWhile_options (hrest : Behind rest) :
    (d.options ++ rest).dropWhile Format.isFlag = d.bareWidth ++ (d.precisionPart ++ rest) := by
  rw [options, List.append_assoc, List.dropWhile_append_of_pos d.isFlag, List.append_assoc,
    dropWhile_append_of_head fun p hp => (d.head_precision hrest p hp).1, bareWidth]

/-- The scan of a format finds the conversion that is written there. -/
theorem conversion?_options (rest : Text) :
    conversion? (d.options ++ (d.ending ++ rest)) = some (⟨d.options, d.letter⟩, rest) := by
  have hbehind := d.behind_ending rest
  have hhead := d.head_precision hbehind
  have hwidth : (d.bareWidth ++ (d.precisionPart ++ (d.ending ++ rest))).takeWhile
      isDecimalPoint = d.bareWidth :=
    takeWhile_exact d.isDecimalPoint_bareWidth fun p hp => (hhead p hp).2.1
  have hprecision : (d.bareWidth ++ (d.precisionPart ++ (d.ending ++ rest))).dropWhile
      isDecimalPoint = d.precisionPart ++ (d.ending ++ rest) :=
    dropWhile_exact d.isDecimalPoint_bareWidth fun p hp => (hhead p hp).2.1
  have hoptions : d.allFlags ++ d.bareWidth ++ d.precisionPart = d.options := by
    rw [allFlags, bareWidth, options, List.append_assoc d.flags, List.takeWhile_append_dropWhile,
      List.append_assoc]
  unfold conversion?
  simp only [d.takeWhile_options hbehind, d.dropWhile_options hbehind, hwidth, hprecision,
    d.precisionText_options hbehind, List.drop_left, d.find?_lengthMark, hoptions]
  by_cases hmark : d.mark = [] <;>
    simp [hmark, ending_append, CodePoint.char?_ofChar, d.isLetter]

end Directive

end Printf

/-! ### The specification that options write -/

namespace Number

/-- The value of digits that is read up to a limit. -/
theorem digitsValueUpTo_eq {digits : List Char} (hne : digits ≠ []) (limit : Nat) :
    digitsValueUpTo limit digits =
      if digitsValue digits ≤ limit then some (digitsValue digits) else none := by
  induction digits using List.reverseRecOn with
  | nil => contradiction
  | append_singleton digits c ih =>
    have hvalue : digitsValue (digits ++ [c]) = 10 * digitsValue digits + (c.toNat - 48) := by
      simp [digitsValue]
    have hstep : digitsValueUpTo limit (digits ++ [c]) = (digitsValueUpTo limit digits).bind
        fun n =>
          if 10 * n + (c.toNat - 48) ≤ limit then some (10 * n + (c.toNat - 48)) else none := by
      simp [digitsValueUpTo, List.foldlM_append]
    rw [hstep, hvalue]
    by_cases hdigits : digits = []
    · simp [hdigits, digitsValueUpTo, digitsValue]
    · rw [ih hdigits]
      split_ifs
      · simp_all
      · simp_all
      · omega
      · rfl

end Number

namespace Format

/-- A digit that is not ASCII. -/
def IsForeign (p : CodePoint) : Prop := isDecimalPoint p = true ∧ isDigit p = false

/-- The number that digits write. Only ASCII digits write one. -/
def number? (limit : Nat) (digits : Text) : Option Nat :=
  let n := digitsValue (digits.filterMap CodePoint.char?)
  if digits.all isDigit ∧ n ≤ limit then some n else none

/-- What is not written right is undefined. -/
def orUndefined {α : Type} (x : Option α) : Except Fault α := x.elim (throw .undefined) pure

theorem isDecimalPoint_of_isDigit {p : CodePoint} (h : isDigit p = true) :
    isDecimalPoint p = true := by
  unfold isDigit isDecimalPoint at *
  cases hc : p.char? with
  | none => simp [hc] at h
  | some c => exact isDecimal_of_isDigit (by simpa [hc] using h)

theorem filterMap_ne_nil {digits : Text} (hne : digits ≠ [])
    (hdigits : ∀ p ∈ digits, isDigit p = true) : digits.filterMap CodePoint.char? ≠ [] := by
  obtain ⟨p, digits, rfl⟩ := List.exists_cons_of_ne_nil hne
  have hp := hdigits p List.mem_cons_self
  unfold isDigit at hp
  cases hc : p.char? with
  | none => simp [hc] at hp
  | some c => simp [hc]

/-- A number in front of what is no digit. -/
theorem measure_ascii (limit : Nat) (supply : Supply) {digits rest : Text}
    (hdigits : ∀ p ∈ digits, isDigit p = true)
    (hrest : ∀ p ∈ rest.head?, isDigit p = false ∧ p ≠ CodePoint.ofChar '*') :
    measure limit supply (digits ++ rest) =
      if digits = [] then pure (none, supply, rest)
      else orUndefined (number? limit digits) >>= fun n => pure (some (n : Int), supply, rest) := by
  have hstar : ((digits ++ rest).head? == some (CodePoint.ofChar '*')) = false := by
    cases digits with
    | nil =>
      cases rest with
      | nil => rfl
      | cons p rest => simpa using (hrest p rfl).2
    | cons p digits =>
      have hp := hdigits p List.mem_cons_self
      rw [beq_eq_false_iff_ne]
      rintro ⟨⟩
      cases hp
  unfold measure
  rw [if_neg (Bool.not_eq_true _ ▸ hstar)]
  dsimp only
  rw [takeWhile_exact hdigits fun p hp => (hrest p hp).1,
    dropWhile_exact hdigits fun p hp => (hrest p hp).1]
  by_cases hne : digits = []
  · simp [hne]
  · have hchars := filterMap_ne_nil hne hdigits
    have hall : digits.all isDigit = true := List.all_eq_true.2 hdigits
    rw [if_neg (by simpa using hchars), if_neg hne, digitsValueUpTo_eq hchars, number?]
    simp only [hall, true_and]
    split_ifs <;> rfl

/-- The digits behind are undefined, or the scan stops at one of them. -/
def Unread {α : Type} (supply : Supply) (x : Except Fault (α × Supply × Text)) : Prop :=
  x = throw .undefined ∨ ∃ a p rest, IsForeign p ∧ x = pure (a, supply, p :: rest)

/-- A number of any digits is read, or the scan of the format stops at it. -/
theorem measure_digits (limit : Nat) (supply : Supply) {digits rest : Text}
    (hdigits : ∀ p ∈ digits, isDecimalPoint p = true)
    (hrest : ∀ p ∈ rest.head?, isDecimalPoint p = false ∧ p ≠ CodePoint.ofChar '*') :
    (∃ n, number? limit digits = some n ∧ ∃ m : Option Int, m.getD 0 = n ∧
      measure limit supply (digits ++ rest) = pure (m, supply, rest)) ∨
    number? limit digits = none ∧ Unread supply (measure limit supply (digits ++ rest)) := by
  have hascii : ∀ p ∈ digits.takeWhile isDigit, isDigit p = true :=
    fun p hp => List.mem_takeWhile_imp hp
  cases hforeign : digits.dropWhile isDigit with
  | nil =>
    have hall := List.dropWhile_eq_nil_iff.1 hforeign
    rw [measure_ascii limit supply hall fun p hp => ⟨?_, (hrest p hp).2⟩]
    · by_cases hne : digits = []
      · subst hne
        exact .inl ⟨0, by simp [number?, digitsValue], none, rfl, rfl⟩
      · rw [if_neg hne]
        cases hn : number? limit digits with
        | none => exact .inr ⟨rfl, .inl rfl⟩
        | some n => exact .inl ⟨n, rfl, some n, rfl, rfl⟩
    · refine Bool.eq_false_iff.2 fun hp' => ?_
      have := isDecimalPoint_of_isDigit hp'
      rw [(hrest p hp).1] at this
      cases this
  | cons p more =>
    right
    have hp : isDigit p = false := by
      have := List.head?_dropWhile_not isDigit digits
      simpa [hforeign] using this
    have hmem : p ∈ digits := (List.dropWhile_suffix _).subset (hforeign ▸ List.mem_cons_self)
    have hdecimal := hdigits p hmem
    have hstar : p ≠ CodePoint.ofChar '*' := by rintro rfl; revert hdecimal; decide
    refine ⟨if_neg fun h => ?_, ?_⟩
    · have := List.all_eq_true.1 h.1 p hmem
      rw [hp] at this
      cases this
    rw [← List.takeWhile_append_dropWhile (p := isDigit) (l := digits), hforeign, List.append_assoc,
      List.cons_append, measure_ascii limit supply hascii (by rintro q ⟨⟩; exact ⟨hp, hstar⟩)]
    split_ifs
    · exact .inr ⟨none, p, _, ⟨hdecimal, hp⟩, rfl⟩
    · cases number? limit (digits.takeWhile isDigit) with
      | none => exact .inl rfl
      | some n => exact .inr ⟨some n, p, _, ⟨hdecimal, hp⟩, rfl⟩

/-- A specification whose width is read. -/
theorem spec_of_measure {supply : Supply} {rest behind : Text} {m : Option Int} {n : Nat}
    (hm : m.getD 0 = n)
    (hmeasure : measure maxWidth supply (rest.dropWhile isFlag) = pure (m, supply, behind)) :
    spec supply rest =
      if behind.head? == some (CodePoint.ofChar '.') then
        measure maxPrecision supply behind.tail >>= fun read =>
          pure ({ withFlags (rest.takeWhile isFlag) with
            width := n, precision := some (read.1.getD 0).toNat }, read.2)
      else pure ({ withFlags (rest.takeWhile isFlag) with width := n }, supply, behind) := by
  unfold spec
  rw [hmeasure]
  cases m with
  | none =>
    obtain rfl : n = 0 := by simpa using hm.symm
    rfl
  | some k =>
    obtain rfl : k = n := hm
    simp [show ¬(n : Int) < 0 by omega]

section Fill

variable (h : Heap) (isList : Bool) (fuel : Nat) (v : Value) {t rest : Text}

theorem isPlain_percent : ¬isPlain (CodePoint.ofChar '%') = true := by decide

theorem fill_undefined (ht : t.head? ≠ some (CodePoint.ofChar '%'))
    (hspec : spec ⟨v, true⟩ t = throw .undefined) :
    fill h isList (fuel + 1) [] ⟨v, true⟩ (CodePoint.ofChar '%' :: t) = throw .undefined := by
  rw [fill, List.takeWhile_cons_of_neg isPlain_percent, List.dropWhile_cons_of_neg isPlain_percent]
  dsimp only
  rw [if_neg (by simpa using ht), hspec]
  rfl

/-- A conversion at the front of a format whose letter has no length mark before it. -/
theorem fill_conversion {s : Spec} {p : CodePoint} {c : Char}
    (ht : t.head? ≠ some (CodePoint.ofChar '%'))
    (hspec : spec ⟨v, true⟩ t = pure (s, ⟨v, true⟩, p :: rest))
    (hmark : p ∉ [CodePoint.ofChar 'h', CodePoint.ofChar 'l', CodePoint.ofChar 'L'])
    (hp : p.char? = some c) :
    fill h isList (fuel + 1) [] ⟨v, true⟩ (CodePoint.ofChar '%' :: t) =
      conversion h s c v >>= fun shown => fill h isList fuel [shown, []] ⟨v, false⟩ rest := by
  have hskip : skipLength (p :: rest) = p :: rest := by
    simp only [List.mem_cons, List.not_mem_nil, or_false, not_or] at hmark
    rw [skipLength, if_neg (by simp [hmark])]
  rw [fill, List.takeWhile_cons_of_neg isPlain_percent, List.dropWhile_cons_of_neg isPlain_percent]
  dsimp only
  rw [if_neg (by simpa using ht), hspec, pure_bind]
  dsimp only
  rw [hskip]
  dsimp only
  rw [hp]
  rfl

end Fill

section Letters

variable (h : Heap) (s : Spec)

theorem conversion_decimal (n : Int) :
    conversion h s 'd' (.int n) = ofChars <$> integer s 'd' n := by
  simp [conversion, Value.num, Value.num?, Scalar.truncate]

theorem conversion_hex {letter : Char} (hletter : letter ∈ ['x', 'X']) (n : Int) :
    conversion h s letter (.int n) = ofChars <$> integer s letter n := by
  simp only [List.mem_cons, List.not_mem_nil, or_false] at hletter
  rcases hletter with rfl | rfl <;> simp [conversion, Value.int?]

theorem conversion_text (t : Text) : conversion h s 's' (.str t) = text s t := by
  simp [conversion, Indented.display]

theorem conversion_float {letter : Char} (hletter : letter ∈ "eEfFgG".toList) (x : Float) :
    conversion h s letter (.float x) = ofChars <$> float s letter x := by
  simp only [String.reduceToList, List.mem_cons, List.not_mem_nil, or_false] at hletter
  rcases hletter with rfl | rfl | rfl | rfl | rfl | rfl <;>
    simp [conversion, Value.num, Value.num?, Scalar.toFloat]

end Letters

/-- A letter that no conversion has. -/
theorem conversion_undefined (h : Heap) (s : Spec) (v : Value) {letter : Char}
    (hletter : letter ∉ "sradiuxXoeEfFgGc".toList) :
    conversion h s letter v = throw .undefined := by
  simp only [String.reduceToList, List.mem_cons, List.not_mem_nil, or_false, not_or] at hletter
  simp [conversion, hletter]

/-- A digit where the letter should be. -/
theorem conversion_foreign (h : Heap) (s : Spec) (v : Value) {p : CodePoint} (hp : IsForeign p) :
    ∃ c, p.char? = some c ∧ conversion h s c v = throw .undefined := by
  have hletters : "sradiuxXoeEfFgGc".toList.all (!isDecimal ·) = true := by decide
  obtain ⟨c, hc, hdecimal⟩ : ∃ c, p.char? = some c ∧ isDecimal c = true := by
    simpa [isDecimalPoint, Option.any_eq_true] using hp.1
  refine ⟨c, hc, conversion_undefined h s v fun hmem => ?_⟩
  simpa [hdecimal] using List.all_eq_true.1 hletters c hmem

end Format

namespace Printf.Directive

open Format

variable (d : Directive)

/-- The specification that the options of a conversion write. There is none for a number that is
too large or is written in other digits than ASCII. -/
def spec? : Option Format.Spec := do
  let width ← number? maxWidth d.width
  let precision ← d.precision.mapM (number? maxPrecision)
  some { withFlags d.allFlags with width, precision }

theorem eq_zero_of_isFlag {p : CodePoint} (hflag : Format.isFlag p = true)
    (hp : isDecimalPoint p = true) : p = CodePoint.ofChar '0' := by
  simp only [Format.isFlag, Bool.or_eq_true, beq_iff_eq] at hflag
  rcases hflag with (((rfl | rfl) | rfl) | rfl) | rfl
  · revert hp; decide
  · revert hp; decide
  · revert hp; decide
  · revert hp; decide
  · rfl

/-- Zeros in front do not change a number. -/
theorem number?_bareWidth (limit : Nat) : number? limit d.bareWidth = number? limit d.width := by
  have hdigits := d.isWidth
  rw [bareWidth]
  generalize d.width = width at hdigits ⊢
  induction width with
  | nil => rfl
  | cons p width ih =>
    by_cases hflag : Format.isFlag p = true
    · have hp := eq_zero_of_isFlag hflag (hdigits p List.mem_cons_self)
      have hnumber : number? limit (p :: width) = number? limit width := by
        have hzero : isDigit (CodePoint.ofChar '0') = true := by decide
        simp [hp, number?, digitsValue, hzero, CodePoint.char?_ofChar]
      rw [List.dropWhile_cons_of_pos hflag, ih fun q hq => hdigits q (List.mem_cons_of_mem _ hq),
        hnumber]
    · rw [List.dropWhile_cons_of_neg hflag]

variable {rest : Text}

theorem head_ne_point (hd : d.precision = none) (hrest : Behind rest) :
    ((d.precisionPart ++ rest).head? == some (CodePoint.ofChar '.')) = false := by
  rw [precisionPart, hd, Option.elim_none, List.nil_append, beq_eq_false_iff_ne]
  exact fun hp => (hrest _ hp).2.2.1 rfl

/-- The options are read, or the scan stops in front of the letter. -/
theorem spec_options (hrest : Behind rest) (supply : Supply) :
    (∃ s, d.spec? = some s ∧ spec supply (d.options ++ rest) = pure (s, supply, rest)) ∨
    d.spec? = none ∧ Unread supply (spec supply (d.options ++ rest)) := by
  have hwidth := measure_digits maxWidth supply d.isDecimalPoint_bareWidth fun p hp =>
    (d.head_precision hrest p hp).2
  rw [number?_bareWidth, ← d.dropWhile_options hrest] at hwidth
  rcases hwidth with ⟨n, hn, m, hm, hmeasure⟩ | ⟨hn, hstop⟩
  · rw [spec_of_measure hm hmeasure, d.takeWhile_options hrest]
    cases hd : d.precision with
    | none =>
      rw [d.head_ne_point hd hrest]
      refine .inl ⟨{ withFlags d.allFlags with width := n }, by simp [spec?, hn, hd, withFlags], ?_⟩
      simp [precisionPart, hd]
    | some digits =>
      rw [precisionPart, hd, Option.elim_some, List.cons_append, List.head?_cons, if_pos (by simp),
        List.tail_cons]
      rcases measure_digits maxPrecision supply (d.isPrecision digits hd).2
        fun p hp => ⟨(hrest p hp).2.1, (hrest p hp).2.2.2⟩ with
        ⟨places, hplaces, k, hk, hprecision⟩ | ⟨hplaces, hstop⟩
      · refine .inl ⟨{ withFlags d.allFlags with width := n, precision := some places },
          by simp [spec?, hn, hd, hplaces], ?_⟩
        rw [hprecision, pure_bind, hk, Int.toNat_natCast]
      · refine .inr ⟨by simp [spec?, hn, hd, hplaces], ?_⟩
        rcases hstop with hstop | ⟨k, p, more, hp, hstop⟩
        · exact .inl (by rw [hstop]; rfl)
        · exact .inr ⟨_, p, more, hp, by rw [hstop]; rfl⟩
  · refine .inr ⟨by rw [spec?, hn]; rfl, ?_⟩
    rcases hstop with hstop | ⟨m, p, more, hp, hstop⟩
    · exact .inl (by rw [spec, hstop]; rfl)
    · have hpoint : ((p :: more).head? == some (CodePoint.ofChar '.')) = false := by
        rw [beq_eq_false_iff_ne]
        rintro ⟨⟩
        exact absurd hp.1 (by decide)
      right
      simp only [spec, hstop, pure_bind, hpoint]
      exact ⟨_, p, more, hp, rfl⟩

theorem not_mem_options : CodePoint.ofChar '%' ∉ d.options := by
  have hdecimal : isDecimalPoint (CodePoint.ofChar '%') = false := by decide
  rw [options, List.mem_append, List.mem_append]
  rintro (hmem | hmem | hmem)
  · exact absurd (d.isFlag _ hmem) (by decide)
  · exact absurd (d.isWidth _ hmem) (by simp [hdecimal])
  · cases hd : d.precision with
    | none => simp [precisionPart, hd] at hmem
    | some digits =>
      rw [precisionPart, hd, Option.elim_some, List.mem_cons] at hmem
      rcases hmem with hpoint | hmem
      · exact absurd hpoint (by decide)
      · exact absurd ((d.isPrecision digits hd).2 _ hmem) (by simp [hdecimal])

theorem head_options {c : Char} (hc : c ≠ '%') :
    (d.options ++ [CodePoint.ofChar c]).head? ≠ some (CodePoint.ofChar '%') := by
  intro hhead
  have hmem := List.mem_of_mem_head? hhead
  rw [List.mem_append, List.mem_singleton] at hmem
  rcases hmem with hmem | hmem
  · exact d.not_mem_options hmem
  · exact hc (CodePoint.ofChar_injective hmem.symm)

/-- A value written by the options and a letter. -/
theorem write_options (h : Heap) {c : Char} (hc : c ∈ letters) (hpercent : c ≠ '%') {v : Value}
    (hv : ∀ cell, v ≠ .list cell) :
    write h d.options c v = orUndefined d.spec? >>= fun s => conversion h s c v := by
  have hmarks : letters.all (fun c => !([CodePoint.ofChar 'h', CodePoint.ofChar 'l',
      CodePoint.ofChar 'L'].contains (CodePoint.ofChar c))) = true := by decide
  have hforeign : [CodePoint.ofChar 'h', CodePoint.ofChar 'l', CodePoint.ofChar 'L'].all
      (!isDecimalPoint ·) = true := by decide
  have hpercent := d.head_options hpercent
  have hfill : write h d.options c v =
      Format.fill h false ((d.options ++ [CodePoint.ofChar c]).length + 2) [] ⟨v, true⟩
        (CodePoint.ofChar '%' :: (d.options ++ [CodePoint.ofChar c])) := by
    cases v with
    | list cell => exact absurd rfl (hv cell)
    | _ => rfl
  rw [hfill]
  rcases d.spec_options (behind_letter hc []) ⟨v, true⟩ with ⟨s, hs, hspec⟩ | ⟨hs, hstop | hstop⟩
  · have hmark := List.all_eq_true.1 hmarks c hc
    rw [fill_conversion h false _ v hpercent hspec (by simpa using hmark)
      (CodePoint.char?_ofChar c), hs]
    simp [orUndefined, Format.fill]
  · rw [fill_undefined h false _ v hpercent hstop, hs]
    rfl
  · obtain ⟨s, p, more, hp, hstop⟩ := hstop
    obtain ⟨c, hc, hundefined⟩ := conversion_foreign h s v hp
    rw [fill_conversion h false _ v hpercent hstop ?_ hc, hundefined, hs]
    · rfl
    · intro hmem
      have := List.all_eq_true.1 hforeign p hmem
      simp [hp.1] at this

/-- What a conversion makes of a value, by its letter. -/
def written (h : Heap) (v : Value) : Except Fault Text :=
  if d.letter ∈ ['d', 'i', 'u'] then do
    let n ← v.toInt
    ofChars <$> Format.integer (← orUndefined d.spec?) 'd' n
  else if d.letter ∈ ['x', 'X'] then do
    let n ← v.toInt
    ofChars <$> Format.integer (← orUndefined d.spec?) d.letter n
  else if d.letter = 's' then do
    let t ← Braced.display h v
    Format.text (← orUndefined d.spec?) t
  else if d.letter = 'c' then
    v.int?.elim (List.take 1 <$> Indented.display h v) fun n =>
      ([·]) <$> orUndefined (CodePoint.ofInt? n)
  else do
    let x ← v.toFloat
    ofChars <$> Format.float (← orUndefined d.spec?) d.letter x

/-- Every letter is of one of the sorts that `written` tells apart. -/
theorem letters_sorted : letters.all (fun c => c ∈ ['d', 'i', 'u'] || c ∈ ['x', 'X'] || c = 's' ||
    c = 'c' || c = '%' || c ∈ "eEfFgG".toList) = true := by
  decide

/-- A conversion writes what its specification asks for. -/
theorem convert_eq (h : Heap) (hpercent : d.letter ≠ '%') (v : Value) :
    convert h ⟨d.options, d.letter⟩ v = d.written h v := by
  have hletter := d.isLetter
  unfold convert written
  dsimp only
  by_cases hdecimal : d.letter ∈ ['d', 'i', 'u']
  · rw [if_pos hdecimal, if_pos (by simpa [or_assoc] using hdecimal)]
    refine bind_congr fun n => ?_
    rw [d.write_options h (by decide) (by decide) (by simp)]
    exact bind_congr fun s => conversion_decimal h s n
  rw [if_neg hdecimal, if_neg (by simpa [or_assoc] using hdecimal)]
  by_cases hhex : d.letter ∈ ['x', 'X']
  · rw [if_pos hhex, if_pos (by simpa using hhex)]
    refine bind_congr fun n => ?_
    rw [d.write_options h hletter hpercent (by simp)]
    exact bind_congr fun s => conversion_hex h s hhex n
  rw [if_neg hhex, if_neg (by simpa using hhex)]
  by_cases htext : d.letter = 's'
  · rw [if_pos htext, if_pos (by simpa using htext)]
    refine bind_congr fun t => ?_
    rw [d.write_options h (by decide) (by decide) (by simp)]
    exact bind_congr fun s => conversion_text h s t
  rw [if_neg htext, if_neg (by simpa using htext)]
  by_cases hchar : d.letter = 'c'
  · rw [if_pos hchar, if_pos (by simpa using hchar)]
    cases v.int? with
    | none => rfl
    | some n =>
      dsimp only [Option.elim_some]
      cases CodePoint.ofInt? n <;> rfl
  rw [if_neg hchar, if_neg (by simpa using hchar)]
  refine bind_congr fun x => ?_
  rw [d.write_options h hletter hpercent (by simp)]
  refine bind_congr fun s => conversion_float h s ?_ x
  have hall := List.all_eq_true.1 letters_sorted d.letter hletter
  simpa only [Bool.or_eq_true, decide_eq_true_eq, hdecimal, hhex, htext, hchar, hpercent,
    false_or] using hall

end Printf.Directive

/-! ### Faults that a conversion recovers from -/

section Recoverable

variable {α : Type}

/-- All faults of a computation are such that an expression recovers from them. -/
abbrev Recoverable (x : Except Fault α) : Prop :=
  FaultsIn (fun fault => fault.isRecoverable = true) x

@[simp] theorem isRecoverable_undefined : Fault.isRecoverable .undefined = true := rfl

@[simp] theorem isRecoverable_tooManyDigits : Fault.isRecoverable .tooManyDigits = true := rfl

@[simp] theorem isRecoverable_tooLarge : Fault.isRecoverable .tooLarge = true := rfl

@[simp] theorem recoverable_intText (n : Int) : Recoverable (intText n) :=
  faultsIn_intText isRecoverable_tooManyDigits n

@[simp] theorem recoverable_orUndefined (x : Option α) : Recoverable (Format.orUndefined x) := by
  cases x <;> simp [Format.orUndefined]

@[simp] theorem recoverable_num (v : Value) : Recoverable v.num := by
  unfold Value.num
  split <;> simp

@[simp] theorem recoverable_toInt (v : Value) : Recoverable v.toInt := by
  have htruncate : ∀ a : Scalar, Recoverable a.truncate := by
    intro a
    unfold Scalar.truncate
    split
    · simp
    · split <;> simp
    · simp
  have hread : ∀ text, Recoverable (readInt text) := by
    intro text
    unfold readInt
    split <;> simp
  unfold Value.toInt
  split
  · split <;> simp [hread]
  · simp [htruncate]

@[simp] theorem recoverable_toFloat (v : Value) : Recoverable v.toFloat := by
  have hfloat : ∀ a : Scalar, Recoverable a.toFloat := by
    intro a
    cases a <;> simp [Scalar.toFloat, intToFloat]
  unfold Value.toFloat
  split
  · split <;> simp
  · simp [hfloat]

@[simp] theorem recoverable_display (h : Heap) (v : Value) :
    Recoverable (Indented.display h v) := by
  unfold Indented.display
  split
  · simp
  · exact Indented.faultsIn_literal isRecoverable_tooManyDigits h _ _ _

namespace Format

/-- What the specification asks for can be held. -/
def Spec.Held (s : Spec) : Prop := s.width ≤ maxLength ∧ ∀ n ∈ s.precision, n ≤ maxLength

instance (s : Spec) : Decidable s.Held := inferInstanceAs (Decidable (_ ∧ _))

variable {s : Spec}

theorem recoverable_missing (hs : s.Held) (length : Nat) : Recoverable (missing s length) := by
  rw [missing, if_neg (by have := hs.1; omega)]
  exact FaultsIn.pure _

theorem recoverable_places (hs : s.Held) {default : Nat} (hdefault : default ≤ maxLength)
    (allowed : Nat) : Recoverable (places s default allowed) := by
  have hheld : s.precision.getD default ≤ maxLength := by
    cases hp : s.precision with
    | none => exact hdefault
    | some n => exact hs.2 n hp
  simp [places, hheld]

theorem recoverable_padNumber (hs : s.Held) (text : List Char) :
    Recoverable (padNumber s text) := by
  simp [padNumber, recoverable_missing hs]

theorem recoverable_integer (hs : s.Held) (letter : Char) (n : Int) :
    Recoverable (integer s letter n) := by
  simp [integer, recoverable_places hs, recoverable_padNumber hs]

theorem recoverable_finite (hs : s.Held) (letter : Char) (d : Number.Dyadic) :
    Recoverable (finite s letter d) := by
  have hplaces := recoverable_places hs (show 6 ≤ maxLength by decide) maxPrecision
  simp [finite, hplaces]

theorem recoverable_float (hs : s.Held) (letter : Char) (x : Float) :
    Recoverable (float s letter x) := by
  unfold float
  split <;> split <;> simp [recoverable_finite hs, recoverable_padNumber hs]

theorem recoverable_text (hs : s.Held) (t : Text) : Recoverable (text s t) := by
  simp [text, padText, recoverable_missing hs]

end Format

namespace Printf.Directive

variable (d : Directive)

/-- What the options of a conversion ask for is refused or can be held. -/
def Held : Prop := ∀ s ∈ d.spec?, s.Held

instance : Decidable d.Held := inferInstanceAs (Decidable (∀ s ∈ d.spec?, s.Held))

/-- A value that can be shown is written, or has a fault that an expression recovers from. -/
theorem recoverable_written (hd : d.Held) {h : Heap} {v : Value} {t : Text}
    (hv : Braced.display h v = .ok t) : Recoverable (d.written h v) := by
  have hspec : ∀ {α : Type} {f : Format.Spec → Except Fault α},
      (∀ s, s.Held → Recoverable (f s)) → Recoverable (Format.orUndefined d.spec? >>= f) := by
    intro α f hf
    cases hs : d.spec? with
    | none => exact (FaultsIn.throw_iff _).2 rfl
    | some s => exact hf s (hd s hs)
  unfold written
  split_ifs
  · refine (FaultsIn.bind_iff _ _).2 ⟨recoverable_toInt v, fun n _ => hspec fun s hs => ?_⟩
    exact (FaultsIn.map_iff _ _).2 (Format.recoverable_integer hs _ n)
  · refine (FaultsIn.bind_iff _ _).2 ⟨recoverable_toInt v, fun n _ => hspec fun s hs => ?_⟩
    exact (FaultsIn.map_iff _ _).2 (Format.recoverable_integer hs _ n)
  · rw [hv]
    exact hspec fun s hs => Format.recoverable_text hs t
  · cases v.int? <;> simp
  · refine (FaultsIn.bind_iff _ _).2 ⟨recoverable_toFloat v, fun x _ => hspec fun s hs => ?_⟩
    exact (FaultsIn.map_iff _ _).2 (Format.recoverable_float hs _ x)

end Printf.Directive

end Recoverable

namespace Printf.Directive

/-- What a conversion contributes: what it makes of the value, or the display of a value that it
does not fit. -/
def contribution (d : Directive) (h : Heap) (v : Value) : Except Fault Text :=
  (d.written h v).tryCatch fun fault =>
    if fault.isRecoverable then Braced.display h v else throw fault

theorem substitute_eq (d : Directive) (h : Heap) (hpercent : d.letter ≠ '%') (v : Value) :
    substitute h ⟨d.options, d.letter⟩ v = d.contribution h v := by
  rw [substitute, d.convert_eq h hpercent, contribution]
  cases d.written h v <;> rfl

/-- A conversion that can be held contributes a text for every value that can be displayed. -/
theorem exists_contribution {d : Directive} (hd : d.Held) {h : Heap} {v : Value}
    (hv : ∃ t, Braced.display h v = .ok t) : ∃ t, d.contribution h v = .ok t := by
  obtain ⟨t, ht⟩ := hv
  cases hwritten : d.written h v with
  | ok shown => exact ⟨shown, by rw [contribution, hwritten]; rfl⟩
  | error fault =>
    have hfault := d.recoverable_written hd ht fault hwritten
    refine ⟨t, ?_⟩
    rw [contribution, hwritten, Except.tryCatch, if_pos hfault, ht]

end Printf.Directive

end Stepwise
