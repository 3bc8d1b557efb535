import Mathlib.Data.List.Basic
import Mathlib.Tactic.IntervalCases
import Stepwise.Expr.Parser
import Stepwise.Proofs.Texts

/-!
# Numerals

A number token is digits with at most one point, then an exponent, then letters that say nothing
about its value (`Token.number?_shape`). Every such text without the letters is read: as a float if
it has a point or an exponent (`readFloat?_isSome`), and otherwise as an integer unless it has too
many digits (`readInt_decimals`).
-/

namespace Stepwise

open Text

namespace Text

variable {c : Char}

theorem digitValue?_lt {v : Nat} (h : digitValue? c = some v) : v < 10 := by
  unfold digitValue? at h
  split_ifs at h with hd
  · simp only [Char.isDigit, Bool.and_eq_true, decide_eq_true_eq, UInt32.le_iff_toNat_le] at hd
    cases h
    have h9 : c.toNat ≤ 57 := hd.2
    omega
  · obtain ⟨z, hz, rfl⟩ := Option.map_eq_some_iff.1 h
    have := List.find?_some hz
    simp only [Bool.and_eq_true, decide_eq_true_eq] at this
    omega

/-- A digit is at most nine places behind a zero. -/
theorem exists_zero_of_isDecimal (h : isDecimal c = true) :
    ∃ z ∈ digitZeros, z ≤ c.toNat ∧ c.toNat < z + 10 := by
  obtain ⟨v, hv⟩ := Option.isSome_iff_exists.1 h
  unfold digitValue? at hv
  split_ifs at hv with hd
  · simp only [Char.isDigit, Bool.and_eq_true, decide_eq_true_eq, UInt32.le_iff_toNat_le] at hd
    have h0 : 48 ≤ c.toNat := hd.1
    have h9 : c.toNat ≤ 57 := hd.2
    exact ⟨48, by decide, h0, by omega⟩
  · obtain ⟨z, hz, -⟩ := Option.map_eq_some_iff.1 hv
    have hin := List.find?_some hz
    simp only [Bool.and_eq_true, decide_eq_true_eq] at hin
    exact ⟨z, List.mem_of_find?_eq_some hz, hin⟩

/-- No digit is blank. -/
theorem isBlank_of_isDecimal (h : isDecimal c = true) : isBlank c = false := by
  have hzeros : ∀ z ∈ digitZeros, ∀ r ∈ blankRanges, r.2 < z ∨ z + 10 ≤ r.1 := by
    decide +kernel
  obtain ⟨z, hz, hle, hlt⟩ := exists_zero_of_isDecimal h
  rw [← Bool.not_eq_true, isBlank, inRanges, List.any_eq_true]
  rintro ⟨r, hr, hin⟩
  simp only [Bool.and_eq_true, decide_eq_true_eq] at hin
  have := hzeros z hz r hr
  omega

theorem isDecimal_of_isDigit (h : c.isDigit = true) : isDecimal c = true := by
  rw [isDecimal, digitValue?, if_pos h]
  rfl

end Text

namespace Number

variable {text : List Char} {c : Char}

theorem isMargin_of_isDecimal (h : isDecimal c = true) : isMargin c = false := by
  rw [isMargin, isBlank_of_isDecimal h, Bool.false_and]

theorem isDigit_digitChar {v : Nat} (h : v < 10) : (Nat.digitChar v).isDigit = true := by
  interval_cases v <;> rfl

theorem digitChar_sub {c : Char} (h : c.isDigit = true) : Nat.digitChar (c.toNat - 48) = c := by
  simp only [Char.isDigit, Bool.and_eq_true, decide_eq_true_eq, UInt32.le_iff_toNat_le] at h
  have h0 : 48 ≤ c.toNat := h.1
  have h9 : c.toNat ≤ 57 := h.2
  apply Char.toNat_inj.1
  rw [Nat.toNat_digitChar_of_lt_ten (by omega)]
  omega

theorem plainDigits_append (front rest : List Char) :
    plainDigits (front ++ rest) = plainDigits front ++ plainDigits rest :=
  List.map_append

theorem plainDigits_cons (h : isDecimal c = false) :
    plainDigits (c :: text) = c :: plainDigits text := by
  have hc : digitValue? c = none := Option.not_isSome_iff_eq_none.1 (by rw [← isDecimal, h]; simp)
  simp only [plainDigits, List.map_cons, hc]

/-- Decimal digits become ASCII digits. -/
theorem isDigit_of_mem_plainDigits (h : ∀ c ∈ text, isDecimal c = true) :
    ∀ d ∈ plainDigits text, d.isDigit = true := by
  intro d hd
  obtain ⟨c, hc, rfl⟩ := List.mem_map.1 hd
  obtain ⟨v, hv⟩ := Option.isSome_iff_exists.1 (h c hc)
  rw [hv]
  exact isDigit_digitChar (digitValue?_lt hv)

theorem plainDigits_ne_nil (h : text ≠ []) : plainDigits text ≠ [] := by
  simpa [plainDigits] using h

/-- ASCII digits stay as they are. -/
theorem plainDigits_eq (h : ∀ c ∈ text, c.isDigit = true) : plainDigits text = text := by
  refine (List.map_congr_left fun c hc => ?_).trans (List.map_id text)
  rw [digitValue?, if_pos (h c hc)]
  exact digitChar_sub (h c hc)

theorem dropUnderscores_eq : ∀ {text : List Char} (before : Char), '_' ∉ text →
    dropUnderscores before text = some text
  | [], _, _ => rfl
  | c :: text, before, h => by
    rw [List.mem_cons, not_or] at h
    rw [dropUnderscores, dropUnderscores_eq c h.2]
    · rfl
    · exact fun d rest hc => absurd hc.symm h.1
    · exact fun hc => absurd hc.symm h.1

/-- A digit, or another character that a number can be written with. -/
def isNumeric (c : Char) : Bool :=
  isDecimal c || c == '.' || c == 'e' || c == 'E' || c == '+' || c == '-'

theorem isMargin_of_isNumeric (h : isNumeric c = true) : isMargin c = false := by
  simp only [isNumeric, Bool.or_eq_true, beq_iff_eq] at h
  rcases h with ((((h | rfl) | rfl) | rfl) | rfl) | rfl
  · exact isMargin_of_isDecimal h
  all_goals rfl

theorem not_mem_plainDigits (h : ∀ c ∈ text, isNumeric c = true) : '_' ∉ plainDigits text := by
  intro hmem
  obtain ⟨c, hc, heq⟩ := List.mem_map.1 hmem
  split at heq
  · rename_i v hv
    have hd := isDigit_digitChar (digitValue?_lt hv)
    rw [heq] at hd
    cases hd
  · subst heq
    cases h _ hc

theorem dropWhile_eq_self {p : Char → Bool} (h : ∀ c ∈ text, p c = false) :
    text.dropWhile p = text := by
  cases text with
  | nil => rfl
  | cons c text => rw [List.dropWhile_cons_of_neg (by rw [h c List.mem_cons_self]; simp)]

theorem normalize_eq (h : ∀ c ∈ text, isNumeric c = true) :
    normalize text = some (plainDigits text) := by
  have hm : ∀ c ∈ text, isMargin c = false := fun c hc => isMargin_of_isNumeric (h c hc)
  have ht : trimMargin text = text := by
    rw [trimMargin, dropWhile_eq_self hm,
      dropWhile_eq_self fun c hc => hm c (List.mem_reverse.1 hc), List.reverse_reverse]
  rw [normalize, ht, dropUnderscores_eq ' ' (not_mem_plainDigits h)]

theorem takeSign_eq (hm : c ≠ '-') (hp : c ≠ '+') : takeSign (c :: text) = (false, c :: text) := by
  rw [takeSign]
  · exact fun rest h => hm (List.cons.inj h).1
  · exact fun rest h => hp (List.cons.inj h).1

theorem isNumeric_of_isDecimal (h : isDecimal c = true) : isNumeric c = true := by
  simp [isNumeric, h]

/-- Digits are read as an integer unless there are too many of them. -/
theorem readInt_decimals (hne : text ≠ []) (h : ∀ c ∈ text, isDecimal c = true) :
    readInt text =
      if maxDigits < text.length then .error .tooManyDigits
      else .ok (digitsValue (plainDigits text)) := by
  have hd := isDigit_of_mem_plainDigits h
  have hlen : (plainDigits text).length = text.length := List.length_map _
  rw [readInt, normalize_eq fun c hc => isNumeric_of_isDecimal (h c hc)]
  dsimp only
  obtain ⟨d, ds, hds⟩ := List.exists_cons_of_ne_nil (plainDigits_ne_nil hne)
  rw [hds] at hd hlen ⊢
  have hdigit := hd d List.mem_cons_self
  rw [takeSign_eq (by rintro rfl; cases hdigit) (by rintro rfl; cases hdigit)]
  dsimp only
  rw [if_neg (by simpa using hd), hlen]
  rfl

/-- The decimal digits of a number are read as that number unless there are too many of them. -/
theorem readInt_toDigits (n : Nat) :
    readInt (Nat.toDigits 10 n) =
      if maxDigits < (Nat.toDigits 10 n).length then .error .tooManyDigits else .ok n := by
  have hd : ∀ c ∈ Nat.toDigits 10 n, c.isDigit = true := fun c hc =>
    Nat.isDigit_of_mem_toDigits (by decide) (by decide) hc
  rw [readInt_decimals Nat.toDigits_ne_nil fun c hc => isDecimal_of_isDigit (hd c hc),
    plainDigits_eq hd]
  have hvalue : digitsValue (Nat.toDigits 10 n) = n :=
    Nat.ofDigitChars_eq_foldl.symm.trans Nat.ofDigitChars_ten_toDigits
  rw [hvalue]

/-- Digits with at most one point. -/
inductive Mantissa : List Char → Prop
  | whole {digits : List Char} : digits ≠ [] → (∀ c ∈ digits, isDecimal c = true) →
    Mantissa digits
  | point {digits fraction : List Char} : digits ≠ [] ∨ fraction ≠ [] →
    (∀ c ∈ digits, isDecimal c = true) → (∀ c ∈ fraction, isDecimal c = true) →
    Mantissa (digits ++ '.' :: fraction)

/-- Nothing, or an exponent mark with digits and perhaps a sign. -/
inductive Exponent : List Char → Prop
  | none : Exponent []
  | scaled {mark : Char} {sign digits : List Char} : mark = 'e' ∨ mark = 'E' →
    sign = [] ∨ sign = ['+'] ∨ sign = ['-'] → digits ≠ [] → (∀ c ∈ digits, isDecimal c = true) →
    Exponent (mark :: (sign ++ digits))

theorem Mantissa.isNumeric (h : Mantissa text) : ∀ c ∈ text, isNumeric c = true := by
  cases h with
  | whole _ hd => exact fun c hc => isNumeric_of_isDecimal (hd c hc)
  | point _ hd hf =>
    intro c hc
    rcases List.mem_append.1 hc with hc | hc
    · exact isNumeric_of_isDecimal (hd c hc)
    · rcases List.mem_cons.1 hc with rfl | hc
      · rfl
      · exact isNumeric_of_isDecimal (hf c hc)

theorem Exponent.isNumeric (h : Exponent text) : ∀ c ∈ text, isNumeric c = true := by
  cases h with
  | none => exact fun c hc => by cases hc
  | scaled hmark hsign _ hd =>
    intro c hc
    rcases List.mem_cons.1 hc with rfl | hc
    · rcases hmark with rfl | rfl <;> rfl
    · rcases List.mem_append.1 hc with hc | hc
      · rcases hsign with rfl | rfl | rfl
        · cases hc
        · cases List.mem_singleton.1 hc
          rfl
        · cases List.mem_singleton.1 hc
          rfl
      · exact isNumeric_of_isDecimal (hd c hc)

/-- A run of digits ends where a character that is no digit follows. -/
theorem span_isDigit {digits rest : List Char} (hd : ∀ c ∈ digits, c.isDigit = true)
    (hr : ∀ c ∈ rest.head?, c.isDigit = false) :
    (digits ++ rest).takeWhile Char.isDigit = digits ∧
      (digits ++ rest).dropWhile Char.isDigit = rest :=
  ⟨takeWhile_exact hd hr, dropWhile_exact hd hr⟩

theorem readExponent_isSome (h : Exponent text) : (readExponent (plainDigits text)).isSome := by
  cases h with
  | none => rfl
  | @scaled mark sign digits hmark hsign hne hd =>
    have hplain := isDigit_of_mem_plainDigits hd
    obtain ⟨d, ds, hds⟩ := List.exists_cons_of_ne_nil (plainDigits_ne_nil hne)
    have htake : ∃ neg, takeSign (plainDigits (sign ++ digits)) = (neg, plainDigits digits) := by
      rw [plainDigits_append]
      rcases hsign with rfl | rfl | rfl
      · have hdigit := hplain d (hds ▸ List.mem_cons_self)
        show ∃ neg, takeSign (plainDigits digits) = _
        rw [hds]
        exact ⟨false, takeSign_eq (by rintro rfl; cases hdigit) (by rintro rfl; cases hdigit)⟩
      · exact ⟨false, rfl⟩
      · exact ⟨true, rfl⟩
    obtain ⟨neg, htake⟩ := htake
    rw [plainDigits_cons (by rcases hmark with rfl | rfl <;> rfl), readExponent,
      if_pos (by rcases hmark with rfl | rfl <;> rfl), htake]
    dsimp only
    rw [if_neg (by simpa [plainDigits_ne_nil hne] using hplain)]
    rfl

theorem head?_plainDigits_exponent (h : Exponent text) :
    ∀ c ∈ (plainDigits text).head?, c = 'e' ∨ c = 'E' := by
  cases h with
  | none => exact fun c hc => by cases hc
  | scaled hmark =>
    rw [plainDigits_cons (by rcases hmark with rfl | rfl <;> rfl)]
    exact fun c hc => by cases hc; exact hmark

theorem readDecimal_isSome {m e : List Char} (hm : Mantissa m) (he : Exponent e) (neg : Bool) :
    (readDecimal neg (plainDigits (m ++ e))).isSome := by
  have hexp := readExponent_isSome he
  have hhead := head?_plainDigits_exponent he
  have hnot : ∀ c ∈ (plainDigits e).head?, c.isDigit = false := by
    intro c hc
    rcases hhead c hc with rfl | rfl <;> rfl
  rw [plainDigits_append]
  generalize plainDigits e = rest at hexp hhead hnot
  cases hm with
  | whole hne hd =>
    obtain ⟨hwhole, hrest⟩ := span_isDigit (isDigit_of_mem_plainDigits hd) hnot
    have hempty := plainDigits_ne_nil hne
    unfold readDecimal
    rw [hwhole, hrest]
    cases rest with
    | nil => simpa [hempty] using hexp
    | cons c rest =>
      rcases hhead c rfl with rfl | rfl <;> simpa [hempty] using hexp
  | @point digits fraction hne hd hf =>
    obtain ⟨hfraction, hrest⟩ := span_isDigit (isDigit_of_mem_plainDigits hf) hnot
    have hpoint : ∀ c ∈ ('.' :: (plainDigits fraction ++ rest)).head?, c.isDigit = false :=
      fun c hc => by cases hc; rfl
    obtain ⟨hwhole, htail⟩ := span_isDigit (isDigit_of_mem_plainDigits hd) hpoint
    have hempty : ¬ (plainDigits digits = [] ∧ plainDigits fraction = []) := by
      rintro ⟨h1, h2⟩
      rcases hne with hne | hne
      · exact plainDigits_ne_nil hne h1
      · exact plainDigits_ne_nil hne h2
    rw [plainDigits_append, plainDigits_cons rfl, List.append_assoc, List.cons_append]
    unfold readDecimal
    rw [hwhole, htail]
    simpa [hfraction, hrest, hempty] using hexp

theorem head_plainDigits_mantissa {m : List Char} (h : Mantissa m) :
    ∃ c text, plainDigits m = c :: text ∧ (c.isDigit = true ∨ c = '.') := by
  have hdigits : ∀ {digits : List Char}, digits ≠ [] → (∀ c ∈ digits, isDecimal c = true) →
      ∃ c text, plainDigits digits = c :: text ∧ (c.isDigit = true ∨ c = '.') := by
    intro digits hne hd
    obtain ⟨c, text, hc⟩ := List.exists_cons_of_ne_nil (plainDigits_ne_nil hne)
    exact ⟨c, text, hc, .inl (isDigit_of_mem_plainDigits hd c (hc ▸ List.mem_cons_self))⟩
  cases h with
  | whole hne hd => exact hdigits hne hd
  | @point digits fraction _ hd _ =>
    rw [plainDigits_append]
    by_cases hne : digits = []
    · subst hne
      exact ⟨'.', plainDigits fraction, by rw [plainDigits_cons rfl]; rfl, .inr rfl⟩
    · obtain ⟨c, text, hc, hdigit⟩ := hdigits hne hd
      exact ⟨c, _, by rw [hc, List.cons_append], hdigit⟩

/-- What begins with a digit or a point is not the name of a number. -/
theorem ofList_toLower_ne {name : String} (hname : name.toList.head?.any Char.isAlpha = true)
    (hc : c.isDigit = true ∨ c = '.') :
    (String.ofList ((c :: text).map Char.toLower) == name) = false := by
  have hlower : c.toLower.isAlpha = false := by
    rcases hc with hc | rfl
    · rw [← digitChar_sub hc]
      have hlt : c.toNat - 48 < 10 := digitValue?_lt (c := c) (by rw [digitValue?, if_pos hc])
      generalize c.toNat - 48 = v at hlt
      interval_cases v <;> rfl
    · rfl
  refine beq_false_of_ne fun h => ?_
  rw [← h, String.toList_ofList, List.map_cons, List.head?_cons, Option.any_some, hlower] at hname
  cases hname

/-- Every number with a point or an exponent is read as a float. -/
theorem readFloat?_isSome {m e : List Char} (hm : Mantissa m) (he : Exponent e) :
    (readFloat? (m ++ e)).isSome := by
  have hn : ∀ c ∈ m ++ e, isNumeric c = true := fun c hc =>
    (List.mem_append.1 hc).elim (hm.isNumeric c) (he.isNumeric c)
  obtain ⟨c, text, hc, hdigit⟩ := head_plainDigits_mantissa hm
  have hdecimal := readDecimal_isSome hm he false
  rw [readFloat?, normalize_eq hn, Option.bind_some]
  rw [plainDigits_append, hc, List.cons_append] at hdecimal ⊢
  rw [takeSign_eq (by rintro rfl; rcases hdigit with h | h <;> cases h)
    (by rintro rfl; rcases hdigit with h | h <;> cases h)]
  dsimp only
  rw [ofList_toLower_ne rfl hdigit, ofList_toLower_ne rfl hdigit, ofList_toLower_ne rfl hdigit]
  exact hdecimal

end Number

namespace Token

open Number

variable {dialect : Dialect} {text lexeme rest : List Char}

theorem isDecimal_of_spanDigits {digits : List Char} (h : spanDigits text = (digits, rest)) :
    ∀ c ∈ digits, isDecimal c = true := by
  cases h
  exact List.all_eq_true.1 List.all_takeWhile

theorem mantissa?_shape {m : List Char} (h : mantissa? text = some (m, rest)) : Mantissa m := by
  unfold mantissa? at h
  split at h
  · split at h
    · cases h
    · rename_i tail _ fraction rest' hne hspan
      cases h
      exact @Mantissa.point [] _ (.inr hne) (List.forall_mem_nil _) (isDecimal_of_spanDigits hspan)
  · cases h
  · rename_i whole tail hne hspan
    have hm : m = whole ++ '.' :: tail.takeWhile isDecimal := by
      cases h
      exact List.append_assoc _ _ _
    rw [hm]
    exact .point (.inl hne) (isDecimal_of_spanDigits hspan) (List.all_eq_true.1 List.all_takeWhile)
  · rename_i whole tail _ hne _ hspan
    cases h
    exact .whole hne (isDecimal_of_spanDigits hspan)

theorem exponent_shape (text : List Char) : Exponent (exponent text).1 := by
  unfold exponent
  split
  · split_ifs with hmark
    · split
      rename_i sign digits hsign
      split
      · exact .none
      · rename_i ds rest hne hspan
        refine .scaled (by simpa using hmark) ?_ hne (isDecimal_of_spanDigits hspan)
        split at hsign <;> cases hsign <;> simp
    · exact .none
  · exact .none

/-- A number is digits with at most one point, then an exponent, then letters. -/
theorem number?_shape (h : number? dialect text = some (lexeme, rest)) :
    ∃ m e suffix, lexeme = m ++ e ++ suffix ∧ Mantissa m ∧ Exponent e ∧
      ∀ c ∈ suffix, isNumberSuffix c = true := by
  obtain ⟨⟨m, tail⟩, hm, h⟩ := Option.map_eq_some_iff.1 h
  dsimp only at h
  cases dialect with
  | indented =>
    cases h
    exact ⟨m, (exponent tail).1, [], (List.append_nil _).symm, mantissa?_shape hm,
      exponent_shape tail, List.forall_mem_nil _⟩
  | braced =>
    cases h
    exact ⟨m, (exponent tail).1, _, rfl, mantissa?_shape hm, exponent_shape tail,
      List.all_eq_true.1 List.all_takeWhile⟩

end Token

end Stepwise
