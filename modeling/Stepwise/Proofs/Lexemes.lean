import Stepwise.Proofs.TokenCuts

/-!
# The lexemes of the dialects

`Lexeme` says which texts are tokens of each kind, apart from how they are found. The reader of a
kind takes the longest lexeme of that kind off the front of a text, and fails only where there is
none (`Munches`). The kinds are tried in a fixed order, so the token at the front of a text is the
longest lexeme of the first kind that has one there (`first?_eq_some_iff`).
-/

namespace Stepwise

open Text

namespace Token

open Number

variable {dialect : Dialect} {kind : TokenKind} {text rest : List Char}

/-- A character or an escape inside a literal. -/
inductive LiteralUnit (delimiter : Char) : List Char → Prop
  | plain {c : Char} : c ≠ delimiter → c ≠ '\\' → LiteralUnit delimiter [c]
  | escape {c : Char} : c ≠ '\n' → LiteralUnit delimiter ['\\', c]

/-- What follows the opening delimiter of a literal, up to the closing one. -/
inductive LiteralTail (delimiter : Char) : List Char → Prop
  | close : LiteralTail delimiter [delimiter]
  | unit {unit tail : List Char} : LiteralUnit delimiter unit → LiteralTail delimiter tail →
    LiteralTail delimiter (unit ++ tail)

/-- The texts of the tokens of each kind. -/
def Lexeme (dialect : Dialect) : TokenKind → List Char → Prop
  | .number, w => ∃ mantissa exponent suffix, w = mantissa ++ exponent ++ suffix ∧
      Mantissa mantissa ∧ Exponent exponent ∧
      ∀ c ∈ suffix, dialect = .braced ∧ isNumberSuffix c = true
  | .string, w => ∃ delimiter tail, w = delimiter :: tail ∧
      (delimiter = '"' ∨ delimiter = '\'' ∧ dialect = .indented) ∧ LiteralTail delimiter tail
  | .char, w => ∃ unit, w = '\'' :: (unit ++ ['\'']) ∧ dialect = .braced ∧ LiteralUnit '\'' unit
  | .name, w => isName w = true
  | .op, w => w ∈ (operators dialect).map String.toList
  | .leftParen, w => w = ['(']
  | .rightParen, w => w = [')']
  | .leftBracket, w => w = ['[']
  | .rightBracket, w => w = [']']
  | .comma, w => w = [',']
  | .dot, w => w = ['.'] ∧ dialect = .indented
  | .done, _ => False

/-- The kinds in the order in which they are tried. -/
def kinds : List TokenKind :=
  [.number, .string, .char, .name, .op, .leftParen, .rightParen, .leftBracket, .rightBracket,
    .comma, .dot]

/-- The text begins with the token and goes on with the rest: no earlier kind has a lexeme at its
front, and its own kind has no longer one. -/
structure Leads (dialect : Dialect) (text : List Char) (t : Token) (rest : List Char) : Prop where
  lexeme : Lexeme dialect t.kind t.text
  append : t.text ++ rest = text
  longest : ∀ w, Lexeme dialect t.kind w → w <+: text → w <+: t.text
  first : ∀ kind ∈ kinds.takeWhile (· != t.kind), ∀ w, Lexeme dialect kind w → ¬ w <+: text

/-! ### Readers -/

/-- The reader takes the longest text with a property off the front, if there is one. -/
structure Munches (P : List Char → Prop) (read : List Char → Option Cut) : Prop where
  sound : ∀ {text cut}, read text = some cut → P cut.1 ∧ cut.1 ++ cut.2 = text
  longest : ∀ {w}, P w → ∀ rest, ∃ cut, read (w ++ rest) = some cut ∧ w <+: cut.1

namespace Munches

variable {P Q : List Char → Prop} {read : List Char → Option Cut} {w : List Char}

theorem eq_none_iff (h : Munches P read) : read text = none ↔ ∀ w, P w → ¬ w <+: text := by
  constructor
  · rintro hnone w hw ⟨rest, rfl⟩
    obtain ⟨cut, hcut, -⟩ := h.longest hw rest
    rw [hnone] at hcut
    cases hcut
  · intro hnot
    cases hread : read text with
    | none => rfl
    | some cut =>
      obtain ⟨hP, happend⟩ := h.sound hread
      exact absurd ⟨cut.2, happend⟩ (hnot cut.1 hP)

/-- What is read is the longest text with the property at the front. -/
theorem eq_some_iff (h : Munches P read) :
    read text = some (w, rest) ↔
      P w ∧ w ++ rest = text ∧ ∀ w', P w' → w' <+: text → w' <+: w := by
  constructor
  · intro hread
    obtain ⟨hP, happend⟩ := h.sound hread
    refine ⟨hP, happend, ?_⟩
    rintro w' hw' ⟨rest', rfl⟩
    obtain ⟨cut, hcut, hfront⟩ := h.longest hw' rest'
    rw [hread] at hcut
    cases hcut
    exact hfront
  · rintro ⟨hP, rfl, hlongest⟩
    obtain ⟨cut, hcut, hfront⟩ := h.longest hP rest
    obtain ⟨hPcut, happend⟩ := h.sound hcut
    have hw : cut.1 = w :=
      (hlongest cut.1 hPcut ⟨cut.2, happend⟩).eq_of_length_le hfront.length_le
    rw [hw, List.append_cancel_left_eq] at happend
    rw [hcut, ← hw, ← happend]

/-- One reader after the other takes the longest text with two parts, if no character of a first
part begins a second one. -/
theorem append {first second : List Char → Option Cut} {inFirst : Char → Bool}
    (hfirst : Munches P first) (hsecond : Munches Q second) (hempty : Q [])
    (hP : ∀ w, P w → ∀ c ∈ w, inFirst c = true)
    (hQ : ∀ w, Q w → ∀ c ∈ w.head?, inFirst c = false) :
    Munches (fun w => ∃ u v, w = u ++ v ∧ P u ∧ Q v)
      (fun text => (first text).bind fun a => (second a.2).map (Cut.after a.1)) where
  sound {text cut} h := by
    obtain ⟨a, ha, h⟩ := Option.bind_eq_some_iff.1 h
    obtain ⟨b, hb, rfl⟩ := Option.map_eq_some_iff.1 h
    obtain ⟨hPa, ha⟩ := hfirst.sound ha
    obtain ⟨hQb, hb⟩ := hsecond.sound hb
    exact ⟨⟨a.1, b.1, rfl, hPa, hQb⟩, by rw [← ha, ← hb]; exact List.append_assoc _ _ _⟩
  longest := by
    rintro _ ⟨u, v, rfl, hu, hv⟩ rest
    obtain ⟨a, ha, ⟨more, hmore⟩⟩ := hfirst.longest hu (v ++ rest)
    obtain ⟨hPa, happend⟩ := hfirst.sound ha
    rw [← hmore, List.append_assoc, List.append_cancel_left_eq] at happend
    rw [List.append_assoc, ha]
    cases more with
    | nil =>
      obtain ⟨b, hb, hfront⟩ := hsecond.longest hv rest
      rw [List.append_nil] at hmore
      rw [List.nil_append] at happend
      refine ⟨b.after a.1, ?_, ?_⟩
      · rw [Option.bind_some, happend, hb]
        rfl
      · rw [Cut.after, ← hmore]
        exact (List.prefix_append_right_inj u).2 hfront
    | cons c more =>
      -- The first part goes on behind `u`, so nothing of a second part stands there.
      obtain rfl : v = [] := by
        cases v with
        | nil => rfl
        | cons d v =>
          have hd : c = d := (List.cons.inj happend).1
          have hc := hP a.1 hPa c (hmore ▸ by simp)
          rw [hQ _ hv c (by rw [hd]; rfl)] at hc
          cases hc
      obtain ⟨b, hb, -⟩ := hsecond.longest hempty a.2
      rw [List.nil_append] at hb
      refine ⟨b.after a.1, by rw [Option.bind_some, hb]; rfl, ?_⟩
      rw [List.append_nil, Cut.after, ← hmore, List.append_assoc]
      exact List.prefix_append _ _

end Munches

theorem munches_spanning (p : Char → Bool) :
    Munches (fun w => ∀ c ∈ w, p c = true) (fun text => some (spanning p text)) where
  sound h := by
    cases h
    exact ⟨List.all_eq_true.1 List.all_takeWhile, spanning_append_rest p _⟩
  longest {w} hw rest := by
    refine ⟨_, rfl, ?_⟩
    rw [spanning, List.takeWhile_append_of_pos hw]
    exact List.prefix_append _ _

theorem spanDigits_append {digits : List Char} (h : ∀ c ∈ digits, isDecimal c = true)
    (rest : List Char) : spanDigits (digits ++ rest) = (spanDigits rest).after digits := by
  rw [spanDigits, spanning, List.takeWhile_append_of_pos h, List.dropWhile_append_of_pos h]
  rfl

theorem spanDigits_of_ne {c : Char} (h : isDecimal c = false) (rest : List Char) :
    spanDigits (c :: rest) = ([], c :: rest) := by
  simp [spanDigits, spanning, h]

theorem munches_mantissa : Munches Mantissa mantissa? where
  sound h := ⟨mantissa?_shape h, (mantissa?_takes h).2⟩
  longest {w} hw rest := by
    cases hw with
    | whole hne hd =>
      obtain ⟨d, digits, rfl⟩ := List.exists_cons_of_ne_nil hne
      rw [mantissa?, spanDigits_append hd]
      obtain ⟨more, behind⟩ := spanDigits rest
      by_cases hpoint : ∃ tail, behind = '.' :: tail
      · obtain ⟨tail, rfl⟩ := hpoint
        refine ⟨_, rfl, ?_⟩
        simp [Cut.after]
      · refine ⟨(d :: digits ++ more, behind), ?_, List.prefix_append _ _⟩
        simp only [Cut.after, List.cons_append]
        split
        · simp_all
        · simp_all
        · rename_i tail _ heq
          cases heq
          exact absurd ⟨tail, rfl⟩ hpoint
        · rename_i heq
          cases heq
          rfl
    | @point digits fraction hne hd hf =>
      have hspan : spanDigits (digits ++ '.' :: (fraction ++ rest)) =
          (digits, '.' :: (fraction ++ rest)) := by
        rw [spanDigits_append hd, spanDigits_of_ne rfl, Cut.after, List.append_nil]
      rw [List.append_assoc, List.cons_append, mantissa?, hspan]
      cases digits with
      | nil =>
        obtain ⟨d, fraction, rfl⟩ :=
          List.exists_cons_of_ne_nil (hne.resolve_left (absurd rfl))
        simp only [spanDigits_append hf]
        exact ⟨_, rfl, by simp⟩
      | cons d digits =>
        simp only [spanDigits_append hf]
        exact ⟨_, rfl, by simp [Cut.after]⟩

theorem munches_exponent : Munches Exponent (fun text => some (exponent text)) where
  sound h := by
    cases h
    exact ⟨exponent_shape _, exponent_append_rest _⟩
  longest {w} hw rest := by
    refine ⟨_, rfl, ?_⟩
    cases hw with
    | none => exact List.nil_prefix
    | @scaled mark sign digits hmark hsign hne hd =>
      obtain ⟨d, digits, rfl⟩ := List.exists_cons_of_ne_nil hne
      have hmark : (mark == 'e' || mark == 'E') = true := by simpa using hmark
      have hspan := spanDigits_append hd rest
      have hplain : d ≠ '+' ∧ d ≠ '-' := by
        have hdecimal := hd d List.mem_cons_self
        constructor <;> rintro rfl <;> cases hdecimal
      simp only [List.cons_append] at hspan
      rcases hsign with rfl | rfl | rfl <;>
        simp [exponent, hmark, hplain, hspan, Cut.after]

theorem Munches.of_iff {P Q : List Char → Prop} {read : List Char → Option Cut}
    (h : Munches P read) (hPQ : ∀ w, P w ↔ Q w) : Munches Q read := by
  obtain rfl : P = Q := funext fun w => propext (hPQ w)
  exact h

theorem isDecimal_or_point_of_mantissa {w : List Char} (h : Mantissa w) :
    ∀ c ∈ w, (isDecimal c || c == '.') = true := by
  intro c hc
  cases h with
  | whole _ hd => rw [hd c hc, Bool.true_or]
  | point _ hd hf =>
    rcases List.mem_append.1 hc with hc | hc
    · rw [hd c hc, Bool.true_or]
    · rcases List.mem_cons.1 hc with rfl | hc
      · rfl
      · rw [hf c hc, Bool.true_or]

theorem head_exponent {w : List Char} (h : Exponent w) :
    ∀ c ∈ w.head?, (isDecimal c || c == '.') = false := by
  cases h with
  | none => simp
  | scaled hmark =>
    rintro c ⟨⟩
    rcases hmark with rfl | rfl <;> rfl

/-- The number without the letters behind it. -/
theorem munches_numeral :
    Munches (fun w => ∃ m e, w = m ++ e ∧ Mantissa m ∧ Exponent e)
      (fun text => (mantissa? text).bind fun a => (some (exponent a.2)).map (Cut.after a.1)) :=
  munches_mantissa.append munches_exponent .none (fun _ => isDecimal_or_point_of_mantissa)
    fun _ => head_exponent

/-- The longest number is a mantissa, an exponent and letters, each as long as it can be. -/
theorem munches_number : Munches (Lexeme dialect .number) (number? dialect) := by
  cases dialect with
  | indented =>
    have hread : number? .indented =
        fun text => (mantissa? text).bind fun a => (some (exponent a.2)).map (Cut.after a.1) := by
      funext text
      unfold number?
      cases mantissa? text <;> rfl
    rw [hread]
    refine munches_numeral.of_iff fun w => ⟨?_, ?_⟩
    · rintro ⟨m, e, rfl, hm, he⟩
      exact ⟨m, e, [], (List.append_nil _).symm, hm, he, List.forall_mem_nil _⟩
    · rintro ⟨m, e, suffix, rfl, hm, he, hs⟩
      obtain rfl : suffix = [] := List.eq_nil_iff_forall_not_mem.2 fun c hc => by cases (hs c hc).1
      exact ⟨m, e, List.append_nil _, hm, he⟩
  | braced =>
    have hread : number? .braced = fun text =>
        ((mantissa? text).bind fun a => (some (exponent a.2)).map (Cut.after a.1)).bind fun a =>
          (some (spanning isNumberSuffix a.2)).map (Cut.after a.1) := by
      funext text
      unfold number?
      cases mantissa? text <;> rfl
    have hnumeric : ∀ w, (∃ m e, w = m ++ e ∧ Mantissa m ∧ Exponent e) →
        ∀ c ∈ w, isNumeric c = true := by
      rintro _ ⟨m, e, rfl, hm, he⟩ c hc
      exact (List.mem_append.1 hc).elim (hm.isNumeric c) (he.isNumeric c)
    have hsuffix : ∀ w : List Char, (∀ c ∈ w, isNumberSuffix c = true) →
        ∀ c ∈ w.head?, isNumeric c = false := by
      intro w hw c hc
      rw [← Bool.not_eq_true]
      intro hnumeric
      have hc := hw c (List.mem_of_mem_head? hc)
      rw [isNumberSuffix_of_isNumeric hnumeric] at hc
      cases hc
    have hmunches := munches_numeral.append (munches_spanning isNumberSuffix)
      (List.forall_mem_nil _) hnumeric hsuffix
    rw [hread]
    refine hmunches.of_iff fun w => ⟨?_, ?_⟩
    · rintro ⟨_, suffix, rfl, ⟨m, e, rfl, hm, he⟩, hs⟩
      exact ⟨m, e, suffix, rfl, hm, he, fun c hc => ⟨rfl, hs c hc⟩⟩
    · rintro ⟨m, e, suffix, rfl, hm, he, hs⟩
      exact ⟨m ++ e, suffix, rfl, ⟨m, e, rfl, hm, he⟩, fun c hc => (hs c hc).2⟩

/-! ### Literals -/

theorem literalRest?_escape_cons {delimiter c : Char} (hc : c ≠ '\n') (rest : List Char) :
    literalRest? delimiter ('\\' :: c :: rest) =
      (literalRest? delimiter rest).map (Cut.after ['\\', c]) := by
  rw [literalRest?, if_neg (by simpa using hc)]

/-- A literal ends with its first closing delimiter. -/
theorem LiteralTail.literalRest? {delimiter : Char} {tail : List Char} (hd : delimiter ≠ '\\')
    (h : LiteralTail delimiter tail) (rest : List Char) :
    Token.literalRest? delimiter (tail ++ rest) = some (tail, rest) := by
  induction h with
  | close => rw [List.singleton_append, literalRest?_cons hd, if_pos rfl]
  | unit hunit _ ih =>
    cases hunit with
    | plain hne hslash =>
      rw [List.append_assoc, List.singleton_append, literalRest?_cons hslash, if_neg hne, ih]
      rfl
    | escape hc =>
      rw [List.append_assoc, List.cons_append, List.singleton_append,
        literalRest?_escape_cons hc, ih]
      rfl

theorem munches_literal {delimiter : Char} (hd : delimiter ≠ '\\') :
    Munches (LiteralTail delimiter) (literalRest? delimiter) where
  sound {text cut} h := by
    refine ⟨?_, literalRest?_append_rest h⟩
    fun_induction literalRest? delimiter text generalizing cut with
    | case1 => cases h
    | case2 => cases h
    | case3 c rest hc ih =>
      obtain ⟨inner, hinner, rfl⟩ := Option.map_eq_some_iff.1 h
      exact .unit (.escape (by simpa using hc)) (ih hinner)
    | case4 c rest _ hc =>
      cases h
      rw [beq_iff_eq.1 hc]
      exact .close
    | case5 => cases h
    | case6 c rest _ hc hslash ih =>
      obtain ⟨inner, hinner, rfl⟩ := Option.map_eq_some_iff.1 h
      exact .unit (.plain (by simpa using hc) (by simpa using hslash)) (ih hinner)
  longest h rest := ⟨_, h.literalRest? hd rest, List.prefix_refl _⟩

/-- No literal begins another one. -/
theorem LiteralTail.eq_of_isPrefix {delimiter : Char} {u v : List Char} (hd : delimiter ≠ '\\')
    (hu : LiteralTail delimiter u) (hv : LiteralTail delimiter v) (h : u <+: v) : u = v := by
  obtain ⟨more, rfl⟩ := h
  have hwhole := hv.literalRest? hd []
  rw [List.append_nil, hu.literalRest? hd more] at hwhole
  exact (Prod.mk.inj (Option.some.inj hwhole)).1

theorem munches_string : Munches (Lexeme dialect .string) (string? dialect) where
  sound {text cut} h := by
    refine ⟨?_, (string?_takes h).2⟩
    unfold string? at h
    split at h
    · obtain ⟨inner, hinner, rfl⟩ := Option.map_eq_some_iff.1 h
      exact ⟨'"', inner.1, rfl, .inl rfl, ((munches_literal (by decide)).sound hinner).1⟩
    · cases dialect with
      | indented =>
        obtain ⟨inner, hinner, rfl⟩ := Option.map_eq_some_iff.1 h
        exact ⟨'\'', inner.1, rfl, .inr ⟨rfl, rfl⟩, ((munches_literal (by decide)).sound hinner).1⟩
      | braced => cases h
    · cases h
  longest := by
    rintro _ ⟨delimiter, tail, rfl, rfl | ⟨rfl, rfl⟩, htail⟩ rest
    · refine ⟨('"' :: tail, rest), ?_, List.prefix_refl _⟩
      rw [List.cons_append, string?, htail.literalRest? (by decide)]
      rfl
    · refine ⟨('\'' :: tail, rest), ?_, List.prefix_refl _⟩
      rw [List.cons_append, string?, htail.literalRest? (by decide)]
      rfl

theorem munches_char : Munches (Lexeme dialect .char) (char? dialect) where
  sound {text cut} h := by
    refine ⟨?_, (char?_takes h).2⟩
    unfold char? at h
    split at h
    · split_ifs at h with hc
      cases h
      exact ⟨['\\', _], rfl, rfl, .escape (by simpa using hc)⟩
    · split_ifs at h with hc
      cases h
      simp only [Bool.or_eq_true, beq_iff_eq, not_or] at hc
      exact ⟨[_], rfl, rfl, .plain hc.1 hc.2⟩
    · cases h
  longest := by
    rintro _ ⟨unit, rfl, rfl, hunit⟩ rest
    refine ⟨('\'' :: (unit ++ ['\'']), rest), ?_, List.prefix_refl _⟩
    cases hunit with
    | plain hquote hslash => simp [char?, hquote, hslash]
    | escape hc => simp [char?, hc]

/-! ### Names, operators and marks -/

theorem munches_name : Munches (Lexeme dialect .name) name? where
  sound {text cut} h := by
    refine ⟨?_, (name?_takes h).2⟩
    unfold name? at h
    split at h
    · rename_i c rest
      split_ifs at h with hc
      cases h
      show isName (c :: rest.takeWhile isWord) = true
      rw [isName, hc, Bool.true_and]
      exact List.all_takeWhile
    · cases h
  longest := by
    rintro (_ | ⟨c, name⟩) h rest
    · cases h
    · obtain ⟨hc, hw⟩ : isNameStart c = true ∧ ∀ d ∈ name, isWord d = true := by
        simpa [Lexeme, isName] using h
      refine ⟨_, by rw [List.cons_append, name?, if_pos hc], ?_⟩
      rw [spanning, List.takeWhile_append_of_pos hw]
      simp [Cut.after]

/-- Longer operators are tried first. -/
theorem pairwise_operators (dialect : Dialect) :
    ((operators dialect).map String.toList).Pairwise fun u v => v.length ≤ u.length := by
  cases dialect <;> decide

/-- Longer operators are tried first, so the one that is found is the longest. -/
theorem munches_operator : Munches (Lexeme dialect .op) (operator? dialect) where
  sound {text cut} h := by
    refine ⟨?_, (operator?_takes h).2⟩
    obtain ⟨op, hop, rfl⟩ := Option.map_eq_some_iff.1 h
    exact List.mem_of_find?_eq_some hop
  longest {w} h rest := by
    have hfits : w.isPrefixOf (w ++ rest) = true := by simp
    obtain ⟨op, hop⟩ : ∃ op, ((operators dialect).map String.toList).find?
        (·.isPrefixOf (w ++ rest)) = some op :=
      Option.isSome_iff_exists.1 (List.find?_isSome.2 ⟨w, h, hfits⟩)
    refine ⟨_, by rw [operator?, hop]; rfl, ?_⟩
    obtain ⟨hfront, before, behind, hops, hbefore⟩ := List.find?_eq_some_iff_append.1 hop
    have hmem : w ∈ before ++ op :: behind := hops ▸ h
    rcases List.mem_append.1 hmem with hmem | hmem
    · have hnot := hbefore w hmem
      rw [hfits] at hnot
      cases hnot
    · rcases List.mem_cons.1 hmem with rfl | hmem
      · exact List.prefix_refl _
      · have hpairwise := pairwise_operators dialect
        rw [hops, List.pairwise_append] at hpairwise
        exact List.prefix_of_prefix_length_le (List.prefix_append w rest)
          (List.isPrefixOf_iff_prefix.1 hfront)
          ((List.pairwise_cons.1 hpairwise.2.1).1 w hmem)

/-- The character at the front of the text, if it is this one. -/
def single (mark : Char) : List Char → Option Cut
  | c :: rest => if c == mark then some ([c], rest) else none
  | [] => none

theorem munches_single (mark : Char) : Munches (· = [mark]) (single mark) where
  sound {text cut} h := by
    unfold single at h
    split at h
    · split_ifs at h with hc
      cases h
      exact ⟨by rw [beq_iff_eq.1 hc], rfl⟩
    · cases h
  longest := by
    rintro _ rfl rest
    exact ⟨([mark], rest), by simp [single], List.prefix_refl _⟩

theorem munches_nothing : Munches (fun _ => False) (fun _ => none) where
  sound h := by cases h
  longest h := h.elim

/-- The reader of each kind. -/
def reader (dialect : Dialect) : TokenKind → List Char → Option Cut
  | .number => number? dialect
  | .string => string? dialect
  | .char => char? dialect
  | .name => name?
  | .op => operator? dialect
  | .leftParen => single '('
  | .rightParen => single ')'
  | .leftBracket => single '['
  | .rightBracket => single ']'
  | .comma => single ','
  | .dot => fun text => if dialect = .indented then single '.' text else none
  | .done => fun _ => none

theorem munches_reader : ∀ kind, Munches (Lexeme dialect kind) (reader dialect kind)
  | .number => munches_number
  | .string => munches_string
  | .char => munches_char
  | .name => munches_name
  | .op => munches_operator
  | .leftParen => munches_single '('
  | .rightParen => munches_single ')'
  | .leftBracket => munches_single '['
  | .rightBracket => munches_single ']'
  | .comma => munches_single ','
  | .dot => by
    cases dialect with
    | indented => exact (munches_single '.').of_iff fun w => (and_iff_left rfl).symm
    | braced => exact munches_nothing.of_iff fun w => ⟨False.elim, fun h => by cases h.2⟩
  | .done => munches_nothing

/-! ### The token at the front of a text -/

theorem mark?_eq_findSome? (text : List Char) :
    mark? dialect text =
      [.leftParen, .rightParen, .leftBracket, .rightBracket, .comma, .dot].findSome? fun kind =>
        (reader dialect kind text).map (Prod.mk kind) := by
  cases text with
  | nil => cases dialect <;> rfl
  | cons c rest =>
    by_cases hmark : c ∈ ['(', ')', '[', ']', ',', '.']
    · simp only [List.mem_cons, List.not_mem_nil, or_false] at hmark
      rcases hmark with rfl | rfl | rfl | rfl | rfl | rfl <;> cases dialect <;> rfl
    · simp only [List.mem_cons, List.not_mem_nil, or_false, not_or] at hmark
      simp [mark?, reader, single, hmark]

theorem first?_eq_findSome? (dialect : Dialect) (text : List Char) :
    first? dialect text =
      kinds.findSome? fun kind => (reader dialect kind text).map (Prod.mk kind) := by
  have hcons : ∀ (first : TokenKind) (others : List TokenKind)
      (read : TokenKind → Option (TokenKind × Cut)),
      (first :: others).findSome? read = (read first).or (others.findSome? read) := by
    intro first others read
    rw [List.findSome?_cons]
    cases read first <;> rfl
  simp only [first?, kinds, mark?_eq_findSome?, Option.orElse_eq_orElse, Option.orElse_eq_or, hcons,
    reader]

theorem mem_kinds {w : List Char} (h : Lexeme dialect kind w) : kind ∈ kinds := by
  cases kind with
  | done => exact h.elim
  | _ => decide

/-- No lexeme stands at the front of a text exactly if no token is found there. -/
theorem first?_eq_none_iff :
    first? dialect text = none ↔ ∀ kind w, Lexeme dialect kind w → ¬ w <+: text := by
  rw [first?_eq_findSome?, List.findSome?_eq_none_iff]
  constructor
  · intro h kind w hw
    have hnone := h kind (mem_kinds hw)
    rw [Option.map_eq_none_iff] at hnone
    exact (munches_reader kind).eq_none_iff.1 hnone w hw
  · intro h kind _
    rw [(munches_reader kind).eq_none_iff.2 (h kind)]
    rfl

/-- The token found at the front of a text is the longest lexeme of the first kind that has one
there. -/
theorem first?_eq_some_iff {lexeme : List Char} :
    first? dialect text = some (kind, lexeme, rest) ↔ Leads dialect text ⟨kind, lexeme⟩ rest := by
  rw [first?_eq_findSome?]
  constructor
  · intro h
    obtain ⟨before, found, behind, hkinds, hfound, hbefore⟩ := List.findSome?_eq_some_iff.1 h
    obtain ⟨cut, hcut, heq⟩ := Option.map_eq_some_iff.1 hfound
    cases heq
    obtain ⟨hlexeme, happend, hlongest⟩ := (munches_reader kind).eq_some_iff.1 hcut
    refine ⟨hlexeme, happend, hlongest, fun other hother => ?_⟩
    have hearlier : kinds.takeWhile (· != kind) = before := by
      rw [hkinds]
      refine takeWhile_exact (fun earlier hearlier => bne_iff_ne.2 fun heq => ?_) (by simp)
      rw [hbefore kind (heq ▸ hearlier)] at hfound
      cases hfound
    have hmem : other ∈ before := hearlier ▸ hother
    have hnone := hbefore other hmem
    rw [Option.map_eq_none_iff] at hnone
    exact (munches_reader other).eq_none_iff.1 hnone
  · rintro ⟨hlexeme, happend, hlongest, hfirst⟩
    have hread := (munches_reader kind).eq_some_iff.2 ⟨hlexeme, happend, hlongest⟩
    obtain ⟨behind, hkinds⟩ : ∃ behind, kinds.dropWhile (· != kind) = kind :: behind := by
      cases kind with
      | done => exact hlexeme.elim
      | _ => exact ⟨_, rfl⟩
    refine List.findSome?_eq_some_iff.2 ⟨kinds.takeWhile (· != kind), kind, behind, ?_, ?_, ?_⟩
    · rw [← hkinds, List.takeWhile_append_dropWhile]
    · rw [hread]
      rfl
    · intro other hother
      rw [(munches_reader other).eq_none_iff.2 (hfirst other hother)]
      rfl

end Token

end Stepwise
