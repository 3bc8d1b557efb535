import Stepwise.Proofs.Derivations
import Stepwise.Proofs.Texts

/-!
# Tokens with blanks between them

Where a blank follows, a token ends: numbers, quoted strings, names, operators and brackets are each
cut off whole (`Stands`). A text made of such tokens with blanks between them is cut into exactly
these tokens (`tokenize_spaced`).
-/

namespace Stepwise.Token

open Text

variable {dialect : Dialect} {c : Char} {lexeme rest : List Char}

/-- The text is at its end or goes on with a blank. -/
def Apart (rest : List Char) : Prop := ∀ c ∈ rest.head?, isBlank c = true

/-- The token is cut off whole wherever a blank or the end follows. -/
def Stands (dialect : Dialect) (t : Token) : Prop :=
  t.text ≠ [] ∧ ∀ rest, Apart rest → first? dialect (t.text ++ rest) = some (t.kind, t.text, rest)

/-- The text is made of the tokens, with at least one blank between any two of them. -/
inductive Spaced : List Token → List Char → Prop
  | nil : Spaced [] []
  | blank {c : Char} {ts : List Token} {text : List Char} : isBlank c = true → Spaced ts text →
    Spaced ts (c :: text)
  | token {t : Token} {ts : List Token} {text : List Char} : Apart text → Spaced ts text →
    Spaced (t :: ts) (t.text ++ text)

theorem apart_nil : Apart [] := fun _ hc => nomatch hc

theorem apart_cons (h : isBlank c = true) : Apart (c :: rest) := fun _ hc => by
  cases hc
  exact h

theorem Apart.head_ne (h : Apart (c :: rest)) {d : Char} (hd : isBlank d = false) : c ≠ d := by
  rintro rfl
  cases (h c rfl).symm.trans hd

theorem isDecimal_of_isBlank (h : isBlank c = true) : isDecimal c = false := by
  rw [← Bool.not_eq_true]
  intro hd
  rw [isBlank_of_isDecimal hd] at h
  cases h

/-- A run of characters of a class without blanks ends where a blank follows. -/
theorem spanning_eq {p : Char → Bool} (hp : ∀ c, isBlank c = true → p c = false)
    (hl : ∀ c ∈ lexeme, p c = true) (hr : Apart rest) :
    spanning p (lexeme ++ rest) = (lexeme, rest) := by
  have hhead : ∀ c ∈ rest.head?, p c = false := fun c hc => hp c (hr c hc)
  rw [spanning, takeWhile_exact hl hhead, dropWhile_exact hl hhead]

/-- A character that begins no number, name or literal. -/
def isBare (c : Char) : Bool :=
  !isDecimal c && !isNameStart c && c != '.' && c != '"' && c != '\''

theorem number?_eq_none (hc : isDecimal c = false) (h : c ≠ '.' ∨ Apart rest) :
    number? dialect (c :: rest) = none := by
  have hm : mantissa? (c :: rest) = none := by
    have hspan : spanDigits (c :: rest) = ([], c :: rest) := by simp [spanDigits, spanning, hc]
    unfold mantissa?
    rw [hspan]
    split
    · rename_i tail heq
      cases heq
      have hrest : spanDigits rest = ([], rest) :=
        spanning_eq (fun _ => isDecimal_of_isBlank) (List.forall_mem_nil _)
          (h.resolve_left (absurd rfl))
      rw [hrest]
    · rfl
    · simp_all
    · simp_all
  rw [number?, hm]
  rfl

/-- Digits in front of a blank or the end are a number. -/
theorem number?_digits {digits : List Char} (hne : digits ≠ [])
    (hd : ∀ c ∈ digits, isDecimal c = true) (hr : Apart rest) :
    number? dialect (digits ++ rest) = some (digits, rest) := by
  have hm : mantissa? (digits ++ rest) = some (digits, rest) := by
    have hspan : spanDigits (digits ++ rest) = (digits, rest) :=
      spanning_eq (fun _ => isDecimal_of_isBlank) hd hr
    unfold mantissa?
    rw [hspan]
    split
    · simp_all
    · simp_all
    · rename_i tail _ heq
      cases heq
      exact absurd rfl (hr.head_ne rfl)
    · rename_i heq
      cases heq
      rfl
  have he : exponent rest = ([], rest) := by
    cases rest with
    | nil => rfl
    | cons c rest => simp [exponent, hr.head_ne (d := 'e') rfl, hr.head_ne (d := 'E') rfl]
  have hsuffix : spanning isNumberSuffix rest = ([], rest) := by
    refine spanning_eq (fun c hc => ?_) (List.forall_mem_nil _) hr
    rw [← Bool.not_eq_true]
    intro hs
    have hnot : "fFlLuU".toList.all (fun d => !isBlank d) = true := by decide +kernel
    have hblank := List.all_eq_true.1 hnot c (by simpa [isNumberSuffix] using hs)
    rw [hc] at hblank
    cases hblank
  rw [number?, hm]
  cases dialect with
  | indented => simp [he]
  | braced => simp [he, hsuffix, Cut.after]

theorem string?_eq_none (hd : c ≠ '"') (hs : c ≠ '\'') : string? dialect (c :: rest) = none := by
  unfold string?
  split <;> simp_all

theorem char?_eq_none (hs : c ≠ '\'') : char? dialect (c :: rest) = none := by
  unfold char?
  split <;> simp_all

theorem name?_eq_none (hc : isNameStart c = false) : name? (c :: rest) = none := by
  simp [name?, hc]

theorem first?_bare (hc : isBare c = true) :
    first? dialect (c :: rest) =
      ((operator? dialect (c :: rest)).map (Prod.mk .op) <|> mark? dialect (c :: rest)) := by
  simp only [isBare, Bool.and_eq_true, Bool.not_eq_true', bne_iff_ne] at hc
  obtain ⟨⟨⟨⟨hd, hn⟩, hp⟩, hq⟩, hs⟩ := hc
  rw [first?, number?_eq_none hd (.inl hp), string?_eq_none hq hs, char?_eq_none hs,
    name?_eq_none hn]
  rfl

/-- A text without blanks begins a longer one only within its first word. -/
theorem isPrefixOf_append : ∀ {op text : List Char}, (∀ c ∈ op, isBlank c = false) → Apart rest →
    op.isPrefixOf (text ++ rest) = op.isPrefixOf text
  | [], _, _, _ => by simp
  | c :: op, [], h, hr => by
    cases rest with
    | nil => rfl
    | cons d rest =>
      have hne : c ≠ d := (hr.head_ne (h c List.mem_cons_self)).symm
      simp [List.isPrefixOf, hne]
  | c :: op, d :: text, h, hr => by
    rw [List.cons_append, List.isPrefixOf, List.isPrefixOf,
      isPrefixOf_append (fun c hc => h c (List.mem_cons_of_mem _ hc)) hr]

theorem isBlank_operators :
    ∀ op ∈ (operators dialect).map String.toList, ∀ c ∈ op, isBlank c = false := by
  have hall : ((operators dialect).map String.toList).all
      (fun op => op.all fun c => !isBlank c) = true := by
    cases dialect <;> decide +kernel
  intro op hop c hc
  simpa using List.all_eq_true.1 (List.all_eq_true.1 hall op hop) c hc

theorem operator?_append (hr : Apart rest) :
    operator? dialect (lexeme ++ rest) =
      (((operators dialect).map String.toList).find? (·.isPrefixOf lexeme)).map fun op =>
        (op, (lexeme ++ rest).drop op.length) := by
  have hfind : ((operators dialect).map String.toList).find? (·.isPrefixOf (lexeme ++ rest)) =
      ((operators dialect).map String.toList).find? (·.isPrefixOf lexeme) := by
    rw [← List.head?_filter, ← List.head?_filter,
      List.filter_congr fun op hop => isPrefixOf_append (isBlank_operators op hop) hr]
  rw [operator?, hfind]

/-- No operator is cut short by another. -/
theorem find?_operators : ∀ op ∈ (operators dialect).map String.toList,
    ((operators dialect).map String.toList).find? (·.isPrefixOf op) = some op := by
  cases dialect <;> decide

theorem isBare_operators : ∀ op ∈ (operators dialect).map String.toList,
    op.head?.any isBare = true := by
  cases dialect <;> decide

theorem stands_operator (h : lexeme ∈ (operators dialect).map String.toList) :
    Stands dialect ⟨.op, lexeme⟩ := by
  have hbare := isBare_operators lexeme h
  have hfind := find?_operators lexeme h
  cases lexeme with
  | nil => cases hbare
  | cons c op =>
    refine ⟨List.cons_ne_nil _ _, fun rest hr => ?_⟩
    show first? dialect (c :: (op ++ rest)) = _
    rw [first?_bare (by simpa using hbare)]
    show ((operator? dialect (c :: op ++ rest)).map _ <|> _) = _
    rw [operator?_append hr, hfind]
    simp

/-- No operator begins with a blank or a bracket. -/
theorem operator?_eq_none (h : ∀ op ∈ (operators dialect).map String.toList, op.head? ≠ some c) :
    operator? dialect (c :: rest) = none := by
  rw [operator?, Option.map_eq_none_iff, List.find?_eq_none]
  intro op hop hp
  have hne := h op hop
  cases op with
  | nil => cases isBare_operators [] hop
  | cons d op =>
    simp only [List.isPrefixOf, Bool.and_eq_true, beq_iff_eq] at hp
    exact hne (congrArg some hp.1)

theorem toNat_of_isNameStart (h : isNameStart c = true) : 57 < c.toNat ∧ c.toNat < 128 := by
  have hletter : (c.isUpper = true ∨ c.isLower = true) ∨ c = '_' := by
    rw [isNameStart, Bool.or_eq_true, beq_iff_eq] at h
    exact h.imp_left (Bool.or_eq_true _ _).mp
  rcases hletter with (h | h) | rfl
  · have hrange : 'A'.val ≤ c.val ∧ c.val ≤ 'Z'.val := of_decide_eq_true h
    exact ⟨Nat.lt_of_lt_of_le (by decide) hrange.1, Nat.lt_of_le_of_lt hrange.2 (by decide)⟩
  · have hrange := (Bool.and_eq_true _ _).mp h
    have hlow : 'a'.val ≤ c.val := of_decide_eq_true hrange.1
    have hhigh : c.val ≤ 'z'.val := of_decide_eq_true hrange.2
    exact ⟨Nat.lt_of_lt_of_le (by decide) hlow, Nat.lt_of_le_of_lt hhigh (by decide)⟩
  · decide

theorem isWord_of_isNameStart (h : isNameStart c = true) : isWord c = true := by
  rw [isWord, if_pos (toNat_of_isNameStart h).2, Char.isAlphanum]
  simp only [isNameStart, Bool.or_eq_true] at h ⊢
  exact h.imp_left .inl

theorem isNameStart_of_isBlank (h : isBlank c = true) : isNameStart c = false := by
  rw [← Bool.not_eq_true]
  intro hn
  rw [isBlank_of_isWord (isWord_of_isNameStart hn)] at h
  cases h

theorem isDecimal_of_isNameStart (h : isNameStart c = true) : isDecimal c = false := by
  have hzeros : ∀ z ∈ digitZeros, z = 48 ∨ 128 ≤ z := by decide
  rw [← Bool.not_eq_true]
  intro hd
  obtain ⟨z, hz, hle, hlt⟩ := exists_zero_of_isDecimal hd
  have hrange := toNat_of_isNameStart h
  rcases hzeros z hz with rfl | hz <;> omega

theorem isBare_of_isBlank (h : isBlank c = true) : isBare c = true := by
  have hne : ∀ d, isBlank d = false → c ≠ d := by
    rintro d hd rfl
    cases h.symm.trans hd
  simp [isBare, isDecimal_of_isBlank h, isNameStart_of_isBlank h, hne '.' rfl, hne '"' rfl,
    hne '\'' rfl]

/-- No token begins with a blank. -/
theorem first?_blank (h : isBlank c = true) : first? dialect (c :: rest) = none := by
  have hop : operator? dialect (c :: rest) = none := by
    refine operator?_eq_none fun op hop hc => ?_
    have hc := isBlank_operators op hop c (List.mem_of_mem_head? hc)
    cases h.symm.trans hc
  have hne : ∀ d, isBlank d = false → c ≠ d := by
    rintro d hd rfl
    cases h.symm.trans hd
  rw [first?_bare (isBare_of_isBlank h), hop]
  simp [mark?, hne '(' rfl, hne ')' rfl, hne '[' rfl, hne ']' rfl, hne ',' rfl, hne '.' rfl]

/-- The text is cut into the tokens it is made of. -/
theorem scan_spaced {ts : List Token} {text : List Char} (h : Spaced ts text)
    (hts : ∀ t ∈ ts, Stands dialect t) :
    ∀ {fuel : Nat}, text.length ≤ fuel → scan dialect fuel text = .ok ts := by
  induction h with
  | nil =>
    intro fuel _
    cases fuel <;> rfl
  | @blank c ts text hc _ ih =>
    rintro (_ | fuel) hfuel
    · cases hfuel
    · rw [List.length_cons, Nat.add_le_add_iff_right] at hfuel
      rw [scan, first?_blank hc, if_pos hc, ih hts hfuel]
  | @token t ts text hapart _ ih =>
    obtain ⟨⟨hne, ht⟩, hts⟩ := List.forall_mem_cons.1 hts
    have hpos := List.length_pos_of_ne_nil hne
    rintro (_ | fuel) hfuel <;> rw [List.length_append] at hfuel
    · omega
    · have hfirst := ht text hapart
      obtain ⟨c, rest, hcons⟩ :=
        List.exists_cons_of_ne_nil (List.append_ne_nil_of_left_ne_nil hne text)
      rw [hcons] at hfirst ⊢
      rw [scan, hfirst]
      dsimp only
      rw [ih hts (by omega)]
      rfl

theorem tokenize_spaced {ts : List Token} {text : List Char} (h : Spaced ts text)
    (hts : ∀ t ∈ ts, Stands dialect t) : tokenize dialect text = .ok ts :=
  scan_spaced h hts (Nat.le_refl _)

theorem stands_number {digits : List Char} (hne : digits ≠ [])
    (hd : ∀ c ∈ digits, isDecimal c = true) : Stands dialect ⟨.number, digits⟩ := by
  refine ⟨hne, fun rest hr => ?_⟩
  rw [first?, number?_digits hne hd hr]
  rfl

/-- A name as the lexer cuts it. -/
def isName : List Char → Bool
  | c :: rest => isNameStart c && rest.all isWord
  | [] => false

theorem isWord_of_isName (h : isName lexeme = true) : ∀ c ∈ lexeme, isWord c = true := by
  cases lexeme with
  | nil => exact List.forall_mem_nil _
  | cons c lexeme =>
    rw [isName, Bool.and_eq_true, List.all_eq_true] at h
    exact List.forall_mem_cons.2 ⟨isWord_of_isNameStart h.1, h.2⟩

theorem Lexed.isName (h : Lexed dialect ⟨.name, lexeme⟩) : isName lexeme = true := by
  obtain ⟨text, rest, hfirst⟩ := h
  have hname : name? text = some (lexeme, rest) := first?_cutAs hfirst
  cases text with
  | nil => cases hname
  | cons c text =>
    rw [name?] at hname
    split_ifs at hname with hc
    cases hname
    rw [List.singleton_append, Token.isName, hc, Bool.true_and, List.all_eq_true]
    exact fun d hd => List.mem_takeWhile_imp hd

theorem stands_name (h : isName lexeme = true) : Stands dialect ⟨.name, lexeme⟩ := by
  obtain _ | ⟨c, name⟩ := lexeme
  · cases h
  obtain ⟨hc, hw⟩ : isNameStart c = true ∧ ∀ d ∈ name, isWord d = true := by simpa [isName] using h
  have hne : ∀ d, isNameStart d = false → c ≠ d := by
    rintro d hd rfl
    cases hc.symm.trans hd
  refine ⟨List.cons_ne_nil _ _, fun rest hr => ?_⟩
  have hname : name? (c :: (name ++ rest)) = some (c :: name, rest) := by
    rw [name?, if_pos hc, spanning_eq (fun _ => isWord_of_isBlank) hw hr]
    rfl
  show first? dialect (c :: (name ++ rest)) = _
  rw [first?, number?_eq_none (isDecimal_of_isNameStart hc) (.inl (hne '.' rfl)),
    string?_eq_none (hne '"' rfl) (hne '\'' rfl), char?_eq_none (hne '\'' rfl), hname]
  rfl

/-- A bracket or a comma. -/
theorem first?_mark {kind : TokenKind} (hc : isBare c = true)
    (hop : ∀ op ∈ (operators dialect).map String.toList, op.head? ≠ some c)
    (h : mark? dialect (c :: rest) = some (kind, [c], rest)) :
    first? dialect (c :: rest) = some (kind, [c], rest) := by
  rw [first?_bare hc, operator?_eq_none hop, h]
  rfl

theorem stands_dot : Stands .indented ⟨.dot, ['.']⟩ := by
  refine ⟨List.cons_ne_nil _ _, fun rest hr => ?_⟩
  show first? .indented ('.' :: rest) = _
  rw [first?, number?_eq_none rfl (.inr hr), string?_eq_none (by decide) (by decide),
    char?_eq_none (by decide), name?_eq_none rfl, operator?_eq_none (by decide)]
  rfl

/-- A character inside double quotes. -/
def escapeChar (c : Char) : List Char := if c = '"' ∨ c = '\\' then ['\\', c] else [c]

/-- A text in double quotes. -/
def quoted (text : List Char) : List Char := '"' :: (text.flatMap escapeChar ++ ['"'])

theorem literalRest?_escape (text rest : List Char) :
    literalRest? '"' (text.flatMap escapeChar ++ '"' :: rest) =
      some (text.flatMap escapeChar ++ ['"'], rest) := by
  induction text with
  | nil => rfl
  | cons c text ih =>
    rw [List.flatMap_cons, List.append_assoc, escapeChar]
    split_ifs with hc
    · rcases hc with rfl | rfl <;> simp [literalRest?, ih, Cut.after]
    · rw [not_or] at hc
      simp [literalRest?, ih, Cut.after, hc.1, hc.2]

theorem unescape_escape (text : List Char) : unescape (text.flatMap escapeChar) = text := by
  induction text with
  | nil => rfl
  | cons c text ih =>
    rw [List.flatMap_cons, escapeChar]
    split_ifs with hc
    · rcases hc with rfl | rfl <;> simp [unescape, ih, unescapeChar]
    · rw [not_or] at hc
      simp [unescape, ih, hc.2]

theorem unescape_quoted (text : List Char) : unescape (Expr.literalBody (quoted text)) = text := by
  rw [Expr.literalBody, quoted, List.drop_one, List.tail_cons, List.dropLast_concat,
    unescape_escape]

theorem stands_string (text : List Char) : Stands dialect ⟨.string, quoted text⟩ := by
  refine ⟨List.cons_ne_nil _ _, fun rest hr => ?_⟩
  have hstring : string? dialect ('"' :: (text.flatMap escapeChar ++ '"' :: rest)) =
      some (quoted text, rest) := by
    rw [string?, literalRest?_escape]
    rfl
  show first? dialect ('"' :: (text.flatMap escapeChar ++ ['"'] ++ rest)) = _
  rw [List.append_assoc, List.singleton_append, first?, number?_eq_none rfl (.inl (by decide)),
    hstring]
  rfl

end Stepwise.Token
