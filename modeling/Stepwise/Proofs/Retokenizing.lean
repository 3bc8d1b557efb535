import Stepwise.Proofs.Lexemes

/-!
# Tokens written again

The tokens of a text are its words: nothing but blanks is left out between them. Written with single
blanks between them, they are the same tokens again, because no lexeme goes on behind a blank: only
literals hold blanks, and no literal begins another one (`Lexeme.isPrefix_of_apart`). A text has no
tokens exactly if the scan comes to a place where neither a lexeme nor a blank stands
(`tokenize_lossless`).
-/

namespace Stepwise

open Text Source

namespace Token

open Number

variable {dialect : Dialect} {kind : TokenKind} {text rest w : List Char} {c : Char}

/-- A character that separates tokens or opens a literal. -/
def isEdge (c : Char) : Bool := isBlank c || isQuote c

theorem isEdge_of_isWord (h : isWord c = true) : isEdge c = false := by
  have hne : ∀ d, isWord d = false → c ≠ d := by
    rintro d hd rfl
    cases h.symm.trans hd
  simp [isEdge, isBlank_of_isWord h, isQuote, hne '"' rfl, hne '\'' rfl]

theorem isEdge_of_isDecimal (h : isDecimal c = true) : isEdge c = false := by
  have hne : ∀ d, isDecimal d = false → c ≠ d := by
    rintro d hd rfl
    cases h.symm.trans hd
  simp [isEdge, isBlank_of_isDecimal h, isQuote, hne '"' rfl, hne '\'' rfl]

theorem isEdge_of_isNumeric (h : isNumeric c = true) : isEdge c = false := by
  simp only [isNumeric, Bool.or_eq_true, beq_iff_eq] at h
  rcases h with ((((h | rfl) | rfl) | rfl) | rfl) | rfl
  · exact isEdge_of_isDecimal h
  all_goals rfl

theorem isEdge_of_isNumberSuffix (h : isNumberSuffix c = true) : isEdge c = false := by
  have hall : "fFlLuU".toList.all (fun d => !isEdge d) = true := by decide
  simpa using List.all_eq_true.1 hall c (by simpa [isNumberSuffix] using h)

theorem isEdge_operators :
    ∀ op ∈ (operators dialect).map String.toList, ∀ c ∈ op, isEdge c = false := by
  have hall : ((operators dialect).map String.toList).all (fun op => op.all fun c => !isEdge c) =
      true := by
    cases dialect <;> decide
  intro op hop c hc
  simpa using List.all_eq_true.1 (List.all_eq_true.1 hall op hop) c hc

/-- Blanks and quotes stand in literals only. -/
theorem Lexeme.plain_or_literal (h : Lexeme dialect kind w) :
    (∀ c ∈ w, isEdge c = false) ∨
      ∃ delimiter tail, w = delimiter :: tail ∧ isQuote delimiter = true ∧
        LiteralTail delimiter tail := by
  have hmark : ∀ {mark : Char}, isEdge mark = false → w = [mark] → ∀ c ∈ w, isEdge c = false := by
    rintro mark hmark rfl c hc
    rw [List.mem_singleton.1 hc, hmark]
  cases kind with
  | number =>
    obtain ⟨m, e, suffix, rfl, hm, he, hs⟩ := h
    refine .inl fun c hc => ?_
    rcases List.mem_append.1 hc with hc | hc
    · rcases List.mem_append.1 hc with hc | hc
      · exact isEdge_of_isNumeric (hm.isNumeric c hc)
      · exact isEdge_of_isNumeric (he.isNumeric c hc)
    · exact isEdge_of_isNumberSuffix (hs c hc).2
  | string =>
    obtain ⟨delimiter, tail, rfl, hd, htail⟩ := h
    refine .inr ⟨delimiter, tail, rfl, ?_, htail⟩
    rcases hd with rfl | ⟨rfl, -⟩ <;> rfl
  | char =>
    obtain ⟨unit, rfl, -, hunit⟩ := h
    exact .inr ⟨'\'', unit ++ ['\''], rfl, rfl, .unit hunit .close⟩
  | name => exact .inl fun c hc => isEdge_of_isWord (isWord_of_isName h c hc)
  | op => exact .inl (isEdge_operators w h)
  | leftParen => exact .inl (hmark rfl h)
  | rightParen => exact .inl (hmark rfl h)
  | leftBracket => exact .inl (hmark rfl h)
  | rightBracket => exact .inl (hmark rfl h)
  | comma => exact .inl (hmark rfl h)
  | dot => exact .inl (hmark rfl h.1)
  | done => exact h.elim

theorem Lexeme.ne_nil (h : Lexeme dialect kind w) : w ≠ [] := by
  rintro rfl
  have hblank : first? dialect [' '] = none := first?_blank rfl
  exact first?_eq_none_iff.1 hblank kind [] h List.nil_prefix

/-- No lexeme goes on behind a blank that follows another one. -/
theorem Lexeme.isPrefix_of_apart {other : TokenKind} {lexeme : List Char}
    (hw : Lexeme dialect kind w) (hlexeme : Lexeme dialect other lexeme) (hrest : Apart rest)
    (h : w <+: lexeme ++ rest) : w <+: lexeme := by
  rcases List.prefix_or_prefix_of_prefix h (List.prefix_append lexeme rest) with h' | ⟨more, rfl⟩
  · exact h'
  cases more with
  | nil => simp
  | cons c more =>
    exfalso
    have hblank : isBlank c = true := by
      obtain ⟨behind, rfl⟩ := (List.prefix_append_right_inj lexeme).1 h
      exact hrest c rfl
    rcases hw.plain_or_literal with hplain | ⟨delimiter, tail, htail, hquote, hliteral⟩
    · have hedge := hplain c (by simp)
      rw [isEdge, hblank] at hedge
      cases hedge
    · -- The literal that goes on begins with the same quote as the lexeme in front of the blank.
      obtain ⟨d, inner, rfl⟩ := List.exists_cons_of_ne_nil hlexeme.ne_nil
      obtain ⟨rfl, rfl⟩ := List.cons.inj htail
      rcases hlexeme.plain_or_literal with hplain | ⟨d', tail', htail', -, hliteral'⟩
      · have hedge := hplain d List.mem_cons_self
        rw [isEdge, hquote, Bool.or_true] at hedge
        cases hedge
      · obtain ⟨rfl, rfl⟩ := List.cons.inj htail'
        have hslash : d ≠ '\\' := by
          rintro rfl
          cases hquote
        have heq := hliteral'.eq_of_isPrefix hslash hliteral (List.prefix_append _ _)
        simp at heq

theorem Leads.stands {t : Token} (h : Leads dialect text t rest) : Stands dialect t := by
  refine ⟨h.lexeme.ne_nil, fun behind hbehind => first?_eq_some_iff.2 ⟨h.lexeme, rfl, ?_, ?_⟩⟩
  · exact fun w hw hfront => hw.isPrefix_of_apart h.lexeme hbehind hfront
  · intro earlier hearlier w hw hfront
    have hlexeme : w <+: t.text := hw.isPrefix_of_apart h.lexeme hbehind hfront
    exact h.first earlier hearlier w hw (hlexeme.trans ⟨rest, h.append⟩)

/-- Every token that is found in some text is found wherever a blank or the end follows. -/
theorem Lexed.stands {t : Token} (h : Lexed dialect t) : Stands dialect t := by
  obtain ⟨text, rest, hfirst⟩ := h
  exact (first?_eq_some_iff.1 hfirst).stands

/-! ### What is left out -/

/-- The text is made of the words in order, with only blanks before, between and behind them. -/
inductive Interspersed : List (List Char) → List Char → Prop
  | nil {gap : List Char} : (∀ c ∈ gap, isBlank c = true) → Interspersed [] gap
  | cons {gap word text : List Char} {words : List (List Char)} : (∀ c ∈ gap, isBlank c = true) →
    Interspersed words text → Interspersed (word :: words) (gap ++ word ++ text)

theorem Interspersed.blank {words : List (List Char)} (hc : isBlank c = true)
    (h : Interspersed words text) : Interspersed words (c :: text) := by
  cases h with
  | nil hgap => exact .nil (List.forall_mem_cons.2 ⟨hc, hgap⟩)
  | @cons gap word text words hgap h =>
    exact @cons (c :: gap) word text words (List.forall_mem_cons.2 ⟨hc, hgap⟩) h

theorem CutInto.interspersed {ts : List Token} (h : CutInto dialect text ts) :
    Interspersed (ts.map Token.text) text := by
  induction h with
  | nil => exact .nil (List.forall_mem_nil _)
  | blank hc _ ih => exact ih.blank hc
  | @token text lexeme rest kind ts hfirst _ ih =>
    obtain ⟨-, htext⟩ := first?_takes hfirst
    rw [← htext]
    exact .cons (List.forall_mem_nil _) ih

theorem spaced_intercalate : ∀ ts : List Token,
    Spaced ts ([' '].intercalate (ts.map Token.text))
  | [] => .nil
  | [_] => .token apart_nil .nil
  | _ :: next :: ts => .token (apart_cons rfl) (.blank rfl (spaced_intercalate (next :: ts)))

/-! ### Where the scan stops -/

/-- The scan of a text from left to right comes to a point, taking tokens and blanks. -/
inductive ScansTo (dialect : Dialect) (point : List Char) : List Char → Prop
  | here : ScansTo dialect point point
  | blank {c : Char} {rest : List Char} : isBlank c = true → ScansTo dialect point rest →
    ScansTo dialect point (c :: rest)
  | token {t : Token} {text rest : List Char} : Leads dialect text t rest →
    ScansTo dialect point rest → ScansTo dialect point text

/-- Neither a lexeme nor a blank stands at the front of the text. -/
structure Stray (dialect : Dialect) (c : Char) (rest : List Char) : Prop where
  noLexeme : ∀ kind w, Lexeme dialect kind w → ¬ w <+: c :: rest
  notBlank : isBlank c = false

/-- A scan that fails comes to a place where neither a lexeme nor a blank stands. -/
theorem exists_stray_of_scan {e : ParseError} : ∀ {fuel : Nat} {text : List Char},
    scan dialect fuel text = .error e →
      ∃ c rest, e = .strayCharacter c ∧ ScansTo dialect (c :: rest) text ∧ Stray dialect c rest
  | 0, _, h => by cases h
  | _ + 1, [], h => by cases h
  | fuel + 1, c :: text, h => by
    rw [scan] at h
    split at h
    · rename_i kind lexeme behind hfirst
      cases hscan : scan dialect fuel behind with
      | ok ts =>
        rw [hscan] at h
        cases h
      | error e' =>
        rw [hscan] at h
        cases h
        obtain ⟨d, rest, he, hscans, hstray⟩ := exists_stray_of_scan hscan
        exact ⟨d, rest, he, .token (first?_eq_some_iff.1 hfirst) hscans, hstray⟩
    · rename_i hnone
      split_ifs at h with hblank
      · obtain ⟨d, rest, he, hscans, hstray⟩ := exists_stray_of_scan h
        exact ⟨d, rest, he, .blank hblank hscans, hstray⟩
      · cases h
        exact ⟨c, text, rfl, .here, first?_eq_none_iff.1 hnone, Bool.eq_false_of_not_eq_true hblank⟩

/-- A scan that comes to such a place fails there. -/
theorem ScansTo.scan (h : ScansTo dialect (c :: rest) text) (hstray : Stray dialect c rest) :
    ∀ {fuel : Nat}, text.length ≤ fuel → scan dialect fuel text = .error (.strayCharacter c) := by
  induction h with
  | here =>
    rintro (_ | fuel) hfuel
    · cases hfuel
    · rw [Token.scan, first?_eq_none_iff.2 hstray.noLexeme]
      dsimp only
      rw [hstray.notBlank]
      rfl
  | blank hd _ ih =>
    rintro (_ | fuel) hfuel
    · cases hfuel
    · rw [scan_blank hd, ih (Nat.le_of_succ_le_succ hfuel)]
  | @token t text behind hleads _ ih =>
    have hfirst := first?_eq_some_iff.2 hleads
    have hlt := length_lt_of_first? hfirst
    rintro (_ | fuel) hfuel
    · omega
    · rw [scan_token hfirst, ih (by omega)]
      rfl

end Token

open Token

/-- The text of the tokens is all of the text but blanks, and with single blanks between them they
are the same tokens again. There is an error exactly if the scan comes to a character that no lexeme
begins with and that is no blank. -/
theorem tokenize_lossless (dialect : Dialect) (text : List Char) :
    (∀ ts, tokenize dialect text = .ok ts →
      (∀ t ∈ ts, Lexeme dialect t.kind t.text) ∧
      Interspersed (ts.map Token.text) text ∧
      tokenize dialect ([' '].intercalate (ts.map Token.text)) = .ok ts) ∧
    ∀ e, tokenize dialect text = .error e ↔
      ∃ c rest, e = .strayCharacter c ∧ ScansTo dialect (c :: rest) text ∧
        Stray dialect c rest := by
  refine ⟨fun ts h => ⟨?_, ?_, ?_⟩, fun e => ⟨exists_stray_of_scan, ?_⟩⟩
  · intro t ht
    obtain ⟨whole, rest, hfirst⟩ := scan_lexed h t ht
    exact (first?_eq_some_iff.1 hfirst).lexeme
  · exact (tokenize_eq_ok_iff.1 h).interspersed
  · exact tokenize_spaced (spaced_intercalate ts) fun t ht => (scan_lexed h t ht).stands
  · rintro ⟨c, rest, rfl, hscans, hstray⟩
    exact hscans.scan hstray (Nat.le_refl _)

theorem tokenize_lossless_touching :
    let text := "x1.count('it\\'s')**-.5e+3//2.".toList
    let ts : List Token := [⟨.name, "x1".toList⟩, ⟨.dot, ['.']⟩, ⟨.name, "count".toList⟩,
      ⟨.leftParen, ['(']⟩, ⟨.string, "'it\\'s'".toList⟩, ⟨.rightParen, [')']⟩, ⟨.op, "**".toList⟩,
      ⟨.op, ['-']⟩, ⟨.number, ".5e+3".toList⟩, ⟨.op, "//".toList⟩, ⟨.number, "2.".toList⟩]
    tokenize .indented text = .ok ts ∧ Interspersed (ts.map Token.text) text ∧
      tokenize .indented "x1 . count ( 'it\\'s' ) ** - .5e+3 // 2.".toList = .ok ts := by
  intro text ts
  have htokens : tokenize .indented text = .ok ts := by decide
  exact ⟨htokens, ((tokenize_lossless .indented text).1 ts htokens).2⟩

end Stepwise
