import Stepwise.Proofs.Writing

/-!
# Cutting a text at a separator

A token is some characters at the front of the text (`first?_takes`). Blanks, brackets and commas
end every token of the indented dialect in front of them (`Separates`), so the token that is cut off
does not depend on what stands behind such a character (`first?_append`), and neither do all the
tokens of a text in front of it (`CutInto.append`).
-/

namespace Stepwise

open Text

namespace Token

/-- The cut takes some characters off the front of the text. -/
def Cut.Takes (text : List Char) (cut : Cut) : Prop := cut.1 ≠ [] ∧ cut.1 ++ cut.2 = text

section Cuts

variable {dialect : Dialect} {text : List Char} {cut : Cut}

theorem spanning_append_rest (p : Char → Bool) (text : List Char) :
    (spanning p text).1 ++ (spanning p text).2 = text :=
  List.takeWhile_append_dropWhile

theorem Cut.Takes.after {front : List Char} (hne : front ≠ []) (h : cut.1 ++ cut.2 = text) :
    Takes (front ++ text) (cut.after front) :=
  ⟨List.append_ne_nil_of_left_ne_nil hne _, by simp [Cut.after, h]⟩

theorem mantissa?_takes (h : mantissa? text = some cut) : cut.Takes text := by
  have hspan := spanning_append_rest isDecimal text
  unfold mantissa? at h
  unfold spanDigits at h
  split at h
  · rename_i rest heq
    rw [heq] at hspan
    have hrest := spanning_append_rest isDecimal rest
    split at h
    · cases h
    · rename_i fraction behind hne heq'
      cases h
      rw [heq'] at hrest
      exact ⟨List.cons_ne_nil _ _, hspan ▸ hrest ▸ rfl⟩
  · cases h
  · rename_i whole rest hne heq
    cases h
    rw [heq] at hspan
    have hrest := spanning_append_rest isDecimal rest
    rw [← hspan, List.append_cons]
    exact Cut.Takes.after (by simp) hrest
  · rename_i whole rest _ hne _ heq
    cases h
    rw [heq] at hspan
    exact ⟨hne, hspan⟩

theorem exponent_append_rest (text : List Char) :
    (exponent text).1 ++ (exponent text).2 = text := by
  unfold exponent
  split
  · rename_i mark rest
    split_ifs
    · split
      rename_i sign digits hsign
      have hrest : sign ++ digits = rest := by
        split at hsign <;> cases hsign <;> rfl
      have hspan := spanning_append_rest isDecimal digits
      unfold spanDigits
      split
      · rfl
      · rename_i heq
        rw [heq] at hspan
        simp [← hrest, ← hspan]
    · rfl
  · rfl

theorem number?_takes (h : number? dialect text = some cut) : cut.Takes text := by
  obtain ⟨m, hm, rfl⟩ := Option.map_eq_some_iff.1 h
  obtain ⟨hne, htext⟩ := mantissa?_takes hm
  have hexponent := exponent_append_rest m.2
  have hne : m.1 ++ (exponent m.2).1 ≠ [] := List.append_ne_nil_of_left_ne_nil hne _
  rw [← htext, ← hexponent, ← List.append_assoc]
  cases dialect with
  | indented => exact ⟨hne, rfl⟩
  | braced => exact Cut.Takes.after hne (spanning_append_rest _ _)

theorem literalRest?_append_rest {delimiter : Char} (h : literalRest? delimiter text = some cut) :
    cut.1 ++ cut.2 = text := by
  fun_induction literalRest? delimiter text generalizing cut with
  | case1 => cases h
  | case2 => cases h
  | case3 c rest _ ih =>
    obtain ⟨inner, hinner, rfl⟩ := Option.map_eq_some_iff.1 h
    simp [Cut.after, ih hinner]
  | case4 => cases h; rfl
  | case5 => cases h
  | case6 c rest _ _ _ ih =>
    obtain ⟨inner, hinner, rfl⟩ := Option.map_eq_some_iff.1 h
    simp [Cut.after, ih hinner]

theorem literal_takes {delimiter : Char}
    (h : (literalRest? delimiter text).map (Cut.after [delimiter]) = some cut) :
    cut.Takes (delimiter :: text) := by
  obtain ⟨inner, hinner, rfl⟩ := Option.map_eq_some_iff.1 h
  exact Cut.Takes.after (List.cons_ne_nil _ _) (literalRest?_append_rest hinner)

theorem string?_takes (h : string? dialect text = some cut) : cut.Takes text := by
  unfold string? at h
  split at h
  · exact literal_takes h
  · cases dialect with
    | indented => exact literal_takes h
    | braced => cases h
  · cases h

theorem char?_takes (h : char? dialect text = some cut) : cut.Takes text := by
  unfold char? at h
  split at h
  · split_ifs at h
    cases h
    exact ⟨List.cons_ne_nil _ _, rfl⟩
  · split_ifs at h
    cases h
    exact ⟨List.cons_ne_nil _ _, rfl⟩
  · cases h

theorem name?_takes (h : name? text = some cut) : cut.Takes text := by
  unfold name? at h
  split at h
  · split_ifs at h
    cases h
    exact Cut.Takes.after (List.cons_ne_nil _ _) (spanning_append_rest _ _)
  · cases h

theorem operator?_takes (h : operator? dialect text = some cut) : cut.Takes text := by
  obtain ⟨op, hop, rfl⟩ := Option.map_eq_some_iff.1 h
  have hmem := List.mem_of_find?_eq_some hop
  have hfits : op.isPrefixOf text = true :=
    List.find?_some (p := fun op : List Char => op.isPrefixOf text) hop
  refine ⟨?_, List.prefix_iff_eq_append.1 (List.isPrefixOf_iff_prefix.1 hfits)⟩
  rintro rfl
  cases isBare_operators [] hmem

theorem mark?_takes {kind : TokenKind} (h : mark? dialect text = some (kind, cut)) :
    cut.Takes text := by
  unfold mark? at h
  split at h
  · split_ifs at h <;> cases h <;> exact ⟨List.cons_ne_nil _ _, rfl⟩
  · cases h

/-- A token is some characters at the front of the text. -/
theorem first?_takes {kind : TokenKind} (h : first? dialect text = some (kind, cut)) :
    cut.Takes text := by
  simp only [first?, Option.orElse_eq_orElse, Option.orElse_eq_or, Option.or_eq_some_iff,
    Option.map_eq_some_iff] at h
  rcases h with ⟨_, h, hk⟩ | ⟨-, ⟨_, h, hk⟩ | ⟨-, ⟨_, h, hk⟩ | ⟨-, ⟨_, h, hk⟩ |
    ⟨-, ⟨_, h, hk⟩ | ⟨-, h⟩⟩⟩⟩⟩
  · cases hk
    exact number?_takes h
  · cases hk
    exact string?_takes h
  · cases hk
    exact char?_takes h
  · cases hk
    exact name?_takes h
  · cases hk
    exact operator?_takes h
  · exact mark?_takes h

end Cuts

/-- A character that ends every token in front of it. -/
structure Separates (c : Char) : Prop where
  notDecimal : isDecimal c = false
  notWord : isWord c = false
  notPoint : c ≠ '.'
  notOperator : ∀ op ∈ (operators .indented).map String.toList, c ∉ op

theorem separates_blank {c : Char} (h : isBlank c = true) : Separates c where
  notDecimal := isDecimal_of_isBlank h
  notWord := isWord_of_isBlank h
  notPoint := by
    rintro rfl
    cases h
  notOperator op hop hc := by
    rw [isBlank_operators op hop c hc] at h
    cases h

theorem separates_mark {c : Char} (h : c ∈ ['(', ')', '[', ']', ',']) : Separates c := by
  have hall : ['(', ')', '[', ']', ','].all (fun c => !isDecimal c && !isWord c && c != '.' &&
      ((operators .indented).map String.toList).all (!·.contains c)) = true := by decide
  have hc := List.all_eq_true.1 hall c h
  simp only [Bool.and_eq_true, Bool.not_eq_true', bne_iff_ne, List.all_eq_true] at hc
  exact ⟨hc.1.1.1, hc.1.1.2, hc.1.2, fun op hop => by simpa using hc.2 op hop⟩

/-- The cut of a longer text. -/
def Cut.followedBy (rest : List Char) (cut : Cut) : Cut := (cut.1, cut.2 ++ rest)

theorem spanning_append {c : Char} {p : Char → Bool} (hc : p c = false) (text rest : List Char) :
    spanning p (text ++ c :: rest) = (spanning p text).followedBy (c :: rest) := by
  have hhead : ∀ d ∈ (c :: rest).head?, p d = false := by
    rintro d ⟨⟩
    exact hc
  rw [spanning, takeWhile_append_of_head hhead, dropWhile_append_of_head hhead]
  rfl

theorem literalRest?_cons {c delimiter : Char} (hc : c ≠ '\\') (rest : List Char) :
    literalRest? delimiter (c :: rest) =
      if c = delimiter then some ([c], rest)
      else (literalRest? delimiter rest).map (Cut.after [c]) := by
  rw [literalRest?.eq_3 _ _ _ (by rintro _ _ rfl; exact absurd rfl hc)]
  simp [hc]

/-- A literal that is closed is the same, whatever follows. -/
theorem literalRest?_append {delimiter : Char} {text : List Char} {cut : Cut}
    (hd : delimiter ≠ '\\') (h : literalRest? delimiter text = some cut) (rest : List Char) :
    literalRest? delimiter (text ++ rest) = some (cut.followedBy rest) := by
  fun_induction literalRest? delimiter text generalizing cut with
  | case1 => cases h
  | case2 => cases h
  | case3 c text hc ih =>
    obtain ⟨inner, hinner, rfl⟩ := Option.map_eq_some_iff.1 h
    simp only [List.cons_append, literalRest?, if_neg hc, ih hinner]
    rfl
  | case4 c text hescape hc =>
    cases h
    have hc : c = delimiter := beq_iff_eq.1 hc
    rw [List.cons_append, literalRest?_cons (hc ▸ hd), if_pos hc]
    rfl
  | case5 => cases h
  | case6 c text hescape hc hslash ih =>
    obtain ⟨inner, hinner, rfl⟩ := Option.map_eq_some_iff.1 h
    rw [List.cons_append, literalRest?_cons (by simpa using hslash), if_neg (by simpa using hc),
      ih hinner]
    rfl

theorem string?_append {text : List Char} {cut : Cut} (h : string? .indented text = some cut)
    (rest : List Char) : string? .indented (text ++ rest) = some (cut.followedBy rest) := by
  unfold string? at h
  split at h
  · obtain ⟨inner, hinner, rfl⟩ := Option.map_eq_some_iff.1 h
    rw [List.cons_append, string?, literalRest?_append (by decide) hinner]
    rfl
  · obtain ⟨inner, hinner, rfl⟩ := Option.map_eq_some_iff.1 h
    rw [List.cons_append, string?, literalRest?_append (by decide) hinner]
    rfl
  · cases h

theorem mark?_append {text : List Char} (htext : text ≠ []) (rest : List Char) :
    mark? .indented (text ++ rest) =
      (mark? .indented text).map (Prod.map id (Cut.followedBy rest)) := by
  obtain ⟨d, text, rfl⟩ := List.exists_cons_of_ne_nil htext
  rw [List.cons_append, mark?, mark?]
  split_ifs <;> rfl

theorem first?_quote {c : Char} (h : c = '"' ∨ c = '\'') (rest : List Char) :
    first? .indented (c :: rest) = (string? .indented (c :: rest)).map (Prod.mk .string) := by
  rcases h with rfl | rfl <;>
    rw [first?, number?_eq_none rfl (.inl (by decide)), name?_eq_none rfl,
      operator?_eq_none (by decide)] <;>
    cases string? .indented _ <;> rfl

namespace Separates

variable {c : Char} (hc : Separates c)
include hc

theorem spanDigits_append (text rest : List Char) :
    spanDigits (text ++ c :: rest) = (spanDigits text).followedBy (c :: rest) :=
  spanning_append hc.notDecimal text rest

/-- A character that separates ends the mantissa in front of it. -/
theorem mantissa?_append (text rest : List Char) :
    mantissa? (text ++ c :: rest) = (mantissa? text).map (Cut.followedBy (c :: rest)) := by
  unfold mantissa?
  rw [hc.spanDigits_append]
  obtain ⟨whole, behind⟩ := spanDigits text
  have hpoint := hc.notPoint
  cases behind with
  | nil => cases whole <;> simp [Cut.followedBy, hpoint]
  | cons d behind =>
    by_cases hd : d = '.'
    · subst hd
      have hfraction := hc.spanDigits_append behind rest
      cases whole with
      | nil =>
        simp only [Cut.followedBy, List.cons_append, hfraction]
        obtain ⟨fraction, tail⟩ := spanDigits behind
        cases fraction <;> rfl
      | cons d whole =>
        simp only [Cut.followedBy, List.cons_append, hfraction]
        rfl
    · cases whole <;> simp [Cut.followedBy, hd]

theorem notSign : c ≠ '+' ∧ c ≠ '-' := by
  constructor
  · rintro rfl
    exact hc.notOperator ['+'] (by decide) (by decide)
  · rintro rfl
    exact hc.notOperator ['-'] (by decide) (by decide)

theorem exponent_append (text rest : List Char) :
    exponent (text ++ c :: rest) = (exponent text).followedBy (c :: rest) := by
  obtain ⟨hplus, hminus⟩ := hc.notSign
  cases text with
  | nil =>
    have hmark : (c == 'e' || c == 'E') = false := by
      have := hc.notWord
      rw [← Bool.not_eq_true, Bool.or_eq_true, beq_iff_eq, beq_iff_eq]
      rintro (rfl | rfl) <;> cases this
    simp [exponent, hmark, Cut.followedBy]
  | cons mark text =>
    simp only [exponent, List.cons_append]
    split_ifs with hmark
    · cases text with
      | nil => simp [spanDigits, spanning, hc.notDecimal, hplus, hminus, Cut.followedBy]
      | cons sign text =>
        by_cases hsign : sign = '+' ∨ sign = '-'
        · have hspan := hc.spanDigits_append text rest
          rcases hsign with rfl | rfl <;> simp only [List.cons_append, hspan] <;>
            obtain ⟨digits, tail⟩ := spanDigits text <;> cases digits <;> rfl
        · have hspan := hc.spanDigits_append (sign :: text) rest
          simp only [not_or] at hsign
          simp only [List.cons_append] at hspan ⊢
          simp only [hsign.1, hsign.2, hspan, List.cons.injEq, false_and, false_implies,
            implies_true]
          obtain ⟨digits, tail⟩ := spanDigits (sign :: text)
          cases digits <;> rfl
    · rfl

theorem number?_append (text rest : List Char) :
    number? .indented (text ++ c :: rest) =
      (number? .indented text).map (Cut.followedBy (c :: rest)) := by
  unfold number?
  rw [hc.mantissa?_append, Option.map_map, Option.map_map]
  congr 1
  funext cut
  simp only [Function.comp, Cut.followedBy, hc.exponent_append]

theorem name?_append {text : List Char} (htext : text ≠ []) (rest : List Char) :
    name? (text ++ c :: rest) = (name? text).map (Cut.followedBy (c :: rest)) := by
  obtain ⟨d, text, rfl⟩ := List.exists_cons_of_ne_nil htext
  rw [List.cons_append, name?, name?, spanning_append hc.notWord]
  split_ifs <;> rfl

theorem operator?_append (text rest : List Char) :
    operator? .indented (text ++ c :: rest) =
      (operator? .indented text).map (Cut.followedBy (c :: rest)) := by
  have hfind : ((operators .indented).map String.toList).find? (·.isPrefixOf (text ++ c :: rest)) =
      ((operators .indented).map String.toList).find? (·.isPrefixOf text) := by
    rw [← List.head?_filter, ← List.head?_filter,
      List.filter_congr fun op hop => isPrefixOf_append_cons (hc.notOperator op hop) text rest]
  rw [operator?, operator?, hfind, Option.map_map]
  refine Option.map_congr fun op hop => ?_
  have hfits : op.isPrefixOf text = true :=
    List.find?_some (p := fun op : List Char => op.isPrefixOf text) hop
  have hlength := (List.isPrefixOf_iff_prefix.1 hfits).length_le
  rw [Function.comp, Cut.followedBy, List.drop_append_of_le_length hlength]

/-- A token that does not begin with a quote does not depend on what follows a separator. -/
theorem first?_append_of_ne {d : Char} (hquote : d ≠ '"' ∧ d ≠ '\'') (text rest : List Char) :
    first? .indented (d :: text ++ c :: rest) =
      (first? .indented (d :: text)).map (Prod.map id (Cut.followedBy (c :: rest))) := by
  have hne : d :: text ≠ [] := List.cons_ne_nil _ _
  have hnone : ∀ tail, string? .indented (d :: tail) = none := fun _ =>
    string?_eq_none hquote.1 hquote.2
  rw [first?, first?, hc.number?_append, hc.name?_append hne, hc.operator?_append,
    mark?_append hne, hnone, List.cons_append, hnone, char?_eq_none hquote.2,
    char?_eq_none hquote.2]
  cases number? .indented (d :: text) <;> cases name? (d :: text) <;>
    cases operator? .indented (d :: text) <;> rfl

/-- A token does not depend on what follows a separator. -/
theorem first?_append {text : List Char} {kind : TokenKind} {cut : Cut}
    (h : first? .indented text = some (kind, cut)) (rest : List Char) :
    first? .indented (text ++ c :: rest) = some (kind, cut.followedBy (c :: rest)) := by
  obtain ⟨d, text, rfl⟩ : ∃ d tail, text = d :: tail := by
    obtain ⟨hne, htext⟩ := first?_takes h
    exact List.exists_cons_of_ne_nil (htext ▸ List.append_ne_nil_of_left_ne_nil hne _)
  by_cases hquote : d = '"' ∨ d = '\''
  · rw [first?_quote hquote] at h
    obtain ⟨literal, hliteral, hcut⟩ := Option.map_eq_some_iff.1 h
    cases hcut
    rw [List.cons_append, first?_quote hquote, ← List.cons_append, string?_append hliteral]
    rfl
  · rw [hc.first?_append_of_ne (not_or.1 hquote), h]
    rfl

end Separates

/-- The text is cut into the tokens. -/
inductive CutInto (dialect : Dialect) : List Char → List Token → Prop
  | nil : CutInto dialect [] []
  | blank {c : Char} {text : List Char} {ts : List Token} : isBlank c = true →
    CutInto dialect text ts → CutInto dialect (c :: text) ts
  | token {text lexeme rest : List Char} {kind : TokenKind} {ts : List Token} :
    first? dialect text = some (kind, lexeme, rest) → CutInto dialect rest ts →
    CutInto dialect text (⟨kind, lexeme⟩ :: ts)

section Scanning

variable {dialect : Dialect} {text rest : List Char} {ts us : List Token} {fuel : Nat}

theorem length_lt_of_first? {kind : TokenKind} {lexeme : List Char}
    (h : first? dialect text = some (kind, lexeme, rest)) : rest.length < text.length := by
  obtain ⟨hne, htext⟩ := first?_takes h
  have hpos := List.length_pos_of_ne_nil hne
  rw [← htext, List.length_append]
  exact Nat.lt_add_of_pos_left hpos

theorem scan_token {kind : TokenKind} {lexeme : List Char}
    (h : first? dialect text = some (kind, lexeme, rest)) (fuel : Nat) :
    scan dialect (fuel + 1) text = (⟨kind, lexeme⟩ :: ·) <$> scan dialect fuel rest := by
  have hpos := length_lt_of_first? h
  cases text with
  | nil => cases hpos
  | cons c text =>
    rw [scan, h]
    rfl

theorem scan_blank {c : Char} (hc : isBlank c = true) (fuel : Nat) :
    scan dialect (fuel + 1) (c :: text) = scan dialect fuel text := by
  rw [scan, first?_blank hc, if_pos hc]

/-- A scan cuts the text into its tokens. -/
theorem cutInto_of_scan : ∀ {fuel : Nat} {text : List Char} {ts : List Token},
    text.length ≤ fuel → scan dialect fuel text = .ok ts → CutInto dialect text ts
  | 0, [], _, _, h => by
    cases h
    exact .nil
  | _ + 1, [], _, _, h => by
    cases h
    exact .nil
  | fuel + 1, c :: text, ts, hfuel, h => by
    rw [List.length_cons] at hfuel
    rw [scan] at h
    split at h
    · rename_i kind lexeme rest hfirst
      have hlt := length_lt_of_first? hfirst
      rw [List.length_cons] at hlt
      cases hscan : scan dialect fuel rest with
      | error e =>
        rw [hscan] at h
        cases h
      | ok more =>
        rw [hscan] at h
        cases h
        exact .token hfirst (cutInto_of_scan (by omega) hscan)
    · split_ifs at h with hblank
      exact .blank hblank (cutInto_of_scan (by omega) h)

/-- The tokens in front of a separator are those of the text without it. -/
theorem CutInto.scan_append {c : Char} (h : CutInto .indented text ts) (hc : Separates c)
    (rest : List Char) : ∀ {fuel : Nat}, (text ++ c :: rest).length ≤ fuel →
    ∃ fuel', (c :: rest).length ≤ fuel' ∧
      scan .indented fuel (text ++ c :: rest) = (ts ++ ·) <$> scan .indented fuel' (c :: rest) := by
  induction h with
  | nil => exact fun {fuel} hfuel => ⟨fuel, hfuel, by simp⟩
  | @blank d text ts hd _ ih =>
    rintro (_ | fuel) hfuel
    · cases hfuel
    · obtain ⟨fuel', hfuel', heq⟩ := @ih fuel (Nat.le_of_succ_le_succ hfuel)
      exact ⟨fuel', hfuel', by rw [List.cons_append, scan_blank hd, heq]⟩
  | @token text lexeme behind kind ts hfirst _ ih =>
    have hlt := length_lt_of_first? hfirst
    rintro (_ | fuel) hfuel <;> rw [List.length_append] at hfuel
    · omega
    · obtain ⟨fuel', hfuel', heq⟩ := @ih fuel (by rw [List.length_append]; omega)
      refine ⟨fuel', hfuel', ?_⟩
      rw [scan_token (hc.first?_append hfirst rest), heq]
      simp [Functor.map_map]

theorem CutInto.append {c : Char} (h : CutInto .indented text ts) (hc : Separates c)
    (hrest : CutInto .indented (c :: rest) us) :
    CutInto .indented (text ++ c :: rest) (ts ++ us) := by
  induction h with
  | nil => exact hrest
  | blank hd _ ih => exact .blank hd ih
  | token hfirst _ ih => exact .token (hc.first?_append hfirst rest) ih

/-- A text that is cut into tokens is scanned into them, with fuel for every character. -/
theorem CutInto.scan (h : CutInto dialect text ts) :
    ∀ {fuel : Nat}, text.length ≤ fuel → scan dialect fuel text = .ok ts := by
  induction h with
  | nil =>
    intro fuel _
    cases fuel <;> rfl
  | blank hd _ ih =>
    rintro (_ | fuel) hfuel
    · cases hfuel
    · rw [scan_blank hd, ih (Nat.le_of_succ_le_succ hfuel)]
  | token hfirst _ ih =>
    have hlt := length_lt_of_first? hfirst
    rintro (_ | fuel) hfuel
    · omega
    · rw [scan_token hfirst, ih (by omega)]
      rfl

theorem tokenize_eq_ok_iff : tokenize dialect text = .ok ts ↔ CutInto dialect text ts :=
  ⟨cutInto_of_scan (Nat.le_refl _), fun h => h.scan (Nat.le_refl _)⟩

theorem cutInto_name (h : isName text = true) : CutInto dialect text [⟨.name, text⟩] := by
  have hfirst := (@stands_name dialect _ h).2 [] apart_nil
  rw [List.append_nil] at hfirst
  exact .token hfirst .nil

/-- A bracket or a comma is a token wherever it stands. -/
theorem CutInto.mark {t : Token}
    (ht : t ∈ [openParen, closeParen, openBracket, closeBracket, comma])
    (h : CutInto dialect rest ts) : CutInto dialect (t.text ++ rest) (t :: ts) :=
  .token (first?_marks t ht rest) h

end Scanning

end Token

end Stepwise
