import Mathlib.Data.List.Induction
import Mathlib.Data.List.Forall2
import Stepwise.Proofs.CodeChars

/-!
# Comment markers in literals

A line comment begins where its marker stands outside literals, so a marker in a literal is text
like any other. Block comments are taken out of the whole source before literals are looked at: an
opening marker that has a closing one behind it begins a comment, wherever the two stand. So markers
in literals are text, and the lines of the layout are the lines of the source without blanks and
closing braces around them, exactly as long as no two of them make such a pair
(`braceLayout_of_quoted`). A pair is taken out of its literal (`braceLayout_empties_literal`).
-/

namespace Stepwise

open Source Text

/-! ### Block comments -/

section BlockComments

variable {needle text : List Char} {c : Char}

/-- An opening marker of a block comment has a closing one behind it. -/
def HasBlockComment (source : List Char) : Prop :=
  ∃ i j, i + 2 ≤ j ∧ ['/', '*'] <+: source.drop i ∧ ['*', '/'] <+: source.drop j

theorem occursIn_iff : occursIn needle text = true ↔ ∃ j, needle <+: text.drop j := by
  induction text with
  | nil =>
    simp only [occursIn, indexOf?, List.drop_nil, List.prefix_nil, exists_const]
    cases needle <;> simp
  | cons c text ih =>
    by_cases hhead : needle <+: c :: text
    · rw [occursIn, indexOf?, if_pos (List.isPrefixOf_iff_prefix.2 hhead)]
      exact ⟨fun _ => ⟨0, hhead⟩, fun _ => rfl⟩
    · rw [occursIn, indexOf?, if_neg (mt List.isPrefixOf_iff_prefix.1 hhead), Option.isSome_map]
      refine ih.trans ⟨?_, ?_⟩
      · rintro ⟨j, hj⟩
        exact ⟨j + 1, hj⟩
      · rintro ⟨_ | j, hj⟩
        · exact absurd hj hhead
        · exact ⟨j, hj⟩

/-- A block comment starts at the head of a text or behind it. -/
theorem hasBlockComment_cons :
    HasBlockComment (c :: text) ↔
      (c == '/' && text.head? == some '*' && occursIn ['*', '/'] (text.drop 1)) = true ∨
        HasBlockComment text := by
  have hhead : ['/', '*'] <+: c :: text ↔ c = '/' ∧ text.head? = some '*' := by
    rw [List.cons_prefix_cons, eq_comm]
    cases text <;> simp [eq_comm]
  have hbehind (j : Nat) : (c :: text).drop (j + 2) = (text.drop 1).drop j := by
    rw [List.drop_succ_cons, List.drop_drop, Nat.add_comm]
  simp only [Bool.and_eq_true, beq_iff_eq, occursIn_iff, ← hhead, ← hbehind]
  constructor
  · rintro ⟨_ | i, j, hij, hopen, hclose⟩
    · exact .inl ⟨hopen, j - 2, by rwa [Nat.sub_add_cancel (by omega)]⟩
    · obtain ⟨j, rfl⟩ : ∃ k, j = k + 1 := ⟨j - 1, by omega⟩
      exact .inr ⟨i, j, by omega, hopen, hclose⟩
  · rintro (⟨hopen, j, hclose⟩ | ⟨i, j, hij, hopen, hclose⟩)
    · exact ⟨0, j + 2, by omega, hopen, hclose⟩
    · exact ⟨i + 1, j + 1, by omega, hopen, hclose⟩

theorem length_dropBlockComments_le (inside second : Bool) (text : List Char) :
    (dropBlockComments inside second text).length ≤ text.length := by
  fun_induction dropBlockComments inside second text <;> grind

/-- A source stays as it is exactly if it has no block comment. -/
theorem dropBlockComments_eq_self_iff :
    dropBlockComments false false text = text ↔ ¬ HasBlockComment text := by
  induction text with
  | nil => simp [dropBlockComments, HasBlockComment]
  | cons c text ih =>
    rw [hasBlockComment_cons, dropBlockComments]
    split_ifs with hopen
    · refine ⟨fun h => ?_, fun h => absurd (.inl hopen) h⟩
      have hle := length_dropBlockComments_le true true text
      rw [h, List.length_cons] at hle
      omega
    · rw [or_iff_right hopen, List.cons.injEq, and_iff_right rfl, ih]

end BlockComments

/-! ### Lines without comments -/

section Lines

variable {marker raw text : List Char}

/-- Every marker in a line of the source begins inside a literal. -/
def Quoted (markers : List (List Char)) (source : List Char) : Prop :=
  ∀ raw ∈ sourceLines source, ∀ marker ∈ markers, ∀ i < raw.length,
    marker <+: raw.drop i → quotingAt raw i ≠ .code

instance (markers : List (List Char)) (source : List Char) : Decidable (Quoted markers source) :=
  inferInstanceAs (Decidable (∀ raw ∈ sourceLines source, _))

/-- A line without the blanks at its ends and the closing braces in front of its text. -/
def bareText (raw : List Char) : List Char :=
  trim (raw.dropWhile fun c => isBlank c || c == '\x7d')

/-- What a line of the layout is without any comment: blank if its text is for the preprocessor or
is all punctuation, and otherwise the text itself. -/
structure IsBare (l : Line) (raw : List Char) : Prop where
  blank : l.blank = true ↔ (bareText raw).head? = some '#' ∨ isPunctuation (bareText raw) = true
  text : l.blank = false → l.text = bareText raw

theorem stripComment_of_quoted
    (h : ∀ i < text.length, marker <+: text.drop i → quotingAt text i ≠ .code) :
    stripComment marker text = text := by
  have hnone : (codeChars text).find? (fun p => marker.isPrefixOf (text.drop p.1)) = none := by
    rw [List.find?_eq_none]
    rintro ⟨i, c⟩ hp hmark
    obtain ⟨hc, hsees⟩ := mem_codeChars.1 hp
    exact h i (List.getElem?_eq_some_iff.1 hc).1 (List.isPrefixOf_iff_prefix.1 hmark)
      (code_of_seesCode hsees).1
  rw [(seesCodeChars text).comments, hnone, Option.elim_none, List.take_length]

section Blanks

variable {p : Char → Bool} (hp : ∀ c, isBlank c = true → p c = true)

include hp

theorem dropWhile_trimLeft (text : List Char) : (trimLeft text).dropWhile p = text.dropWhile p := by
  induction text with
  | nil => rfl
  | cons c text ih =>
    cases hc : isBlank c with
    | false => rw [trimLeft_cons hc]
    | true => rw [trimLeft_cons_blank hc, ih, List.dropWhile_cons_of_pos (hp c hc)]

theorem trim_dropWhile_trimRight (text : List Char) :
    trim ((trimRight text).dropWhile p) = trim (text.dropWhile p) := by
  induction text using List.reverseRecOn with
  | nil => rfl
  | append_singleton text c ih =>
    cases hc : isBlank c with
    | false => rw [trimRight_concat hc]
    | true =>
      have hlast : [c].dropWhile p = [] := List.dropWhile_cons_of_pos (hp c hc)
      rw [trimRight_concat_blank hc, ih, List.dropWhile_append]
      split_ifs with hempty
      · rw [hlast, List.isEmpty_iff.1 hempty]
      · exact (trim_concat_blank hc).symm

end Blanks

/-- Blanks around a line make no difference to its bare text. -/
theorem bareText_trim (raw : List Char) : bareText (trim raw) = bareText raw := by
  have hclosers (c : Char) (hc : isBlank c = true) : (isBlank c || c == '\x7d') = true := by
    rw [hc, Bool.true_or]
  rw [bareText, bareText, ← dropWhile_trimLeft hclosers raw]
  exact trim_dropWhile_trimRight hclosers (trimLeft raw)

theorem bracedLine_isBare (h : stripComment ['/', '/'] raw = raw) (number openBraces : Nat) :
    IsBare (bracedLine number openBraces raw).1 raw := by
  have hdrop (p : Char → Bool) (code : List Char) :
      code.drop (code.takeWhile p).length = code.dropWhile p := by
    have hsplit : code.takeWhile p ++ code.dropWhile p = code := List.takeWhile_append_dropWhile
    exact (congrArg (List.drop _) hsplit.symm).trans List.drop_left
  have htext : trim ((trim raw).drop
      ((trim raw).takeWhile fun c => isBlank c || c == '\x7d').length) = bareText raw := by
    rw [← bareText_trim raw, bareText, hdrop]
  have hline : (bracedLine number openBraces raw).1.blank =
      ((bareText raw).head? == some '#' || isPunctuation (bareText raw)) := by
    rw [bracedLine, h]
    dsimp only
    rw [htext]
  refine ⟨?_, fun hblank => ?_⟩
  · rw [hline, Bool.or_eq_true, beq_iff_eq]
  · rw [hline] at hblank
    rw [bracedLine, h]
    dsimp only
    rw [htext, hblank, if_neg Bool.false_ne_true]

theorem bracedLines_isBare : ∀ {raws : List (List Char)} (number openBraces : Nat),
    (∀ raw ∈ raws, stripComment ['/', '/'] raw = raw) →
      List.Forall₂ IsBare (bracedLines number openBraces raws) raws
  | [], _, _, _ => .nil
  | raw :: raws, number, openBraces, h => by
    rw [bracedLines]
    exact .cons (bracedLine_isBare (h raw List.mem_cons_self) number openBraces)
      (bracedLines_isBare _ _ fun raw hraw => h raw (List.mem_cons_of_mem _ hraw))

end Lines

/-- If every marker of a line comment begins inside a literal, block comments are all that is ever
taken out of a source, and where there is none of them, the lines of the layout are those of the
source. -/
theorem braceLayout_of_quoted {source : List Char} (hquoted : Quoted [['/', '/']] source) :
    (dropBlockComments false false source = source ↔ ¬ HasBlockComment source) ∧
      (¬ HasBlockComment source →
        List.Forall₂ IsBare (braceLayout source).lines (sourceLines source)) := by
  refine ⟨dropBlockComments_eq_self_iff, fun hnone => ?_⟩
  rw [braceLayout, dropBlockComments_eq_self_iff.2 hnone]
  exact bracedLines_isBare 0 0 fun raw hraw =>
    stripComment_of_quoted (hquoted raw hraw _ (List.mem_singleton_self _))

/-- Markers of all three kinds in literals, the closing one of a block comment first, and a quote
that is escaped. -/
theorem braceLayout_of_quoted_markers :
    let source := "\x7d s = \"*/ \\\" // \"; \r\n  t = '/*';".toList
    Quoted [['/', '/']] source ∧ ¬ HasBlockComment source ∧
      List.Forall₂ IsBare (braceLayout source).lines (sourceLines source) ∧
      (braceLayout source).lines.map (·.text) =
        ["s = \"*/ \\\" // \";".toList, "t = '/*';".toList] := by
  intro source
  have hquoted : Quoted [['/', '/']] source := by decide +kernel
  have hnone : ¬ HasBlockComment source := dropBlockComments_eq_self_iff.1 (by decide +kernel)
  exact ⟨hquoted, hnone, (braceLayout_of_quoted hquoted).2 hnone, by decide +kernel⟩

/-- A comment in a literal is taken out of it, although all markers are in the literal. -/
theorem braceLayout_empties_literal :
    let source := "s = \"/* a */\";".toList
    Quoted [['/', '*'], ['*', '/'], ['/', '/']] source ∧ bareText source = source ∧
      (braceLayout source).lines = [⟨"s = \"\";".toList, 0, 0, false⟩] := by
  decide +kernel

end Stepwise
