import Stepwise.Source.Assignment
import Stepwise.Proofs.Texts

/-!
# Parts at the top level

A scan meets a separator at the top level if it comes to it outside literals and brackets (`Meets`).
A text is cut at exactly these separators, so its parts with the separators and the blanks around
them make up the text. Parts that a scan leaves as it entered them (`Neutral`), and in which it meets
no separator, are found again after joining them (`splitTopLevel_joins`).
-/

namespace Stepwise.Source

open Text

/-- The scan from a state meets the character outside literals and brackets. -/
def Meets (s : Nesting) (c : Char) (text : List Char) : Prop :=
  ∃ front rest, text = front ++ c :: rest ∧ (front.foldl Nesting.next s).atTop c = true

/-- All literals of the text are closed, and its brackets balance. -/
def Neutral (text : List Char) : Prop := text.foldl Nesting.next .start = .start

section Scanning

variable {s : Nesting} {c separator : Char} {front text rest : List Char}

/-- The scan of the second text starts where that of the first one ends. -/
theorem meets_append :
    Meets s c (front ++ text) ↔ Meets s c front ∨ Meets (front.foldl Nesting.next s) c text := by
  constructor
  · rintro ⟨before, behind, heq, htop⟩
    rcases List.append_eq_append_iff.1 heq with ⟨more, rfl, rfl⟩ | ⟨more, rfl, hmore⟩
    · exact .inr ⟨more, behind, rfl, by rwa [← List.foldl_append]⟩
    · cases more with
      | nil => exact .inr ⟨[], behind, hmore.symm, by simpa using htop⟩
      | cons d more =>
        obtain ⟨rfl, -⟩ := List.cons.inj hmore
        exact .inl ⟨before, more, rfl, htop⟩
  · rintro (⟨before, behind, rfl, htop⟩ | ⟨before, behind, rfl, htop⟩)
    · exact ⟨before, behind ++ text, by simp, htop⟩
    · exact ⟨front ++ before, behind, by simp, by rwa [List.foldl_append]⟩

theorem meets_cons {d : Char} :
    Meets s c (d :: text) ↔ (d = c ∧ s.atTop c = true) ∨ Meets (s.next d) c text := by
  have hsingle : Meets s c [d] ↔ d = c ∧ s.atTop c = true := by
    constructor
    · rintro ⟨before, behind, heq, htop⟩
      cases before with
      | nil => exact ⟨(List.cons.inj heq).1, htop⟩
      | cons e before => simp at heq
    · rintro ⟨rfl, htop⟩
      exact ⟨[], [], rfl, htop⟩
  rw [← List.singleton_append, meets_append, hsingle]
  rfl

theorem not_meets_of_not_mem (h : c ∉ text) : ¬ Meets s c text := by
  rintro ⟨before, behind, rfl, -⟩
  exact h (by simp)

theorem next_start_of_blank (h : isBlank c = true) : Nesting.start.next c = .start := by
  obtain ⟨hquote, hopener, hcloser⟩ := isBlank_inert h
  simp [Nesting.next, Nesting.start, Quoting.next, Quoting.seesCode, hquote, hopener, hcloser]

theorem neutral_of_blank : ∀ {text : List Char}, (∀ c ∈ text, isBlank c = true) → Neutral text
  | [], _ => rfl
  | c :: text, h => by
    obtain ⟨hc, htext⟩ := List.forall_mem_cons.1 h
    rw [Neutral, List.foldl_cons, next_start_of_blank hc]
    exact neutral_of_blank htext

/-! ### Pieces -/

/-- A piece ends in front of a separator at the top level. -/
theorem topLevelPieces_separator : ∀ {front : List Char} {s : Nesting},
    (front.foldl Nesting.next s).atTop separator = true →
      topLevelPieces (· == separator) s (front ++ separator :: rest) =
        topLevelPieces (· == separator) s front ++
          topLevelPieces (· == separator) ((front.foldl Nesting.next s).next separator) rest
  | [], s, htop => by
    obtain ⟨piece, pieces, hpieces⟩ :=
      List.exists_cons_of_ne_nil (topLevelPieces_ne_nil (· == separator) rest (s.next separator))
    have hcut : (s.atTop separator && separator == separator) = true := by
      rw [beq_self_eq_true, Bool.and_true]
      exact htop
    simp only [List.nil_append, List.foldl_nil, topLevelPieces, hpieces, hcut]
    rfl
  | d :: front, s, htop => by
    have ih := topLevelPieces_separator (s := s.next d) htop
    obtain ⟨piece, pieces, hpieces⟩ :=
      List.exists_cons_of_ne_nil (topLevelPieces_ne_nil (· == separator) front (s.next d))
    rw [hpieces] at ih
    rw [List.cons_append, topLevelPieces, ih, topLevelPieces, hpieces]
    split_ifs <;> rfl

/-- A text is one piece exactly if no separator is met. -/
theorem topLevelPieces_eq_singleton_iff :
    topLevelPieces (· == separator) s text = [text] ↔ ¬ Meets s separator text := by
  constructor
  · rintro h ⟨front, rest, rfl, htop⟩
    rw [topLevelPieces_separator htop] at h
    have hlength := congrArg List.length h
    have hfront := List.length_pos_of_ne_nil (topLevelPieces_ne_nil (· == separator) front s)
    have hrest := List.length_pos_of_ne_nil (topLevelPieces_ne_nil (· == separator) rest
      ((front.foldl Nesting.next s).next separator))
    rw [List.length_append, List.length_singleton] at hlength
    omega
  · intro h
    induction text generalizing s with
    | nil => rfl
    | cons d text ih =>
      rw [meets_cons, not_or] at h
      have hd : ¬ (s.atTop d && d == separator) = true := by
        rw [Bool.and_eq_true, beq_iff_eq]
        rintro ⟨htop, rfl⟩
        exact h.1 ⟨rfl, htop⟩
      rw [topLevelPieces, ih h.2]
      exact if_neg hd

instance (s : Nesting) (c : Char) (text : List Char) : Decidable (Meets s c text) :=
  decidable_of_iff (¬ topLevelPieces (· == c) s text = [text])
    (by rw [topLevelPieces_eq_singleton_iff, not_not])

instance (text : List Char) : Decidable (Neutral text) :=
  inferInstanceAs (Decidable (_ = _))

/-- The pieces with the separators between them are the text. -/
theorem intercalate_topLevelPieces : ∀ (text : List Char) (s : Nesting),
    [separator].intercalate (topLevelPieces (· == separator) s text) = text
  | [], _ => rfl
  | c :: text, s => by
    have ih := intercalate_topLevelPieces text (s.next c)
    obtain ⟨piece, pieces, hpieces⟩ :=
      List.exists_cons_of_ne_nil (topLevelPieces_ne_nil (· == separator) text (s.next c))
    rw [hpieces] at ih
    rw [topLevelPieces, hpieces]
    split_ifs with hc
    · rw [Bool.and_eq_true, beq_iff_eq] at hc
      rw [List.intercalate_cons_cons, ih, hc.2]
      rfl
    · rw [← ih]
      cases pieces with
      | nil => simp
      | cons next pieces => simp [List.intercalate_cons_cons]

/-- Wherever pieces are divided, the scan meets the separator at the top level. -/
theorem atTop_of_topLevelPieces : ∀ {text : List Char} {s : Nesting} {left right : List (List Char)},
    topLevelPieces (· == separator) s text = left ++ right → left ≠ [] → right ≠ [] →
      (([separator].intercalate left).foldl Nesting.next s).atTop separator = true
  | [], s, left, right, h, hleft, hright => by
    have hlength := congrArg List.length h
    have hl := List.length_pos_of_ne_nil hleft
    have hr := List.length_pos_of_ne_nil hright
    rw [List.length_append, topLevelPieces, List.length_singleton] at hlength
    omega
  | c :: text, s, left, right, h, hleft, hright => by
    obtain ⟨piece, pieces, hpieces⟩ :=
      List.exists_cons_of_ne_nil (topLevelPieces_ne_nil (· == separator) text (s.next c))
    obtain ⟨first, others, rfl⟩ := List.exists_cons_of_ne_nil hleft
    rw [topLevelPieces, hpieces] at h
    dsimp only at h
    split_ifs at h with hc
    · obtain ⟨rfl, hothers⟩ := List.cons.inj h
      rw [Bool.and_eq_true, beq_iff_eq] at hc
      obtain rfl : separator = c := hc.2.symm
      cases others with
      | nil => exact hc.1
      | cons next others =>
        have ih := atTop_of_topLevelPieces (hpieces.trans hothers) (List.cons_ne_nil _ _) hright
        simpa [List.intercalate_cons_cons] using ih
    · obtain ⟨rfl, rfl⟩ := List.cons.inj h
      have hdivided : topLevelPieces (· == separator) (s.next c) text =
          (piece :: others) ++ right := hpieces
      have ih := atTop_of_topLevelPieces hdivided (List.cons_ne_nil _ _) hright
      cases others with
      | nil => simpa using ih
      | cons next others => simpa [List.intercalate_cons_cons] using ih

end Scanning

/-! ### Slices -/

/-- A part of a text with the blanks around it. -/
structure Slice where
  before : List Char
  part : List Char
  behind : List Char
  blank_before : ∀ c ∈ before, isBlank c = true
  blank_behind : ∀ c ∈ behind, isBlank c = true

namespace Slice

/-- The part with the blanks around it. -/
def text (slice : Slice) : List Char := slice.before ++ slice.part ++ slice.behind

/-- The text without the blanks at its ends, and these blanks. -/
def ofText (text : List Char) : Slice where
  before := text.takeWhile isBlank
  part := trim text
  behind := ((trimLeft text).reverse.takeWhile isBlank).reverse
  blank_before := List.all_eq_true.1 List.all_takeWhile
  blank_behind c hc := List.all_eq_true.1 List.all_takeWhile c (List.mem_reverse.1 hc)

theorem text_ofText (text : List Char) : (ofText text).text = text := by
  have hright : trim text ++ ((trimLeft text).reverse.takeWhile isBlank).reverse =
      trimLeft text := by
    rw [trim, trimRight, ← List.reverse_append, List.takeWhile_append_dropWhile,
      List.reverse_reverse]
  show text.takeWhile isBlank ++ trim text ++ _ = text
  rw [List.append_assoc]
  exact (congrArg _ hright).trans List.takeWhile_append_dropWhile

theorem trim_text (slice : Slice) : trim slice.text = trim slice.part := by
  rw [text, trim_append_of_blank slice.blank_behind, trim, trimLeft_append_of_blank slice.blank_before,
    trim]

theorem neutral_text {slice : Slice} (h : Neutral slice.part) : Neutral slice.text := by
  rw [Neutral, text, List.foldl_append, List.foldl_append, neutral_of_blank slice.blank_before, h,
    neutral_of_blank slice.blank_behind]

theorem not_meets_text {slice : Slice} {separator : Char} (hblank : isBlank separator = false)
    (hneutral : Neutral slice.part) (h : ¬ Meets .start separator slice.part) :
    ¬ Meets .start separator slice.text := by
  have hnot : ∀ {gap : List Char}, (∀ c ∈ gap, isBlank c = true) →
      ¬ Meets .start separator gap := fun hgap => not_meets_of_not_mem fun hmem => by
    rw [hgap separator hmem] at hblank
    cases hblank
  rw [text, List.append_assoc, meets_append, neutral_of_blank slice.blank_before, meets_append,
    hneutral, not_or, not_or]
  exact ⟨hnot slice.blank_before, h, hnot slice.blank_behind⟩

end Slice

/-- The slices with a separator between any two of them. -/
def joinSlices (separator : Char) (slices : List Slice) : List Char :=
  [separator].intercalate (slices.map Slice.text)

/-- A character that is no quote, bracket or blank. -/
def isDivider (c : Char) : Bool := !(isQuote c || isOpener c || isCloser c || isBlank c)

/-- A trimmed text that a scan leaves as it entered it, meeting no separator. -/
@[mk_iff]
structure IsPart (separator : Char) (text : List Char) : Prop where
  trimmed : trim text = text
  neutral : Neutral text
  unmet : ¬ Meets .start separator text

instance (separator : Char) (text : List Char) : Decidable (IsPart separator text) :=
  decidable_of_iff' _ (isPart_iff separator text)

section Joining

variable {separator : Char} {isSeparator : Char → Bool} {text : List Char}

theorem start_of_isDivider (h : isDivider separator = true) :
    Nesting.start.atTop separator = true ∧ Nesting.start.next separator = .start ∧
      isBlank separator = false := by
  simp only [isDivider, Bool.not_eq_true', Bool.or_eq_false_iff] at h
  obtain ⟨⟨⟨hquote, hopener⟩, hcloser⟩, hblank⟩ := h
  refine ⟨?_, ?_, hblank⟩
  · simp [Nesting.atTop, Nesting.start, Quoting.seesCode, hquote, hopener, hcloser]
  · simp [Nesting.next, Nesting.start, Quoting.next, Quoting.seesCode, hquote, hopener, hcloser]

/-- Closed texts without a separator are found again as pieces of the joined text. -/
theorem topLevelPieces_intercalate (hdivider : isDivider separator = true) :
    ∀ {texts : List (List Char)}, texts ≠ [] →
      (∀ t ∈ texts, Neutral t ∧ ¬ Meets .start separator t) →
        topLevelPieces (· == separator) .start ([separator].intercalate texts) = texts
  | [text], _, h => by
    rw [List.intercalate_singleton]
    exact topLevelPieces_eq_singleton_iff.2 (h text List.mem_cons_self).2
  | text :: next :: texts, _, h => by
    obtain ⟨⟨hneutral, hunmet⟩, hothers⟩ := List.forall_mem_cons.1 h
    obtain ⟨htop, hnext, -⟩ := start_of_isDivider hdivider
    have ih := topLevelPieces_intercalate hdivider (List.cons_ne_nil next texts) hothers
    rw [List.intercalate_cons_cons, List.append_assoc, List.singleton_append,
      topLevelPieces_separator (by rwa [hneutral]), hneutral, hnext, ih,
      topLevelPieces_eq_singleton_iff.2 hunmet]
    rfl

theorem splitTopLevel_eq (h : (topLevelPieces isSeparator .start text).map trim ≠ [[]]) :
    splitTopLevel isSeparator text = (topLevelPieces isSeparator .start text).map trim := by
  unfold splitTopLevel
  split
  · exact absurd ‹_› h
  · rfl

/-- Parts are found again, whatever blanks stand around the separators. -/
theorem splitTopLevel_joinSlices (hdivider : isDivider separator = true) {slices : List Slice}
    (hparts : ∀ slice ∈ slices, IsPart separator slice.part)
    (hne : slices.map Slice.part ≠ [] ∧ slices.map Slice.part ≠ [[]]) :
    splitTopLevel (· == separator) (joinSlices separator slices) = slices.map Slice.part := by
  have hpieces : topLevelPieces (· == separator) .start (joinSlices separator slices) =
      slices.map Slice.text := by
    refine topLevelPieces_intercalate hdivider (fun hnil => hne.1 ?_) ?_
    · rw [List.map_eq_nil_iff.1 hnil]
      rfl
    · rintro _ ht
      obtain ⟨slice, hslice, rfl⟩ := List.mem_map.1 ht
      have hpart := hparts slice hslice
      exact ⟨Slice.neutral_text hpart.neutral, Slice.not_meets_text
        (start_of_isDivider hdivider).2.2 hpart.neutral hpart.unmet⟩
  have htrimmed : (slices.map Slice.text).map trim = slices.map Slice.part := by
    rw [List.map_map]
    exact List.map_congr_left fun slice hslice =>
      slice.trim_text.trans (hparts slice hslice).trimmed
  rw [splitTopLevel_eq (by rw [hpieces, htrimmed]; exact hne.2), hpieces, htrimmed]

end Joining

/-- The slices with the separators between them are the text, and it is divided where a scan meets a
separator outside literals and brackets. -/
structure SlicesOf (separator : Char) (text : List Char) (slices : List Slice) : Prop where
  joins : joinSlices separator slices = text
  trimmed : ∀ slice ∈ slices, trim slice.part = slice.part
  divides : ∀ front rest, text = front ++ separator :: rest →
    ((front.foldl Nesting.next .start).atTop separator = true ↔
      ∃ left right, slices = left ++ right ∧ left ≠ [] ∧ right ≠ [] ∧
        joinSlices separator left = front)

theorem map_text_ofText (pieces : List (List Char)) :
    (pieces.map Slice.ofText).map Slice.text = pieces := by
  rw [List.map_map]
  exact (List.map_congr_left fun piece _ => Slice.text_ofText piece).trans (List.map_id pieces)

/-- The pieces of any text are slices of it. -/
theorem slicesOf_pieces (separator : Char) (text : List Char) :
    SlicesOf separator text
      ((topLevelPieces (· == separator) .start text).map Slice.ofText) where
  joins := by rw [joinSlices, map_text_ofText, intercalate_topLevelPieces]
  trimmed slice hslice := by
    obtain ⟨piece, -, rfl⟩ := List.mem_map.1 hslice
    exact trim_trim piece
  divides front rest htext := by
    constructor
    · intro htop
      refine ⟨_, _, by rw [htext, topLevelPieces_separator htop, List.map_append], ?_, ?_, ?_⟩
      · simpa using topLevelPieces_ne_nil (· == separator) front .start
      · simpa using topLevelPieces_ne_nil (· == separator) rest _
      · rw [joinSlices, map_text_ofText, intercalate_topLevelPieces]
    · rintro ⟨left, right, hslices, hleft, hright, rfl⟩
      have hpieces := congrArg (List.map Slice.text) hslices
      rw [map_text_ofText, List.map_append] at hpieces
      exact atTop_of_topLevelPieces hpieces (by simpa using hleft) (by simpa using hright)

theorem blank_of_trim_eq_nil {text : List Char} (h : trim text = []) :
    ∀ c ∈ text, isBlank c = true := by
  intro c hc
  rw [← Slice.text_ofText text] at hc
  have hpart : (Slice.ofText text).part = [] := h
  rw [Slice.text, hpart, List.append_nil] at hc
  exact (List.mem_append.1 hc).elim ((Slice.ofText text).blank_before c)
    ((Slice.ofText text).blank_behind c)

/-- Splitting undoes joining: parts are found again behind any blanks around the separators. The
parts of any text are slices of it, divided where a separator stands at the top level; only a blank
text has none. -/
theorem splitTopLevel_joins (separator : Char) :
    (isDivider separator = true → ∀ slices : List Slice,
      (∀ slice ∈ slices, IsPart separator slice.part) →
      slices.map Slice.part ≠ [] → slices.map Slice.part ≠ [[]] →
        splitTopLevel (· == separator) (joinSlices separator slices) = slices.map Slice.part) ∧
    ∀ text,
      (splitTopLevel (· == separator) text = [] ∧ ∀ c ∈ text, isBlank c = true) ∨
      ∃ slices, splitTopLevel (· == separator) text = slices.map Slice.part ∧
        SlicesOf separator text slices := by
  refine ⟨fun hdivider slices hparts hnil hempty =>
    splitTopLevel_joinSlices hdivider hparts ⟨hnil, hempty⟩, fun text => ?_⟩
  by_cases h : (topLevelPieces (· == separator) .start text).map trim = [[]]
  · left
    obtain ⟨piece, hpiece, hblank⟩ := List.map_eq_singleton_iff.1 h
    have htext := @intercalate_topLevelPieces separator text .start
    rw [hpiece, List.intercalate_singleton] at htext
    refine ⟨?_, htext ▸ blank_of_trim_eq_nil hblank⟩
    rw [splitTopLevel, h]
  · right
    refine ⟨_, ?_, slicesOf_pieces separator text⟩
    rw [splitTopLevel_eq h, List.map_map]
    rfl

theorem splitTopLevel_joins_nested :
    let slices := ["f(a, 'b,') ", "\t\"x,\\\"(\"", "", " [1, 2]"].map fun t => Slice.ofText t.toList
    (∀ slice ∈ slices, IsPart ',' slice.part) ∧
      splitTopLevel (· == ',') "f(a, 'b,') ,\t\"x,\\\"(\",, [1, 2]".toList =
        ["f(a, 'b,')", "\"x,\\\"(\"", "", "[1, 2]"].map String.toList := by
  intro slices
  have hparts : ∀ slice ∈ slices, IsPart ',' slice.part := by decide
  have htext : joinSlices ',' slices = "f(a, 'b,') ,\t\"x,\\\"(\",, [1, 2]".toList := by decide
  have hfound := (splitTopLevel_joins ',').1 rfl slices hparts (by decide) (by decide)
  rw [htext] at hfound
  exact ⟨hparts, hfound⟩

end Stepwise.Source
