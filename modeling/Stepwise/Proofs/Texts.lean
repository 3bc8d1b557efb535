import Mathlib.Data.List.Chain
import Mathlib.Data.List.DropRight
import Mathlib.Data.List.TakeWhile
import Mathlib.Tactic.IntervalCases
import Stepwise.Proofs.Lines

/-!
# Texts on lines

A text that neither starts nor ends with a blank is its own trimmed form, lines joined by line feeds
are cut into the same lines, a text without comments keeps all of its characters, and a scan of two
texts is the scan of one after the other.
-/

namespace Stepwise

open Text Source

section Spans

variable {α : Type} {p : α → Bool} {rest : List α}

theorem takeWhile_append_of_head (h : ∀ a ∈ rest.head?, p a = false) (l : List α) :
    (l ++ rest).takeWhile p = l.takeWhile p := by
  induction l with
  | nil => cases rest <;> simp_all
  | cons a l ih => cases hp : p a <;> simp [hp, ih]

theorem dropWhile_append_of_head (h : ∀ a ∈ rest.head?, p a = false) (l : List α) :
    (l ++ rest).dropWhile p = l.dropWhile p ++ rest := by
  induction l with
  | nil => cases rest <;> simp_all
  | cons a l ih => cases hp : p a <;> simp [hp, ih]

theorem takeWhile_exact {l : List α} (hl : ∀ a ∈ l, p a = true)
    (h : ∀ a ∈ rest.head?, p a = false) : (l ++ rest).takeWhile p = l := by
  rw [takeWhile_append_of_head h, List.takeWhile_eq_self_iff.2 hl]

theorem dropWhile_exact {l : List α} (hl : ∀ a ∈ l, p a = true)
    (h : ∀ a ∈ rest.head?, p a = false) : (l ++ rest).dropWhile p = rest := by
  rw [dropWhile_append_of_head h, List.dropWhile_eq_nil_iff.2 hl, List.nil_append]

variable [DecidableEq α]

theorem isPrefixOf_append_cons {c : α} : ∀ {front : List α}, c ∉ front → ∀ text rest : List α,
    front.isPrefixOf (text ++ c :: rest) = front.isPrefixOf text
  | [], _, _, _ => by simp
  | a :: front, h, [], rest => by
    have hne : a ≠ c := fun hac => h (hac ▸ List.mem_cons_self)
    simp [List.isPrefixOf, hne]
  | a :: front, h, b :: text, rest => by
    have hfront : c ∉ front := fun hc => h (List.mem_cons_of_mem _ hc)
    rw [List.cons_append, List.isPrefixOf, List.isPrefixOf,
      isPrefixOf_append_cons hfront text rest]

end Spans

namespace Text

variable {text front : List Char} {c : Char}

theorem trimLeft_cons_blank (hc : isBlank c = true) : trimLeft (c :: text) = trimLeft text :=
  List.dropWhile_cons_of_pos hc

theorem trimLeft_cons (hc : isBlank c = false) : trimLeft (c :: text) = c :: text :=
  List.dropWhile_cons_of_neg (by rw [hc]; exact Bool.false_ne_true)

theorem trimRight_concat (hc : isBlank c = false) : trimRight (text ++ [c]) = text ++ [c] := by
  rw [trimRight, List.reverse_concat,
    List.dropWhile_cons_of_neg (by rw [hc]; exact Bool.false_ne_true), List.reverse_cons,
    List.reverse_reverse]

theorem trimRight_concat_blank (hc : isBlank c = true) :
    trimRight (text ++ [c]) = trimRight text := by
  rw [trimRight, List.reverse_concat, List.dropWhile_cons_of_pos hc, trimRight]

theorem trim_cons_blank (hc : isBlank c = true) : trim (c :: text) = trim text := by
  rw [trim, trimLeft_cons_blank hc, trim]

theorem trim_cons_concat {z : Char} (hc : isBlank c = false) (hz : isBlank z = false) :
    trim (c :: text ++ [z]) = c :: text ++ [z] := by
  rw [trim, List.cons_append, trimLeft_cons hc, ← List.cons_append, trimRight_concat hz]

theorem trimLeft_of_trim (h : trim text = text) : trimLeft text = text := by
  refine (List.dropWhile_suffix isBlank).eq_of_length (Nat.le_antisymm (length_trimLeft_le text) ?_)
  calc text.length = (trim text).length := by rw [h]
    _ ≤ (trimLeft text).length := length_trimRight_le _

theorem trimRight_of_trim (h : trim text = text) : trimRight text = text := by
  rw [trim, trimLeft_of_trim h] at h
  exact h

theorem exists_cons_of_trim (h : trim text = text) (hne : text ≠ []) :
    ∃ c rest, text = c :: rest ∧ isBlank c = false := by
  obtain ⟨c, rest, rfl⟩ := List.exists_cons_of_ne_nil hne
  refine ⟨c, rest, rfl, ?_⟩
  by_contra hc
  have hl := trimLeft_of_trim h
  rw [trimLeft_cons_blank (by simpa using hc)] at hl
  have := length_trimLeft_le rest
  rw [hl, List.length_cons] at this
  omega

theorem exists_concat_of_trim (h : trim text = text) (hne : text ≠ []) :
    ∃ front z, text = front ++ [z] ∧ isBlank z = false := by
  refine ⟨text.dropLast, text.getLast hne, (List.dropLast_concat_getLast hne).symm, ?_⟩
  by_contra hz
  have hr := trimRight_of_trim h
  rw [← List.dropLast_concat_getLast hne, trimRight_concat_blank (by simpa using hz)] at hr
  have := length_trimRight_le text.dropLast
  rw [hr, List.length_append, List.length_singleton] at this
  omega

theorem trimRight_append (h : trim text = text) (hne : text ≠ []) :
    trimRight (front ++ text) = front ++ text := by
  obtain ⟨init, z, rfl, hz⟩ := exists_concat_of_trim h hne
  rw [← List.append_assoc, trimRight_concat hz]

theorem trim_of_append (h : trim (front ++ c :: text) = front ++ c :: text)
    (hc : isBlank c = false) : trim (c :: text) = c :: text := by
  obtain ⟨init, z, hz, hblank⟩ := exists_concat_of_trim h (by simp)
  have hlast : (c :: text).getLast? = some z := by
    have h := congrArg List.getLast? hz
    rwa [List.getLast?_append_of_ne_nil _ (List.cons_ne_nil c text), List.getLast?_concat] at h
  rw [trim, trimLeft_cons hc, ← List.dropLast_append_getLast? z hlast, trimRight_concat hblank]

/-- No blank belongs to a word. -/
theorem trimLeft_append_of_blank (h : ∀ c ∈ front, isBlank c = true) :
    trimLeft (front ++ text) = trimLeft text :=
  List.dropWhile_append_of_pos h

/-- A text starts with no blank if a longer one does not. -/
theorem trimLeft_of_isPrefix (h : front <+: text) (htext : trimLeft text = text) :
    trimLeft front = front := by
  cases front with
  | nil => rfl
  | cons c front =>
    obtain ⟨rest, rfl⟩ := h
    refine trimLeft_cons ?_
    by_contra hc
    have hlen := length_trimLeft_le (front ++ rest)
    rw [List.cons_append, trimLeft_cons_blank (by simpa using hc)] at htext
    rw [htext, List.length_cons] at hlen
    omega

theorem isPrefix_trimRight (text : List Char) : trimRight text <+: text := by
  have h := List.reverse_prefix.2 (List.dropWhile_suffix isBlank (l := text.reverse))
  rwa [List.reverse_reverse] at h

theorem trimLeft_trimLeft (text : List Char) : trimLeft (trimLeft text) = trimLeft text :=
  List.dropWhile_idempotent isBlank text

theorem trimRight_trimRight (text : List Char) : trimRight (trimRight text) = trimRight text := by
  rw [trimRight, trimRight, List.reverse_reverse]
  exact congrArg List.reverse (trimLeft_trimLeft text.reverse)

theorem trim_trim (text : List Char) : trim (trim text) = trim text := by
  have hleft : trimLeft (trim text) = trim text :=
    trimLeft_of_isPrefix (isPrefix_trimRight _) (trimLeft_trimLeft text)
  rw [trim, hleft, trim, trimRight_trimRight]

theorem trimRight_of_blank (h : ∀ c ∈ text, isBlank c = true) : trimRight text = [] := by
  have hdrop : (text.reverse ++ []).dropWhile isBlank = [] :=
    List.dropWhile_append_of_pos fun c hc => h c (List.mem_reverse.1 hc)
  rw [List.append_nil] at hdrop
  rw [trimRight, hdrop]
  rfl

/-- Blanks in front of a text stay if anything of the text does. -/
theorem trimRight_append_of_ne_nil (h : trimRight text ≠ []) :
    trimRight (front ++ text) = front ++ trimRight text := by
  have hne : (text.reverse.dropWhile isBlank).isEmpty = false := by
    simpa [trimRight] using h
  rw [trimRight, List.reverse_append, List.dropWhile_append, hne, if_neg Bool.false_ne_true,
    List.reverse_append, List.reverse_reverse, trimRight]

theorem trimRight_append_of_nil (h : trimRight text = []) :
    trimRight (front ++ text) = trimRight front := by
  have hnil : (text.reverse.dropWhile isBlank).isEmpty = true := by
    simpa [trimRight] using h
  rw [trimRight, List.reverse_append, List.dropWhile_append, hnil, if_pos rfl, trimRight]

theorem trim_concat_blank (hc : isBlank c = true) : trim (text ++ [c]) = trim text := by
  have hdrop : trimLeft [c] = [] := trimLeft_cons_blank hc
  rw [trim, trimLeft, List.dropWhile_append]
  split
  · rename_i hempty
    rw [List.isEmpty_iff] at hempty
    rw [trim, trimLeft, hempty]
    exact congrArg trimRight hdrop
  · exact trimRight_concat_blank hc

theorem trim_append_of_blank {behind : List Char} (h : ∀ c ∈ behind, isBlank c = true) :
    trim (text ++ behind) = trim text := by
  induction behind using List.reverseRecOn with
  | nil => rw [List.append_nil]
  | append_singleton behind c ih =>
    obtain ⟨hbehind, hc⟩ := List.forall_mem_append.1 h
    rw [← List.append_assoc, trim_concat_blank (hc c List.mem_cons_self), ih hbehind]

theorem isWord_of_isBlank (hc : isBlank c = true) : isWord c = false := by
  have hranges : ∀ r ∈ blankRanges, ∀ r' ∈ letterRanges, r.2 < r'.1 ∨ r'.2 < r.1 := by
    decide +kernel
  simp only [isBlank, inRanges, List.any_eq_true, Bool.and_eq_true, decide_eq_true_eq] at hc
  obtain ⟨r, hr, hle, hge⟩ := hc
  unfold isWord
  split_ifs with hn
  · have hascii : 9 ≤ c.toNat ∧ c.toNat ≤ 32 := by
      simp only [blankRanges, List.mem_cons, List.not_mem_nil, or_false] at hr
      rcases hr with rfl | rfl | rfl | rfl | rfl | rfl | rfl | rfl | rfl | rfl <;>
        dsimp only at hle hge <;> omega
    obtain ⟨h9, h32⟩ := hascii
    rw [← Char.ofNat_toNat c]
    generalize c.toNat = n at h9 h32
    interval_cases n <;> rfl
  · rw [← Bool.not_eq_true, inRanges, List.any_eq_true]
    rintro ⟨r', hr', hn'⟩
    simp only [Bool.and_eq_true, decide_eq_true_eq] at hn'
    have := hranges r hr r' hr'
    omega

theorem isBlank_of_isWord (hc : isWord c = true) : isBlank c = false := by
  rw [← Bool.not_eq_true]
  intro hblank
  rw [isWord_of_isBlank hblank] at hc
  cases hc

theorem splitOn_append : ∀ {line : List Char}, '\n' ∉ line → ∀ rest : List Char,
    splitOn '\n' (line ++ '\n' :: rest) = line :: splitOn '\n' rest
  | [], _, rest => rfl
  | c :: line, h, rest => by
    rw [List.mem_cons, not_or] at h
    rw [List.cons_append, splitOn, splitOn_append h.2, if_neg (by simpa using Ne.symm h.1)]

theorem splitOn_eq_singleton {separator : Char} : ∀ {line : List Char}, separator ∉ line →
    splitOn separator line = [line]
  | [], _ => rfl
  | c :: line, h => by
    rw [List.mem_cons, not_or] at h
    rw [splitOn, splitOn_eq_singleton h.2, if_neg (by simpa using Ne.symm h.1)]

theorem not_mem_intercalate {separator z : Char} (hz : z ≠ separator) :
    ∀ {lines : List (List Char)}, (∀ l ∈ lines, z ∉ l) → z ∉ [separator].intercalate lines
  | [], _ => List.not_mem_nil
  | [line], h => by simpa [List.intercalate] using h line List.mem_cons_self
  | line :: line' :: lines, h => by
    have ih := not_mem_intercalate hz fun l (hl : l ∈ line' :: lines) =>
      h l (List.mem_cons_of_mem line hl)
    have hj : [separator].intercalate (line :: line' :: lines) =
        line ++ separator :: [separator].intercalate (line' :: lines) := rfl
    rw [hj, List.mem_append, List.mem_cons, not_or, not_or]
    exact ⟨h line List.mem_cons_self, hz, ih⟩

/-- Lines joined by line feeds are cut into these lines. -/
theorem splitOn_intercalate : ∀ {lines : List (List Char)}, lines ≠ [] → (∀ l ∈ lines, '\n' ∉ l) →
    splitOn '\n' (['\n'].intercalate lines) = lines
  | [line], _, h => by
    simpa [List.intercalate] using splitOn_eq_singleton (h line List.mem_cons_self)
  | line :: line' :: lines, _, h => by
    have ih := splitOn_intercalate (List.cons_ne_nil line' lines)
      fun l hl => h l (List.mem_cons_of_mem line hl)
    have hj : ['\n'].intercalate (line :: line' :: lines) =
        line ++ '\n' :: ['\n'].intercalate (line' :: lines) := rfl
    rw [hj, splitOn_append (h line List.mem_cons_self), ih]

theorem splitOn_ne_nil (separator : Char) (text : List Char) : splitOn separator text ≠ [] := by
  cases text with
  | nil => exact List.cons_ne_nil _ _
  | cons c text =>
    rw [splitOn]
    split_ifs
    · exact List.cons_ne_nil _ _
    · split <;> exact List.cons_ne_nil _ _

/-- The pieces between line feeds, joined by line feeds, are the text. -/
theorem intercalate_splitOn : ∀ text : List Char, ['\n'].intercalate (splitOn '\n' text) = text
  | [] => rfl
  | c :: text => by
    have ih := intercalate_splitOn text
    obtain ⟨piece, pieces, hs⟩ := List.exists_cons_of_ne_nil (splitOn_ne_nil '\n' text)
    rw [hs] at ih
    rw [splitOn, hs]
    split_ifs with hc
    · rw [beq_iff_eq] at hc
      rw [hc, ← ih]
      rfl
    · rw [← ih]
      cases pieces <;> rfl

theorem indexOf?_singleton {c : Char} {rest : List Char} : ∀ {front : List Char}, c ∉ front →
    indexOf? [c] (front ++ c :: rest) = some front.length
  | [], _ => by simp [indexOf?]
  | d :: front, h => by
    rw [List.mem_cons, not_or] at h
    rw [List.cons_append, indexOf?, if_neg (by simpa using h.1), indexOf?_singleton h.2]
    rfl

end Text

namespace Source

theorem normalizeNewlines_eq : ∀ {text : List Char}, '\r' ∉ text → normalizeNewlines text = text
  | [], _ => rfl
  | c :: text, h => by
    rw [List.mem_cons, not_or] at h
    have hc : (c == '\r') = false := by simpa using Ne.symm h.1
    rw [normalizeNewlines, normalizeNewlines_eq h.2, hc]
    · rfl
    · rintro rest rfl
      exact fun _ => h.1 rfl

/-- A text without comments keeps all of its characters in front of another text, if no marker can
begin in the one and end in the other. -/
theorem stripCommentFrom_append {marker rest : List Char}
    (hm : ∀ c text, marker.isPrefixOf (c :: (text ++ rest)) = marker.isPrefixOf (c :: text)) :
    ∀ {text : List Char} {q : Quoting}, stripCommentFrom marker q text = text →
      stripCommentFrom marker q (text ++ rest) =
        text ++ stripCommentFrom marker (text.foldl Quoting.next q) rest
  | [], _, _ => rfl
  | c :: text, q, h => by
    rw [stripCommentFrom] at h
    split_ifs at h with hc
    rw [List.cons_append, stripCommentFrom, hm, if_neg hc,
      stripCommentFrom_append hm (List.cons.inj h).2]
    rfl

/-- No comment begins in a text without the first character of the marker. -/
theorem stripCommentFrom_append_of_not_mem {m : Char} {marker rest : List Char} :
    ∀ {text : List Char} (q : Quoting), m ∉ text →
      stripCommentFrom (m :: marker) q (text ++ rest) =
        text ++ stripCommentFrom (m :: marker) (text.foldl Quoting.next q) rest
  | [], _, _ => rfl
  | c :: text, q, h => by
    rw [List.mem_cons, not_or] at h
    have hc : (m == c) = false := by simpa using h.1
    rw [List.cons_append, stripCommentFrom, stripCommentFrom_append_of_not_mem _ h.2, if_neg]
    · rfl
    · simp [List.isPrefixOf, hc]

theorem stripCommentFrom_of_not_mem {m : Char} {marker text : List Char} (q : Quoting)
    (h : m ∉ text) : stripCommentFrom (m :: marker) q text = text := by
  have happend : stripCommentFrom (m :: marker) q (text ++ []) = text ++ [] :=
    stripCommentFrom_append_of_not_mem q h
  rwa [List.append_nil] at happend

/-- A character that neither ends a line nor starts a literal or a comment with this marker. -/
def isPlain (marker c : Char) : Bool := !(c == marker || isQuote c || c == '\n' || c == '\r')

section Plain

variable {marker : Char} {text : List Char}

theorem isPlain_iff {c : Char} :
    isPlain marker c = true ↔ c ≠ marker ∧ isQuote c = false ∧ c ≠ '\n' ∧ c ≠ '\r' := by
  simp [isPlain, and_assoc]

theorem not_mem_of_plain (h : ∀ c ∈ text, isPlain marker c = true) :
    marker ∉ text ∧ '\n' ∉ text ∧ '\r' ∉ text :=
  ⟨fun hm => (isPlain_iff.1 (h _ hm)).1 rfl, fun hm => (isPlain_iff.1 (h _ hm)).2.2.1 rfl,
    fun hm => (isPlain_iff.1 (h _ hm)).2.2.2 rfl⟩

theorem foldl_plain : ∀ {text : List Char}, (∀ c ∈ text, isPlain marker c = true) →
    text.foldl Quoting.next .code = .code
  | [], _ => rfl
  | c :: text, h => by
    have hq := (isPlain_iff.1 (h c List.mem_cons_self)).2.1
    rw [List.foldl_cons, Quoting.next, if_neg (by rw [hq]; exact Bool.false_ne_true)]
    exact foldl_plain fun c hc => h c (List.mem_cons_of_mem _ hc)

end Plain

theorem foldl_blank : ∀ {text : List Char}, (∀ c ∈ text, isBlank c = true) →
    text.foldl Quoting.next .code = .code
  | [], _ => rfl
  | c :: text, h => by
    have hblank := h c List.mem_cons_self
    have hc : isQuote c = false := by
      rw [isQuote, Bool.or_eq_false_iff, beq_eq_false_iff_ne, beq_eq_false_iff_ne]
      refine ⟨?_, ?_⟩ <;> rintro rfl <;> exact absurd hblank (by decide)
    rw [List.foldl_cons, Quoting.next, if_neg (by simp [hc])]
    exact foldl_blank fun d hd => h d (List.mem_cons_of_mem c hd)

/-- No comment begins in the blanks in front of a line. -/
theorem stripComment_append_of_blank {m : Char} {marker front text : List Char}
    (hm : isBlank m = false) (h : ∀ c ∈ front, isBlank c = true) :
    stripComment (m :: marker) (front ++ text) = front ++ stripComment (m :: marker) text := by
  have hnot : m ∉ front := fun hmem => by
    rw [h m hmem] at hm
    cases hm
  rw [stripComment, stripCommentFrom_append_of_not_mem _ hnot, foldl_blank h, stripComment]

theorem stripComment_comment {m : Char} {marker rest : List Char} (hm : isQuote m = false) :
    stripComment (m :: marker) (m :: marker ++ rest) = [] := by
  rw [stripComment, List.cons_append, stripCommentFrom, Quoting.seesCode, hm, if_pos]
  simp

theorem isPrefix_stripCommentFrom (marker : List Char) : ∀ (text : List Char) (q : Quoting),
    stripCommentFrom marker q text <+: text
  | [], _ => List.nil_prefix
  | c :: text, q => by
    rw [stripCommentFrom]
    split_ifs
    · exact List.nil_prefix
    · exact (List.cons_prefix_cons).2 ⟨rfl, isPrefix_stripCommentFrom marker text _⟩

/-- A comment behind a line whose literals are closed leaves at most the blank in front of it. -/
theorem stripCommentFrom_append_comment {m : Char} {marker rest : List Char}
    (hm : isQuote m = false) (hblank : m ≠ ' ') (hmark : ∀ c text,
      (m :: marker).isPrefixOf (c :: (text ++ ' ' :: rest)) = (m :: marker).isPrefixOf (c :: text))
    (hrest : m :: marker <+: rest) : ∀ {text : List Char} {q : Quoting},
    (stripCommentFrom (m :: marker) q text).foldl Quoting.next q = .code →
      stripCommentFrom (m :: marker) q (text ++ ' ' :: rest) =
        stripCommentFrom (m :: marker) q text ∨
      stripCommentFrom (m :: marker) q (text ++ ' ' :: rest) =
        stripCommentFrom (m :: marker) q text ++ [' ']
  | [], q, h => by
    obtain rfl : q = .code := h
    obtain ⟨tail, rfl⟩ := hrest
    have hspace : (m == ' ') = false := by simpa using hblank
    have hstrip : stripCommentFrom (m :: marker) .code (m :: marker ++ tail) = [] :=
      stripComment_comment hm
    have hfirst : (Quoting.code.seesCode ' ' && (m :: marker).isPrefixOf
        (' ' :: (m :: marker ++ tail))) = false := by
      simp [List.isPrefixOf, hspace]
    have hnext : Quoting.code.next ' ' = .code := rfl
    right
    rw [List.nil_append, stripCommentFrom, stripCommentFrom, hfirst, hnext, hstrip]
    rfl
  | c :: text, q, h => by
    rw [stripCommentFrom] at h
    rw [List.cons_append, stripCommentFrom, stripCommentFrom, hmark]
    split_ifs with hc
    · exact .inl rfl
    · rw [if_neg hc, List.foldl_cons] at h
      rcases stripCommentFrom_append_comment hm hblank hmark hrest h with heq | heq <;> rw [heq]
      · exact .inl rfl
      · exact .inr rfl

theorem isBlank_inert {c : Char} (h : isBlank c = true) :
    isQuote c = false ∧ isOpener c = false ∧ isCloser c = false := by
  have hne : ∀ d, isBlank d = false → (c == d) = false := by
    intro d hd
    rw [beq_eq_false_iff_ne]
    rintro rfl
    rw [h] at hd
    cases hd
  simp only [isQuote, isOpener, isCloser, Bool.or_eq_false_iff]
  exact ⟨⟨hne _ rfl, hne _ rfl⟩, ⟨⟨hne _ rfl, hne _ rfl⟩, hne _ rfl⟩,
    ⟨hne _ rfl, hne _ rfl⟩, hne _ rfl⟩

theorem topLevelPieces_ne_nil (isSeparator : Char → Bool) : ∀ (text : List Char) (s : Nesting),
    topLevelPieces isSeparator s text ≠ []
  | [], _ => List.cons_ne_nil _ _
  | c :: text, s => by
    rw [topLevelPieces]
    split
    · split_ifs <;> exact List.cons_ne_nil _ _
    · exact List.cons_ne_nil _ _

theorem braceBalanceFrom_append : ∀ (front rest : List Char) (q : Quoting),
    braceBalanceFrom q (front ++ rest) =
      braceBalanceFrom q front + braceBalanceFrom (front.foldl Quoting.next q) rest
  | [], rest, q => (Int.zero_add _).symm
  | c :: front, rest, q => by
    rw [List.cons_append, braceBalanceFrom, braceBalanceFrom_append front rest, braceBalanceFrom,
      Int.add_assoc]
    rfl

/-- A parenthesis that is closed stays closed, whatever follows. -/
theorem closingFrom_append (rest : List Char) : ∀ {text : List Char} {d : Option Char}
    {before : Char} {depth : Int} {position n : Nat},
    closingFrom d before depth position text = some n →
      closingFrom d before depth position (text ++ rest) = some n
  | [], _, _, _, _, _, h => by cases h
  | c :: text, d, before, depth, position, n, h => by
    cases d with
    | some d =>
      rw [closingFrom] at h
      rw [List.cons_append, closingFrom]
      exact closingFrom_append rest h
    | none =>
      rw [closingFrom] at h
      rw [List.cons_append, closingFrom]
      split_ifs at h ⊢
      · exact closingFrom_append rest h
      · exact closingFrom_append rest h
      · exact h
      · exact closingFrom_append rest h
      · exact closingFrom_append rest h

theorem closingFrom_add (m : Nat) : ∀ (text : List Char) (d : Option Char) (before : Char)
    (depth : Int) (position : Nat),
    closingFrom d before depth (position + m) text =
      (closingFrom d before depth position text).map (· + m)
  | [], _, _, _, _ => rfl
  | c :: text, d, before, depth, position => by
    have hm : position + m + 1 = position + 1 + m := Nat.add_right_comm _ _ _
    cases d with
    | some d => rw [closingFrom, closingFrom, hm, closingFrom_add m text]
    | none =>
      rw [closingFrom, closingFrom, hm]
      simp only [closingFrom_add m text]
      split_ifs <;> rfl

/-- A parenthesis is closed at the same place wherever the text around it ends. -/
theorem matchParen?_append {text : List Char} {n : Nat} (h : matchParen? text 0 = some n)
    (front rest : List Char) :
    matchParen? (front ++ (text ++ rest)) front.length = some (n + front.length) := by
  have hdrop : (front ++ (text ++ rest)).drop front.length = text ++ rest := List.drop_left
  have h0 := closingFrom_append rest h
  rw [matchParen?, hdrop, ← Nat.zero_add front.length, closingFrom_add, Nat.zero_add]
  rw [List.drop_zero] at h0
  rw [h0]
  rfl

/-- No block comment starts in the text. -/
def NoBlockComment (text : List Char) : Prop :=
  text.IsChain fun c d => ¬ (c = '/' ∧ d = '*')

instance (text : List Char) : Decidable (NoBlockComment text) :=
  inferInstanceAs (Decidable (text.IsChain _))

theorem dropBlockComments_eq : ∀ {text : List Char}, NoBlockComment text →
    dropBlockComments false false text = text
  | [], _ => rfl
  | [c], _ => by simp [dropBlockComments]
  | c :: d :: text, h => by
    rw [NoBlockComment, List.isChain_cons_cons] at h
    have hc : (c == '/' && (d :: text).head? == some '*') = false := by
      simpa using h.1
    rw [dropBlockComments, hc, dropBlockComments_eq h.2]
    rfl

theorem NoBlockComment.append {front text : List Char} (hfront : NoBlockComment front)
    (htext : NoBlockComment text) (h : front.getLast? ≠ some '/' ∨ text.head? ≠ some '*') :
    NoBlockComment (front ++ text) := by
  refine List.isChain_append.2 ⟨hfront, htext, ?_⟩
  rintro c hc d hd ⟨rfl, rfl⟩
  rcases h with h | h
  · exact h hc
  · exact h hd

theorem noBlockComment_of_not_mem : ∀ {text : List Char}, '/' ∉ text → NoBlockComment text
  | [], _ => .nil
  | c :: text, h => by
    rw [List.mem_cons, not_or] at h
    refine NoBlockComment.append (.singleton c) (noBlockComment_of_not_mem h.2) (.inl ?_)
    simpa using Ne.symm h.1

theorem noBlockComment_intercalate : ∀ {lines : List (List Char)},
    (∀ l ∈ lines, NoBlockComment l) → NoBlockComment (['\n'].intercalate lines)
  | [], _ => .nil
  | [line], h => by simpa [List.intercalate] using h line List.mem_cons_self
  | line :: line' :: lines, h => by
    have ih := noBlockComment_intercalate fun l (hl : l ∈ line' :: lines) =>
      h l (List.mem_cons_of_mem line hl)
    have hj : ['\n'].intercalate (line :: line' :: lines) =
        line ++ ('\n' :: ['\n'].intercalate (line' :: lines)) := rfl
    rw [hj]
    refine (h line List.mem_cons_self).append ?_ (.inr (by simp))
    exact NoBlockComment.append (.singleton '\n') ih (.inl (by simp))

theorem noBlockComment_cons {c : Char} {text : List Char} :
    NoBlockComment (c :: text) ↔ ¬ (c = '/' ∧ text.head? = some '*') ∧ NoBlockComment text := by
  rw [NoBlockComment, List.isChain_cons, NoBlockComment]
  refine and_congr_left' ⟨fun h hc => ?_, fun h d hd hc => ?_⟩
  · exact h '*' hc.2 ⟨hc.1, rfl⟩
  · obtain ⟨rfl, rfl⟩ := hc
    exact h ⟨rfl, hd⟩

theorem NoBlockComment.of_intercalate : ∀ {lines : List (List Char)},
    NoBlockComment (['\n'].intercalate lines) → ∀ l ∈ lines, NoBlockComment l
  | [], _ => nofun
  | [line], h => by simpa [List.intercalate] using h
  | line :: line' :: lines, h => by
    have hj : ['\n'].intercalate (line :: line' :: lines) =
        line ++ ('\n' :: ['\n'].intercalate (line' :: lines)) := rfl
    rw [hj] at h
    obtain ⟨hline, hrest, -⟩ := List.isChain_append.1 h
    exact List.forall_mem_cons.2 ⟨hline, of_intercalate (noBlockComment_cons.1 hrest).2⟩

theorem head?_normalizeNewlines (text : List Char) :
    (normalizeNewlines text).head? = some '*' ↔ text.head? = some '*' := by
  fun_cases normalizeNewlines text with
  | case1 => rfl
  | case2 => simp
  | case3 c rest => by_cases hc : c = '\r' <;> simp [hc]

theorem noBlockComment_normalizeNewlines (text : List Char) :
    NoBlockComment (normalizeNewlines text) ↔ NoBlockComment text := by
  fun_induction normalizeNewlines text with
  | case1 => rfl
  | case2 rest ih => simp [noBlockComment_cons, ih]
  | case3 c rest _ ih =>
    simp only [noBlockComment_cons, ih, head?_normalizeNewlines]
    by_cases hc : c = '\r' <;> simp [hc]

/-- A source has no block comment exactly if none of its lines has one. -/
theorem noBlockComment_sourceLines (text : List Char) :
    (∀ l ∈ sourceLines text, NoBlockComment l) ↔ NoBlockComment text := by
  rw [← noBlockComment_normalizeNewlines text, sourceLines]
  constructor
  · intro h
    rw [← intercalate_splitOn (normalizeNewlines text)]
    exact noBlockComment_intercalate h
  · intro h
    rw [← intercalate_splitOn (normalizeNewlines text)] at h
    exact h.of_intercalate

end Source

end Stepwise
