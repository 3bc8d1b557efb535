import Stepwise.Proofs.Texts
import Stepwise.Proofs.WellFormedTraces

/-!
# Line numbers of the braced dialect

Block comments are taken out of a source before it is cut into lines, and of a comment only the line
feeds stay. A carriage return is a line end too, so one in a comment is lost, unless a line feed
follows it; and so is one that comes to stand before a line feed when the comment between them goes.
The layout lacks exactly these line ends (`braceLayout_aligned`). Where there is none of them, a
line of the layout holds characters of the source line with its number.
-/

namespace Stepwise

open Source Text

section Comments

/-- The characters of a source, each with a mark if it belongs to a block comment. The flags are
those of `dropBlockComments`. -/
def commentMarks (inside second : Bool) : List Char → List (Char × Bool)
  | [] => []
  | c :: rest =>
    if second then (c, true) :: commentMarks inside false rest
    else if inside then
      if c == '*' && rest.head? == some '/' then (c, true) :: commentMarks false true rest
      else (c, true) :: commentMarks true false rest
    else if c == '/' && rest.head? == some '*' && occursIn ['*', '/'] (rest.drop 1) then
      (c, true) :: commentMarks true true rest
    else (c, false) :: commentMarks false false rest

/-- What is left of marked characters: the code, and the line feeds. -/
def leftOver (marks : List (Char × Bool)) : List Char :=
  (marks.filter fun c => !c.2 || c.1 == '\n').map Prod.fst

/-- The line ends that go with the comments: carriage returns, without a line feed after them, in a
comment or in front of one after which a line feed comes next. -/
def lostLineEnds : List (Char × Bool) → Nat
  | [] => 0
  | (c, commented) :: marks =>
    let lost := c = '\r' ∧ (marks.map Prod.fst).head? ≠ some '\n' ∧
      (commented = true ∨ (leftOver marks).head? = some '\n')
    (if lost then 1 else 0) + lostLineEnds marks

theorem map_fst_commentMarks (inside second : Bool) (text : List Char) :
    (commentMarks inside second text).map Prod.fst = text := by
  fun_induction commentMarks inside second text <;> simp_all

theorem leftOver_cons (c : Char) (commented : Bool) (marks : List (Char × Bool)) :
    leftOver ((c, commented) :: marks) =
      if commented = true ∧ c ≠ '\n' then leftOver marks else c :: leftOver marks := by
  cases commented <;> by_cases hc : c = '\n' <;> simp [leftOver, hc]

/-- The marked characters are those of the comments that are taken out. -/
theorem dropBlockComments_eq_leftOver (inside second : Bool) (text : List Char)
    (hsecond : second = true → text.head? ≠ some '\n') :
    dropBlockComments inside second text = leftOver (commentMarks inside second text) := by
  fun_induction dropBlockComments inside second text with
  | case1 => rfl
  | case2 inside c rest ih =>
    -- The second character of a comment marker is no line feed, so it does not stay.
    have hc : c ≠ '\n' := by simpa using hsecond
    rw [commentMarks, if_pos rfl, leftOver_cons, if_pos ⟨rfl, hc⟩]
    exact ih nofun
  | case3 c rest hopen ih =>
    have hmark : c = '/' ∧ rest.head? = some '*' := by simp_all
    rw [ih fun _ => by rw [hmark.2]; decide, commentMarks, if_neg nofun, if_neg nofun, if_pos hopen,
      leftOver_cons, hmark.1, if_pos ⟨rfl, by decide⟩]
  | case4 c rest hopen ih =>
    rw [ih nofun, commentMarks, if_neg nofun, if_neg nofun, if_neg hopen, leftOver_cons]
    simp
  | case5 c rest hclose ih =>
    have hmark : c = '*' ∧ rest.head? = some '/' := by simp_all
    rw [ih fun _ => by rw [hmark.2]; decide, commentMarks, if_neg nofun, if_pos rfl, if_pos hclose,
      leftOver_cons, hmark.1, if_pos ⟨rfl, by decide⟩]
  | case6 c rest hclose hc ih =>
    obtain rfl : c = '\n' := by simpa using hc
    simp [commentMarks, leftOver_cons, ih nofun]
  | case7 c rest hclose hc ih =>
    have hne : c ≠ '\n' := by simpa using hc
    rw [ih nofun, commentMarks, if_neg nofun, if_pos rfl, if_neg hclose, leftOver_cons,
      if_pos ⟨rfl, hne⟩]

end Comments

section Thinning

theorem exists_splitOn_cons {c : Char} (hc : c ≠ '\n') (text : List Char) :
    ∃ piece pieces, splitOn '\n' text = piece :: pieces ∧
      splitOn '\n' (c :: text) = (c :: piece) :: pieces := by
  obtain ⟨piece, pieces, h⟩ := List.exists_cons_of_ne_nil (splitOn_ne_nil '\n' text)
  refine ⟨piece, pieces, h, ?_⟩
  rw [splitOn, if_neg (by simpa using hc), h]

theorem length_splitOn_cons (c : Char) (text : List Char) :
    (splitOn '\n' (c :: text)).length =
      (if c = '\n' then 1 else 0) + (splitOn '\n' text).length := by
  by_cases hc : c = '\n'
  · simp [splitOn, hc, Nat.add_comm]
  · obtain ⟨piece, pieces, h, h'⟩ := exists_splitOn_cons hc text
    rw [h, h', if_neg hc, Nat.zero_add]
    rfl

/-- A text out of which characters are taken, among them so many line feeds. -/
inductive Thinned : Nat → List Char → List Char → Prop
  | nil : Thinned 0 [] []
  | keep (c : Char) {n : Nat} {s t : List Char} : Thinned n s t → Thinned n (c :: s) (c :: t)
  | drop {c : Char} {n : Nat} {s t : List Char} :
      c ≠ '\n' → Thinned n s t → Thinned n (c :: s) t
  | lose {n : Nat} {s t : List Char} : Thinned n s t → Thinned (1 + n) ('\n' :: s) t

namespace Thinned

variable {n : Nat} {s t : List Char}

theorem length_splitOn (h : Thinned n s t) :
    (splitOn '\n' t).length + n = (splitOn '\n' s).length := by
  induction h with
  | nil => rfl
  | keep c _ ih => rw [length_splitOn_cons, length_splitOn_cons, ← ih, Nat.add_assoc]
  | drop hc _ ih => rw [length_splitOn_cons, if_neg hc, ih, Nat.zero_add]
  | lose _ ih =>
    rw [length_splitOn_cons, if_pos rfl, ← ih]
    omega

/-- If no line feed is taken out, every line loses characters of its own only. -/
theorem splitOn_sublist (h : Thinned n s t) (hn : n = 0) :
    List.Forall₂ List.Sublist (splitOn '\n' t) (splitOn '\n' s) := by
  induction h with
  | nil => exact .cons .slnil .nil
  | @keep c _ s t _ ih =>
    by_cases hc : c = '\n'
    · rw [splitOn, splitOn, if_pos (by simpa using hc), if_pos (by simpa using hc)]
      exact .cons .slnil (ih hn)
    · obtain ⟨piece, pieces, hs, hs'⟩ := exists_splitOn_cons hc s
      obtain ⟨piece', pieces', ht, ht'⟩ := exists_splitOn_cons hc t
      have ih := ih hn
      rw [hs, ht, List.forall₂_cons] at ih
      rw [hs', ht']
      exact .cons (ih.1.cons_cons c) ih.2
  | @drop c _ s t hc _ ih =>
    obtain ⟨piece, pieces, hs, hs'⟩ := exists_splitOn_cons hc s
    obtain ⟨piece', pieces', ht⟩ := List.exists_cons_of_ne_nil (splitOn_ne_nil '\n' t)
    have ih := ih hn
    rw [hs, ht, List.forall₂_cons] at ih
    rw [hs', ht]
    exact .cons (ih.1.cons c) ih.2
  | lose _ _ => omega

end Thinned

/-- A carriage return ends a line together with a line feed after it. -/
theorem normalizeNewlines_cons (c : Char) (text : List Char) :
    normalizeNewlines (c :: text) =
      if c = '\r' then
        if text.head? = some '\n' then normalizeNewlines text else '\n' :: normalizeNewlines text
      else c :: normalizeNewlines text := by
  by_cases hpair : c = '\r' ∧ text.head? = some '\n'
  · obtain ⟨rfl, hhead⟩ := hpair
    obtain ⟨rest, rfl⟩ := List.head?_eq_some_iff.1 hhead
    simp [normalizeNewlines]
  · have hsingle : ∀ rest, c = '\r' → text = '\n' :: rest → False := by
      rintro rest rfl rfl
      exact hpair ⟨rfl, rfl⟩
    rw [normalizeNewlines.eq_3 c text hsingle]
    by_cases hc : c = '\r'
    · have hhead : text.head? ≠ some '\n' := fun h => hpair ⟨hc, h⟩
      simp [hc, hhead]
    · simp [hc]

/-- Taking out the comments takes characters out of the lines, and the line ends that are lost. -/
theorem thinned_leftOver : ∀ marks : List (Char × Bool),
    Thinned (lostLineEnds marks) (normalizeNewlines (marks.map Prod.fst))
      (normalizeNewlines (leftOver marks))
  | [] => .nil
  | (c, commented) :: marks => by
    have ih := thinned_leftOver marks
    rw [lostLineEnds, List.map_cons, normalizeNewlines_cons, leftOver_cons]
    by_cases hc : c = '\r'
    · subst hc
      by_cases hpair : (marks.map Prod.fst).head? = some '\n'
      · -- The line feed of the pair is kept, whether or not it is in a comment.
        have hleft : (leftOver marks).head? = some '\n' := by
          obtain ⟨⟨d, _⟩, rest, rfl⟩ | rfl : (∃ m rest, marks = m :: rest) ∨ marks = [] := by
            cases marks <;> simp
          · obtain rfl : d = '\n' := by simpa using hpair
            simp [leftOver_cons]
          · simp at hpair
        cases commented <;> simpa [-List.head?_map, hpair, hleft, normalizeNewlines_cons] using ih
      · cases commented with
        | true => simpa [-List.head?_map, hpair] using ih.lose
        | false =>
          by_cases hleft : (leftOver marks).head? = some '\n'
          · simpa [-List.head?_map, hpair, hleft, normalizeNewlines_cons] using ih.lose
          · simpa [-List.head?_map, hpair, hleft, normalizeNewlines_cons] using ih.keep '\n'
    · by_cases hdrop : commented = true ∧ c ≠ '\n'
      · simpa [hc, hdrop] using ih.drop hdrop.2
      · simpa [hc, hdrop, normalizeNewlines_cons] using ih.keep c

end Thinning

section Lines

theorem trim_sublist (text : List Char) : (trim text).Sublist text :=
  (isPrefix_trimRight _).sublist.trans (List.dropWhile_suffix isBlank).sublist

theorem bracedLine_sublist (number openBraces : Nat) (raw : List Char) :
    (bracedLine number openBraces raw).1.text.Sublist raw := by
  have hcode : (trim (stripComment ['/', '/'] raw)).Sublist raw :=
    (trim_sublist _).trans (isPrefix_stripCommentFrom _ _ _).sublist
  have htext (n : Nat) : (trim ((trim (stripComment ['/', '/'] raw)).drop n)).Sublist raw :=
    (trim_sublist _).trans ((List.drop_sublist n _).trans hcode)
  simp only [bracedLine]
  split_ifs
  · exact List.nil_sublist raw
  · exact htext _

theorem bracedLine_text_ne_nil {number openBraces : Nat} {raw : List Char}
    (h : (bracedLine number openBraces raw).1.blank = false) :
    (bracedLine number openBraces raw).1.text ≠ [] := by
  simp only [bracedLine] at h ⊢
  rw [h, if_neg Bool.false_ne_true]
  intro hnil
  rw [hnil] at h
  exact absurd h (by decide)

theorem length_bracedLines : ∀ (raws : List (List Char)) (number openBraces : Nat),
    (bracedLines number openBraces raws).length = raws.length
  | [], _, _ => rfl
  | _ :: raws, _, _ => congrArg (· + 1) (length_bracedLines raws _ _)

theorem exists_bracedLine : ∀ (raws : List (List Char)) {number openBraces i : Nat} {l : Line},
    (bracedLines number openBraces raws)[i]? = some l →
      ∃ n o raw, raws[i]? = some raw ∧ l = (bracedLine n o raw).1
  | [], _, _, _, _, h => by simp [bracedLines] at h
  | raw :: _, number, openBraces, 0, _, h =>
    ⟨number, openBraces, raw, rfl, (Option.some.inj h).symm⟩
  | _ :: raws, _, _, i + 1, _, h => by
    rw [bracedLines, List.getElem?_cons_succ] at h
    exact exists_bracedLine raws h

end Lines

/-- The line ends of a source that go with its block comments. -/
def hiddenLineEnds (source : List Char) : Nat := lostLineEnds (commentMarks false false source)

theorem thinned_dropBlockComments (source : List Char) :
    Thinned (hiddenLineEnds source) (normalizeNewlines source)
      (normalizeNewlines (dropBlockComments false false source)) := by
  have h := thinned_leftOver (commentMarks false false source)
  rwa [map_fst_commentMarks, ← dropBlockComments_eq_leftOver false false source nofun] at h

/-- A line of code of the braced dialect holds characters of the source line with its number. -/
def Source.Program.Shows (p : Program) (source : List Char) (k : Nat) : Prop :=
  ∃ l raw, p.lines[k]? = some l ∧ l.blank = false ∧ l.text ≠ [] ∧
    (sourceLines source)[k]? = some raw ∧ l.text.Sublist raw

theorem braceLayout_shows {source : List Char} (h : hiddenLineEnds source = 0) {k : Nat}
    (hk : (braceLayout source).HasCode k) : (braceLayout source).Shows source k := by
  obtain ⟨hlt, hblank⟩ := hk
  have hl := Program.getElem?_line hlt
  obtain ⟨n, o, raw, hraw, hline⟩ := exists_bracedLine _ hl
  rw [hline] at hl hblank
  have hlines := (thinned_dropBlockComments source).splitOn_sublist h
  obtain ⟨hk, rfl⟩ := List.getElem?_eq_some_iff.1 hraw
  have hk' := hlines.length_eq ▸ hk
  exact ⟨_, _, hl, hblank, bracedLine_text_ne_nil hblank, List.getElem?_eq_getElem hk',
    (bracedLine_sublist n o _).trans (List.forall₂_iff_get.1 hlines |>.2 k hk hk')⟩

/-- The layout has as many lines as the source, less the line ends that go with comments. If there
are none of these, the lines with code hold characters of the source lines with the same numbers,
and the steps of a run point at such lines. -/
theorem braceLayout_aligned (source : String) :
    (braceLayout source.toList).lines.length + hiddenLineEnds source.toList =
        (sourceLines source.toList).length ∧
      (hiddenLineEnds source.toList = 0 →
        (∀ k, (braceLayout source.toList).HasCode k →
          (braceLayout source.toList).Shows source.toList k) ∧
        ∀ limits steps, (traceSteps .braced limits source).result = .ok steps →
          ∀ s ∈ steps, ∃ k : Nat, s.line = k ∧
            (braceLayout source.toList).Shows source.toList k) := by
  refine ⟨?_, fun h => ⟨fun k => braceLayout_shows h, fun limits steps hsteps s hs => ?_⟩⟩
  · show (bracedLines 0 0 _).length + _ = _
    rw [length_bracedLines]
    exact (thinned_dropBlockComments source.toList).length_splitOn
  · have hp := layout_numbered .braced source.toList
    obtain ⟨m, -, rfl, -, hreturned⟩ := Regime.exists_end (.inl fun _ => id)
      (Regime.wellKept_starts hp limits) trivial .start hsteps
    have hkept : m.recorder.WellKept (layout .braced source.toList) limits :=
      hreturned.elim id id
    obtain ⟨k, hk, hcode⟩ := (hkept.wellFormed.sound s hs).line
    exact ⟨k, hk, braceLayout_shows h hcode⟩

/-- All three line ends, two of them in comments. -/
theorem braceLayout_aligned_mixed :
    let source := "int main() \x7b\r\n/* a\r\n b */ x = 1;\ry = 2; /* c\n */\n\x7d"
    hiddenLineEnds source.toList = 0 ∧ (braceLayout source.toList).lines.length = 6 ∧
      ∃ steps, (traceSteps .braced {} source).result = .ok steps ∧ steps.map Step.line = [2, 3] ∧
        ∀ s ∈ steps, ∃ k : Nat, s.line = k ∧
          (braceLayout source.toList).Shows source.toList k := by
  intro source
  have hhidden : hiddenLineEnds source.toList = 0 := by decide +kernel
  have hlines : (sourceLines source.toList).length = 6 := by decide +kernel
  have hsteps : (traceSteps .braced {} source).result.toOption.any
      (fun steps => decide (steps.map Step.line = [2, 3])) = true := by
    decide +kernel
  obtain ⟨steps, hresult, hline⟩ := exists_steps hsteps
  obtain ⟨hlength, haligned⟩ := braceLayout_aligned source
  exact ⟨hhidden, by omega, steps, hresult, by simpa using hline,
    (haligned hhidden).2 {} steps hresult⟩

/-- The statement of the second line is counted for the first one. -/
theorem braceLayout_hides_return :
    let source := "/*\r*/x = 1;"
    (sourceLines source.toList)[1]? = some "*/x = 1;".toList ∧
      (braceLayout source.toList).lines = [⟨"x = 1;".toList, 0, 0, false⟩] := by
  decide +kernel

end Stepwise
