import Mathlib.Data.List.DropRight
import Stepwise.Proofs.CodeRuns
import Stepwise.Proofs.Texts

/-!
# Layout

Blank lines and comments are invisible to a run, which only shows other line numbers
(`traceSteps_edited`), and of the margins of the indented dialect only the order matters
(`traceSteps_reindented`). Both change a source into one with the same code: its lines are those of
the first one with blank lines between them, and the depths are carried along by an increasing map.
-/

namespace Stepwise

open Source Text

/-- What a comment at the end of a line begins with. -/
def Dialect.commentMarker : Dialect → List Char
  | .indented => ['#']
  | .braced => ['/', '/']

/-- A change to the lines of a source, from the first line on. -/
inductive Edit
  /-- Put in a line. -/
  | insert (line : List Char)
  /-- Keep the next line and append to it. -/
  | keep (added : List Char)

namespace Edit

/-- The lines after the changes. -/
def apply : List Edit → List (List Char) → List (List Char)
  | [], raws => raws
  | insert line :: es, raws => line :: apply es raws
  | keep added :: es, raw :: raws => (raw ++ added) :: apply es raws
  | keep _ :: es, [] => apply es []

/-- The new position of the line at a position. -/
def position : List Edit → Nat → Nat
  | [], i => i
  | insert _ :: es, i => position es i + 1
  | keep _ :: _, 0 => 0
  | keep _ :: es, i + 1 => position es i + 1

/-- The new number of a line that a step names. -/
def place (es : List Edit) (line : Int) : Int := position es line.toNat

/-- A line of blanks, or of blanks and a comment. -/
structure Hidden (dialect : Dialect) (line : List Char) : Prop where
  hidden : trimLeft line = [] ∨ dialect.commentMarker <+: trimLeft line
  plain : dialect = .braced → NoBlockComment line

/-- A comment that can follow a line: the literals of its code are closed. -/
structure Trailing (dialect : Dialect) (raw added : List Char) : Prop where
  marked : ' ' :: dialect.commentMarker <+: added
  closed : (stripComment dialect.commentMarker raw).foldl Quoting.next .code = .code
  plain : dialect = .braced → NoBlockComment added

/-- The changes put in hidden lines and append comments. -/
def Invisible (dialect : Dialect) : List Edit → List (List Char) → Prop
  | [], _ => True
  | insert line :: es, raws => Hidden dialect line ∧ Invisible dialect es raws
  | keep added :: es, raw :: raws =>
    (added = [] ∨ Trailing dialect raw added) ∧ Invisible dialect es raws
  | keep _ :: _, [] => False

theorem getElem?_apply {dialect : Dialect} : ∀ {es : List Edit} {raws : List (List Char)} {i : Nat}
    {raw : List Char}, Invisible dialect es raws → raws[i]? = some raw →
      ∃ added, (apply es raws)[position es i]? = some (raw ++ added)
  | [], _, _, raw, _, h => ⟨[], by rw [List.append_nil]; exact h⟩
  | insert _ :: es, raws, i, raw, ⟨_, hes⟩, h => @getElem?_apply dialect es raws i raw hes h
  | keep added :: _, _ :: _, 0, _, _, h => ⟨added, by rw [← Option.some.inj h]; rfl⟩
  | keep _ :: es, _ :: raws, i + 1, raw, ⟨_, hes⟩, h => @getElem?_apply dialect es raws i raw hes h

end Edit

section Spreading

/-- Lines with the same code or none. -/
structure SameLine (f : Nat → Nat) (l l' : Line) : Prop where
  blank : l'.blank = l.blank
  code : l.blank = false → SameText f l l'

/-- The lines of a program and those of the program after some changes. -/
inductive Spread (f : Nat → Nat) : List Edit → List Line → List Line → Prop
  | nil {ls ls' : List Line} : List.Forall₂ (SameLine f) ls ls' → Spread f [] ls ls'
  | insert {line : List Char} {es : List Edit} {ls ls' : List Line} {l' : Line} :
      l'.blank = true → Spread f es ls ls' → Spread f (.insert line :: es) ls (l' :: ls')
  | keep {added : List Char} {es : List Edit} {ls ls' : List Line} {l l' : Line} :
      SameLine f l l' → Spread f es ls ls' → Spread f (.keep added :: es) (l :: ls) (l' :: ls')

variable {f : Nat → Nat} {es : List Edit} {ls ls' : List Line}

theorem SameLine.filter_cons {l l' : Line} (hl : SameLine f l l')
    (h : List.Forall₂ (SameText f) (ls.filter (!·.blank)) (ls'.filter (!·.blank))) :
    List.Forall₂ (SameText f) ((l :: ls).filter (!·.blank)) ((l' :: ls').filter (!·.blank)) := by
  rw [List.filter_cons, List.filter_cons, hl.blank]
  cases hb : l.blank with
  | true => exact h
  | false => exact .cons (hl.code hb) h

theorem code_of_forall₂ (h : List.Forall₂ (SameLine f) ls ls') :
    List.Forall₂ (SameText f) (ls.filter (!·.blank)) (ls'.filter (!·.blank)) := by
  induction h with
  | nil => exact .nil
  | cons hl _ ih => exact hl.filter_cons ih

namespace Spread

theorem code (h : Spread f es ls ls') :
    List.Forall₂ (SameText f) (ls.filter (!·.blank)) (ls'.filter (!·.blank)) := by
  induction h with
  | nil h => exact code_of_forall₂ h
  | @insert _ _ _ _ l' hb _ ih =>
    rw [List.filter_cons, hb]
    exact ih
  | keep hl _ ih => exact hl.filter_cons ih

/-- As much code stands in front of a line as before the changes. -/
theorem length_filter_take (h : Spread f es ls ls') (i : Nat) :
    ((ls'.take (Edit.position es i)).filter (!·.blank)).length =
      ((ls.take i).filter (!·.blank)).length := by
  induction h generalizing i with
  | nil h => exact (code_of_forall₂ (List.forall₂_take i h)).length_eq.symm
  | @insert _ _ _ _ l' hb _ ih =>
    rw [Edit.position, List.take_succ_cons, List.filter_cons, hb]
    exact ih i
  | @keep _ _ _ _ l l' hl _ ih =>
    cases i with
    | zero => rfl
    | succ i =>
      rw [Edit.position, List.take_succ_cons, List.take_succ_cons, List.filter_cons,
        List.filter_cons, hl.blank]
      split_ifs
      · rw [List.length_cons, List.length_cons, ih]
      · exact ih i

theorem getElem? (h : Spread f es ls ls') {i : Nat} {l : Line} (hl : ls[i]? = some l) :
    ∃ l', ls'[Edit.position es i]? = some l' ∧ SameLine f l l' := by
  induction h generalizing i with
  | nil h =>
    obtain ⟨hi, hl⟩ := List.getElem?_eq_some_iff.1 hl
    have hi' := h.length_eq ▸ hi
    refine ⟨_, List.getElem?_eq_getElem hi', ?_⟩
    rw [← hl]
    exact h.get hi hi'
  | insert _ _ ih => exact ih hl
  | keep hsame _ ih =>
    cases i with
    | zero =>
      obtain rfl := Option.some.inj hl
      exact ⟨_, rfl, hsame⟩
    | succ i => exact ih hl

variable {p p' : Program}

/-- A line and the one that it becomes are twins, and no other lines are. -/
theorem carries (h : Spread f es p.lines p'.lines) : Carries (Edit.place es) p p' := by
  intro i i' t
  obtain ⟨l', hl', hsame⟩ := h.getElem? (Program.getElem?_line t.here.lt_size)
  have hlt : Edit.position es i < p'.size := (List.getElem?_eq_some_iff.1 hl').1
  have hline : p'.line (Edit.position es i) = l' := by
    rw [Program.getElem?_line hlt] at hl'
    exact Option.some.inj hl'
  have hcode : p'.HasCode (Edit.position es i) :=
    ⟨hlt, by rw [hline, hsame.blank, t.here.not_blank]⟩
  have hrank : p'.rank (Edit.position es i) = p'.rank i' :=
    (h.length_filter_take i).trans t.rank.symm
  have heq : Edit.position es i = i' := by
    rcases Nat.lt_trichotomy (Edit.position es i) i' with hlt | heq | hlt
    · exact absurd hrank (Nat.ne_of_lt (hcode.rank_lt hlt))
    · exact heq
    · exact absurd hrank (Nat.ne_of_gt (t.there.rank_lt hlt))
  exact congrArg Int.ofNat heq

end Spread

end Spreading

section Texts

variable {dialect : Dialect} {raw added line : List Char}

theorem blank_of_mem_margin (raw : List Char) : ∀ c ∈ raw.takeWhile isBlank, isBlank c = true :=
  List.all_eq_true.1 List.all_takeWhile

theorem margin_append (raw : List Char) : raw.takeWhile isBlank ++ trimLeft raw = raw :=
  List.takeWhile_append_dropWhile

/-- Of a hidden line only its margin is left. -/
theorem stripComment_hidden (h : Edit.Hidden dialect line) :
    stripComment dialect.commentMarker line = line.takeWhile isBlank := by
  have hstrip : stripComment dialect.commentMarker (trimLeft line) = [] := by
    rcases h.hidden with hnil | ⟨rest, hrest⟩
    · rw [hnil]
      rfl
    · rw [← hrest]
      cases dialect <;> exact stripComment_comment rfl
  have happend : stripComment dialect.commentMarker (line.takeWhile isBlank ++ trimLeft line) =
      line.takeWhile isBlank ++ stripComment dialect.commentMarker (trimLeft line) := by
    cases dialect <;> exact stripComment_append_of_blank rfl (blank_of_mem_margin line)
  rw [margin_append, hstrip, List.append_nil] at happend
  exact happend

theorem stripComment_trailing (h : Edit.Trailing dialect raw added) :
    stripComment dialect.commentMarker (raw ++ added) = stripComment dialect.commentMarker raw ∨
      stripComment dialect.commentMarker (raw ++ added) =
        stripComment dialect.commentMarker raw ++ [' '] := by
  obtain ⟨rest, rfl⟩ := h.marked
  cases dialect with
  | indented =>
    exact stripCommentFrom_append_comment rfl (by decide) (fun c text => by simp [List.isPrefixOf])
      (List.prefix_append _ _) h.closed
  | braced =>
    refine stripCommentFrom_append_comment rfl (by decide) (fun c text => ?_)
      (List.prefix_append _ _) h.closed
    cases text <;> simp [List.isPrefixOf]

end Texts

section Layouts

variable {raw added line : List Char}

theorem indentedLine_hidden (h : Edit.Hidden .indented line) (n : Nat) :
    (indentedLine n line).blank = true := by
  have hcode : trimRight (stripComment ['#'] line) = [] := by
    have hstrip : stripComment ['#'] line = _ := stripComment_hidden h
    rw [hstrip, trimRight_of_blank (blank_of_mem_margin line)]
  rw [indentedLine, hcode]
  rfl

theorem indentedLine_keep (h : added = [] ∨ Edit.Trailing .indented raw added) (n n' : Nat) :
    SameLine id (indentedLine n raw) (indentedLine n' (raw ++ added)) := by
  have hcode : trimRight (stripComment ['#'] (raw ++ added)) =
      trimRight (stripComment ['#'] raw) := by
    rcases h with rfl | h
    · rw [List.append_nil]
    · rcases stripComment_trailing h with heq | heq
      · exact congrArg trimRight heq
      · exact (congrArg trimRight heq).trans (trimRight_concat_blank rfl)
  rw [indentedLine, indentedLine, hcode]
  exact ⟨rfl, fun _ => ⟨rfl, rfl⟩⟩

theorem bracedLine_hidden (h : Edit.Hidden .braced line) (n openBraces : Nat) :
    (bracedLine n openBraces line).1.blank = true ∧
      (bracedLine n openBraces line).2 = openBraces := by
  have hcode : trim (stripComment ['/', '/'] line) = [] := by
    have hstrip : stripComment ['/', '/'] line = _ := stripComment_hidden h
    have hleft : trimLeft (line.takeWhile isBlank ++ []) = [] :=
      trimLeft_append_of_blank (blank_of_mem_margin line)
    rw [List.append_nil] at hleft
    rw [hstrip, trim, hleft]
    rfl
  rw [bracedLine, hcode]
  exact ⟨rfl, rfl⟩

theorem bracedLine_keep (h : added = [] ∨ Edit.Trailing .braced raw added) (n n' openBraces : Nat) :
    SameLine id (bracedLine n openBraces raw).1 (bracedLine n' openBraces (raw ++ added)).1 ∧
      (bracedLine n' openBraces (raw ++ added)).2 = (bracedLine n openBraces raw).2 := by
  have hcode : trim (stripComment ['/', '/'] (raw ++ added)) =
      trim (stripComment ['/', '/'] raw) := by
    rcases h with rfl | h
    · rw [List.append_nil]
    · rcases stripComment_trailing h with heq | heq
      · exact congrArg trim heq
      · exact (congrArg trim heq).trans (trim_concat_blank rfl)
  rw [bracedLine, bracedLine, hcode]
  exact ⟨⟨rfl, fun _ => ⟨rfl, rfl⟩⟩, rfl⟩

theorem forall₂_indentedLine {f : Nat → Nat} {R : List Char → List Char → Prop}
    (hR : ∀ n n' raw raw', R raw raw' → SameLine f (indentedLine n raw) (indentedLine n' raw'))
    {raws raws' : List (List Char)} (h : List.Forall₂ R raws raws') (number number' : Nat → Nat) :
    List.Forall₂ (SameLine f) (raws.mapIdx fun i => indentedLine (number i))
      (raws'.mapIdx fun i => indentedLine (number' i)) := by
  induction h generalizing number number' with
  | nil => exact .nil
  | cons hraw _ ih =>
    rw [List.mapIdx_cons, List.mapIdx_cons]
    exact .cons (hR _ _ _ _ hraw) (ih (fun i => number (i + 1)) fun i => number' (i + 1))

/-- Hidden lines and appended comments leave the code of the indented dialect as it is. -/
theorem spread_indented : ∀ {es : List Edit} {raws : List (List Char)} (number number' : Nat → Nat),
    Edit.Invisible .indented es raws →
      Spread id es (raws.mapIdx fun i => indentedLine (number i))
        ((Edit.apply es raws).mapIdx fun i => indentedLine (number' i))
  | [], raws, number, number', _ => by
    refine .nil (forall₂_indentedLine (R := Eq) ?_ (List.forall₂_same.2 fun _ _ => rfl) _ _)
    rintro n n' raw _ rfl
    exact ⟨rfl, fun _ => ⟨rfl, rfl⟩⟩
  | .insert line :: es, raws, number, number', ⟨hline, hes⟩ => by
    rw [Edit.apply, List.mapIdx_cons]
    exact .insert (indentedLine_hidden hline _)
      (spread_indented number (fun i => number' (i + 1)) hes)
  | .keep added :: es, raw :: raws, number, number', ⟨hadded, hes⟩ => by
    rw [Edit.apply, List.mapIdx_cons, List.mapIdx_cons]
    exact .keep (indentedLine_keep hadded _ _)
      (spread_indented (fun i => number (i + 1)) (fun i => number' (i + 1)) hes)

theorem forall₂_bracedLines : ∀ (raws : List (List Char)) (n n' openBraces : Nat),
    List.Forall₂ (SameLine id) (bracedLines n openBraces raws) (bracedLines n' openBraces raws)
  | [], _, _, _ => .nil
  | _ :: raws, _, _, _ => .cons ⟨rfl, fun _ => ⟨rfl, rfl⟩⟩ (forall₂_bracedLines raws _ _ _)

/-- Hidden lines and appended comments leave code and depths of the braced dialect as they are. -/
theorem spread_braced : ∀ {es : List Edit} {raws : List (List Char)} (n n' openBraces : Nat),
    Edit.Invisible .braced es raws →
      Spread id es (bracedLines n openBraces raws) (bracedLines n' openBraces (Edit.apply es raws))
  | [], raws, n, n', openBraces, _ => .nil (forall₂_bracedLines raws n n' openBraces)
  | .insert line :: es, raws, n, n', openBraces, ⟨hline, hes⟩ => by
    obtain ⟨hblank, hafter⟩ := bracedLine_hidden hline n' openBraces
    rw [Edit.apply, bracedLines]
    dsimp only
    rw [hafter]
    exact .insert hblank (spread_braced n (n' + 1) openBraces hes)
  | .keep added :: es, raw :: raws, n, n', openBraces, ⟨hadded, hes⟩ => by
    obtain ⟨hsame, hafter⟩ := bracedLine_keep hadded n n' openBraces
    rw [Edit.apply, bracedLines, bracedLines]
    dsimp only
    rw [hafter]
    exact .keep hsame (spread_braced (n + 1) (n' + 1) _ hes)

theorem noBlockComment_apply : ∀ {es : List Edit} {raws : List (List Char)},
    Edit.Invisible .braced es raws → (∀ l ∈ raws, NoBlockComment l) →
      ∀ l ∈ Edit.apply es raws, NoBlockComment l
  | [], _, _, h => h
  | .insert line :: es, raws, ⟨hline, hes⟩, h =>
    List.forall_mem_cons.2 ⟨hline.plain rfl, noBlockComment_apply hes h⟩
  | .keep added :: es, raw :: raws, ⟨hadded, hes⟩, h => by
    obtain ⟨hraw, hraws⟩ := List.forall_mem_cons.1 h
    refine List.forall_mem_cons.2 ⟨?_, noBlockComment_apply hes hraws⟩
    rcases hadded with rfl | hadded
    · rwa [List.append_nil]
    · refine hraw.append (hadded.plain rfl) (.inr ?_)
      obtain ⟨rest, rfl⟩ := hadded.marked
      simp

theorem indentUnit_pos (dialect : Dialect) (source : List Char) :
    0 < (layout dialect source).indentUnit := by
  cases dialect with
  | indented =>
    unfold layout indentLayout
    dsimp only
    split
    · rename_i hl
      have hdeep := List.find?_some hl
      exact of_decide_eq_true hdeep
    · exact Nat.succ_pos 3
  | braced => exact Nat.one_pos

/-- A layout after invisible changes holds the same code on other lines. -/
theorem spread_layout {dialect : Dialect} {es : List Edit} {source source' : List Char}
    (hplain : dialect = .braced → NoBlockComment source)
    (hes : Edit.Invisible dialect es (sourceLines source))
    (hsource : sourceLines source' = Edit.apply es (sourceLines source)) :
    Spread id es (layout dialect source).lines (layout dialect source').lines := by
  cases dialect with
  | indented =>
    show Spread id es ((sourceLines source).mapIdx indentedLine)
      ((sourceLines source').mapIdx indentedLine)
    rw [hsource]
    exact spread_indented id id hes
  | braced =>
    have hplain' : NoBlockComment source' := by
      rw [← noBlockComment_sourceLines, hsource]
      exact noBlockComment_apply hes ((noBlockComment_sourceLines source).2 (hplain rfl))
    show Spread id es (bracedLines 0 0 (sourceLines (dropBlockComments false false source)))
      (bracedLines 0 0 (sourceLines (dropBlockComments false false source')))
    rw [dropBlockComments_eq (hplain rfl), dropBlockComments_eq hplain', hsource]
    exact spread_braced 0 0 0 hes

theorem Spread.sameCode {f : Nat → Nat} (hf : StrictMono f) {dialect : Dialect} {es : List Edit}
    {source source' : List Char}
    (h : Spread f es (layout dialect source).lines (layout dialect source').lines) :
    SameCode f (layout dialect source) (layout dialect source') :=
  ⟨hf, h.code, indentUnit_pos dialect source, indentUnit_pos dialect source',
    layout_numbered dialect source, layout_numbered dialect source'⟩

end Layouts

section Margins

variable {raw raw' : List Char}

/-- What a line is, apart from its margin. -/
theorem indentedLine_margin {margin rest : List Char} (hmargin : ∀ c ∈ margin, isBlank c = true)
    (hrest : trimLeft rest = rest) (n : Nat) :
    indentedLine n (margin ++ rest) =
      ⟨trimRight (stripComment ['#'] rest),
        if (trimRight (stripComment ['#'] rest)).isEmpty then 0 else margin.length, n,
        (trimRight (stripComment ['#'] rest)).isEmpty⟩ := by
  rw [indentedLine, stripComment_append_of_blank rfl hmargin]
  by_cases hcode : trimRight (stripComment ['#'] rest) = []
  · rw [trimRight_append_of_nil hcode, trimRight_of_blank hmargin, hcode]
    rfl
  · have hleft : trimLeft (trimRight (stripComment ['#'] rest)) =
        trimRight (stripComment ['#'] rest) :=
      trimLeft_of_isPrefix ((isPrefix_trimRight _).trans (isPrefix_stripCommentFrom _ _ _)) hrest
    rw [trimRight_append_of_ne_nil hcode, trimLeft_append_of_blank hmargin, hleft,
      List.length_append, Nat.add_sub_cancel]

/-- A line with another margin: what was `d` blanks wide is `f d` spaces wide. A line without code
may become any line without code. -/
structure Reindented (f : Nat → Nat) (raw raw' : List Char) : Prop where
  blank : (indentedLine 0 raw).blank = true → (indentedLine 0 raw').blank = true
  code : (indentedLine 0 raw).blank = false →
    raw' = List.replicate (f (indentedLine 0 raw).depth) ' ' ++ trimLeft raw

theorem Reindented.sameLine {f : Nat → Nat} (h : Reindented f raw raw') (n n' : Nat) :
    SameLine f (indentedLine n raw) (indentedLine n' raw') := by
  have htrim : trimLeft (trimLeft raw) = trimLeft raw := List.dropWhile_idempotent ..
  have hline (n : Nat) := indentedLine_margin (blank_of_mem_margin raw) htrim n
  rw [margin_append] at hline
  cases hblank : (indentedLine 0 raw).blank with
  | true =>
    exact ⟨(h.blank hblank).trans hblank.symm,
      fun hcode => absurd (hblank.symm.trans hcode) (by decide)⟩
  | false =>
    have hne : (trimRight (stripComment ['#'] (trimLeft raw))).isEmpty = false := by
      rwa [hline] at hblank
    have hspaces : ∀ c ∈ List.replicate (f (indentedLine 0 raw).depth) ' ', isBlank c = true :=
      fun c hc => List.eq_of_mem_replicate hc ▸ rfl
    rw [h.code hblank, indentedLine_margin hspaces htrim, hline n]
    refine ⟨rfl, fun _ => ⟨rfl, ?_⟩⟩
    rw [hline 0]
    dsimp only
    rw [hne, List.length_replicate]
    rfl

end Margins

/-- Blank lines and comments are invisible: a source with lines of blanks and comments put in, and
with comments appended to lines whose literals are closed, has the same run, with each line at its
new position. -/
theorem traceSteps_edited {dialect : Dialect} {es : List Edit} {source source' : String}
    (hplain : dialect = .braced → NoBlockComment source.toList)
    (hes : Edit.Invisible dialect es (sourceLines source.toList))
    (hsource : sourceLines source'.toList = Edit.apply es (sourceLines source.toList))
    (limits : Limits) :
    (∀ (i : Nat) (raw : List Char), (sourceLines source.toList)[i]? = some raw →
      ∃ added, (sourceLines source'.toList)[Edit.position es i]? = some (raw ++ added)) ∧
    (traceSteps dialect limits source').result =
      (traceSteps dialect limits source).result.map (List.map (Step.relocate (Edit.place es))) := by
  have hspread := spread_layout hplain hes hsource
  rw [hsource]
  exact ⟨fun i raw => Edit.getElem?_apply hes,
    traceSteps_sameCode (hspread.sameCode strictMono_id) (fun _ => rfl) hspread.carries limits⟩

theorem traceSteps_edited_literal :
    (traceSteps .braced {} "\n  // it's \x7b\nx = 1; // one\nputs(\"//\"); // two").result =
      (traceSteps .braced {} "x = 1;\nputs(\"//\");").result.map (List.map (Step.relocate
        (Edit.place [.insert [], .insert "  // it's \x7b".toList, .keep " // one".toList,
          .keep " // two".toList]))) := by
  have hes : Edit.Invisible .braced
      [.insert [], .insert "  // it's \x7b".toList, .keep " // one".toList, .keep " // two".toList]
      (sourceLines "x = 1;\nputs(\"//\");".toList) :=
    ⟨⟨.inl rfl, fun _ => by decide⟩, ⟨.inr (by decide), fun _ => by decide⟩,
      .inr ⟨by decide, by decide, fun _ => by decide⟩,
      .inr ⟨by decide, by decide, fun _ => by decide⟩, trivial⟩
  exact (traceSteps_edited (fun _ => by decide) hes (by decide) {}).2

/-- A comment at the end of a line may not open a block comment: block comments are taken out first,
and here the end of one stands in a literal on the next line. -/
theorem traceSteps_edited_blockComment :
    let source := "x = 1;\ny = \"*/\";"
    let source' := "x = 1; // /*\ny = \"*/\";"
    NoBlockComment source.toList ∧
      sourceLines source'.toList = Edit.apply [.keep " // /*".toList] (sourceLines source.toList) ∧
      ' ' :: Dialect.braced.commentMarker <+: " // /*".toList ∧
      (stripComment Dialect.braced.commentMarker "x = 1;".toList).foldl Quoting.next .code = .code ∧
      (traceSteps .braced {} source').result ≠ (traceSteps .braced {} source).result.map
        (List.map (Step.relocate (Edit.place [.keep " // /*".toList]))) := by
  refine ⟨by decide, by decide, by decide, by decide, fun h => ?_⟩
  have hkinds := congrArg (fun result => result.toOption.map (List.map Step.kind)) h
  revert hkinds
  decide +kernel

/-- Of the margins of the indented dialect only the order matters: a source whose lines of depth `d`
have got margins of `f d` spaces, for a strictly increasing `f`, has the same run. -/
theorem traceSteps_reindented {f : Nat → Nat} (hf : StrictMono f) {source source' : String}
    (hlines : List.Forall₂ (Reindented f) (sourceLines source.toList) (sourceLines source'.toList))
    (limits : Limits) :
    traceSteps .indented limits source' = traceSteps .indented limits source := by
  have hspread : Spread f [] (layout .indented source.toList).lines
      (layout .indented source'.toList).lines :=
    .nil (forall₂_indentedLine (fun n n' _ _ h => h.sameLine n n') hlines id id)
  exact traceSteps_sameLines (hspread.sameCode hf) nofun hspread.carries limits

theorem traceSteps_reindented_branch :
    traceSteps .indented {} "  if 1:\n         x = 1\n\n  y = 2" =
      traceSteps .indented {} "if 1:\n\tx = 1\n  # \ny = 2" := by
  have hlines : List.Forall₂ (Reindented fun d => 2 + 7 * d)
      (sourceLines "if 1:\n\tx = 1\n  # \ny = 2".toList)
      (sourceLines "  if 1:\n         x = 1\n\n  y = 2".toList) :=
    .cons ⟨by decide, by decide⟩ (.cons ⟨by decide, by decide⟩ (.cons ⟨by decide, by decide⟩
      (.cons ⟨by decide, by decide⟩ .nil)))
  exact traceSteps_reindented (fun a b h => by omega) hlines {}

end Stepwise
