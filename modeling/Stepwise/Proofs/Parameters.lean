import Mathlib.Data.List.TakeWhile
import Mathlib.Tactic.MkIffOfInductiveProp
import Stepwise.Proofs.IndentedTree
import Stepwise.Proofs.OneLineBodies

/-!
# Parameters with defaults

A definition of the indented dialect may give its parameters defaults. They are dropped: the
parameters of the function are the names, in their order, and a call gives each of them its argument
or none. The text between the parentheses is cut at every comma, in brackets and literals too, so
this holds exactly if no default has a comma (`params_iff_commaless`). A comma in a default makes
one parameter more, and the arguments behind it move (`functionTable_cuts_default`).
-/

namespace Stepwise

open Text Source

/-! ### Pieces between commas -/

namespace Text

theorem trim_eq_nil_iff {text : List Char} : trim text = [] ↔ ∀ c ∈ text, isBlank c = true := by
  rw [trim, trimRight, List.reverse_eq_nil_iff, List.dropWhile_eq_nil_iff]
  simp only [List.mem_reverse]
  constructor
  · intro h c hc
    rw [← List.takeWhile_append_dropWhile (p := isBlank) (l := text), List.mem_append] at hc
    exact hc.elim (fun hc => List.mem_takeWhile_imp hc) (h c)
  · exact fun h c hc => h c ((List.dropWhile_suffix isBlank).subset hc)

/-- A separator ends a piece, whatever stands around it. -/
theorem splitOn_separator (separator : Char) (back : List Char) : ∀ front : List Char,
    splitOn separator (front ++ separator :: back) =
      splitOn separator front ++ splitOn separator back
  | [] => by simp [splitOn]
  | c :: front => by
    obtain ⟨piece, pieces, h⟩ := List.exists_cons_of_ne_nil (splitOn_ne_nil separator front)
    rw [List.cons_append, splitOn, splitOn_separator separator back front, splitOn, h]
    split_ifs <;> rfl

/-- A text without separators belongs to the first piece of what follows it. -/
theorem splitOn_front {separator : Char} {rest piece : List Char} {pieces : List (List Char)}
    (h : splitOn separator rest = piece :: pieces) : ∀ {front : List Char}, separator ∉ front →
      splitOn separator (front ++ rest) = (front ++ piece) :: pieces
  | [], _ => h
  | c :: front, hfront => by
    rw [List.mem_cons, not_or] at hfront
    rw [List.cons_append, splitOn, splitOn_front h hfront.2,
      if_neg (by simpa using Ne.symm hfront.1)]
    rfl

end Text

/-- The parameters of texts with commas between them are those of each text. -/
theorem parameterTexts_intercalate : ∀ texts : List (List Char),
    parameterTexts ([','].intercalate texts) = texts.flatMap parameterTexts
  | [] => rfl
  | [text] => by simp [List.intercalate]
  | text :: text' :: texts => by
    have ih := parameterTexts_intercalate (text' :: texts)
    have hj : [','].intercalate (text :: text' :: texts) =
        text ++ ',' :: [','].intercalate (text' :: texts) := rfl
    rw [hj, parameterTexts, splitOn_separator, List.filter_append, List.flatMap_cons, ← ih]
    rfl

/-! ### Scans that are inside something -/

namespace Source

/-- The scan is inside a literal or between brackets. -/
def Nesting.Inside (s : Nesting) : Prop :=
  match s.quoting with
  | .code => s.depth ≠ 0
  | .literal delimiter _ => isQuote delimiter = true

theorem Nesting.Inside.next {s : Nesting} (h : s.Inside) {c : Char} (hq : isQuote c = false)
    (ho : isOpener c = false) (hc : isCloser c = false) : (s.next c).Inside := by
  obtain ⟨q, depth⟩ := s
  rcases q with _ | ⟨d, _ | _⟩
  · simpa [Inside, Nesting.next, Quoting.next, Quoting.seesCode, hq, ho, hc] using h
  · have hd : isQuote d = true := h
    have hne : (c == d) = false := by
      rw [beq_eq_false_iff_ne]
      rintro rfl
      rw [hd] at hq
      cases hq
    by_cases hb : c = '\\' <;> simpa [Inside, Nesting.next, Quoting.next, hb, hne] using hd
  · exact h

theorem Nesting.Inside.foldl {text : List Char} (htext : ∀ c ∈ text, isQuote c = false ∧
    isOpener c = false ∧ isCloser c = false) : ∀ {s : Nesting}, s.Inside →
      (text.foldl Nesting.next s).Inside := by
  induction text with
  | nil => exact id
  | cons c text ih =>
    intro s h
    obtain ⟨hq, ho, hc⟩ := htext c List.mem_cons_self
    exact ih (fun d hd => htext d (List.mem_cons_of_mem c hd)) (h.next hq ho hc)

/-- What ends the literal is a quote, if the scan is in one. -/
def Nesting.AwaitsQuote (s : Nesting) : Prop :=
  ∀ delimiter escaped, s.quoting = .literal delimiter escaped → isQuote delimiter = true

theorem Nesting.AwaitsQuote.next {s : Nesting} (h : s.AwaitsQuote) (c : Char) :
    (s.next c).AwaitsQuote := by
  intro d escaped hd
  obtain ⟨q, depth⟩ := s
  rcases q with _ | ⟨d₀, _ | _⟩ <;> simp only [Nesting.next, Quoting.next] at hd
  · split_ifs at hd with hc
    cases hd
    exact hc
  · split_ifs at hd <;> cases hd <;> exact h d _ rfl
  · cases hd
    exact h d _ rfl

/-- In a text of one piece the scan is inside something at every comma. -/
theorem inside_of_length_pieces {back : List Char} : ∀ {front : List Char} {s : Nesting},
    s.AwaitsQuote → (topLevelPieces (· == ',') s (front ++ ',' :: back)).length = 1 →
      (front.foldl Nesting.next s).Inside
  | [], s, hs, h => by
    obtain ⟨piece, pieces, hpieces⟩ :=
      List.exists_cons_of_ne_nil (topLevelPieces_ne_nil (· == ',') back (s.next ','))
    rw [List.nil_append, topLevelPieces, hpieces] at h
    have htop : ¬ s.atTop ',' = true := by
      intro htop
      simp [htop] at h
    obtain ⟨q, depth⟩ := s
    cases q with
    | code =>
      intro hdepth
      exact htop (beq_iff_eq.2 hdepth)
    | literal d escaped => exact hs d escaped rfl
  | c :: front, s, hs, h => by
    rw [List.foldl_cons]
    suffices hwhole : (topLevelPieces (· == ',') (s.next c) (front ++ ',' :: back)).length = 1 from
      inside_of_length_pieces (hs.next c) hwhole
    obtain ⟨piece, pieces, hpieces⟩ := List.exists_cons_of_ne_nil
      (topLevelPieces_ne_nil (· == ',') (front ++ ',' :: back) (s.next c))
    rw [List.cons_append, topLevelPieces, hpieces] at h
    rw [hpieces]
    revert h
    split_ifs <;> simp

end Source

/-! ### Parameters -/

namespace Indented

/-- The text of a default: no parenthesis is in it, its brackets and literals are closed, and its
commas stand inside them. -/
@[mk_iff]
structure IsDefault (text : List Char) : Prop where
  unparenthesized : '(' ∉ text ∧ ')' ∉ text
  balanced : text.foldl Nesting.next .start = .start
  whole : (topLevelPieces (· == ',') .start text).length = 1

instance (text : List Char) : Decidable (IsDefault text) := decidable_of_iff' _ (isDefault_iff text)

/-- What stands behind the last comma of a default closes what the comma is in. -/
theorem IsDefault.nonblank_last {front back : List Char} (h : IsDefault (front ++ ',' :: back)) :
    trim back ≠ [] := by
  intro hblank
  rw [trim_eq_nil_iff] at hblank
  have hinside : (front.foldl Nesting.next .start).Inside :=
    inside_of_length_pieces (fun _ _ h => by cases h) h.whole
  have hrest : ((',' :: back).foldl Nesting.next (front.foldl Nesting.next .start)).Inside :=
    hinside.foldl (by
      rw [List.forall_mem_cons]
      exact ⟨⟨rfl, rfl, rfl⟩, fun c hc => isBlank_inert (hblank c hc)⟩)
  rw [← List.foldl_append, h.balanced] at hrest
  exact hrest rfl

structure Default where
  text : List Char
  isDefault : IsDefault text

/-- A parameter of a definition, with blanks in front of its name and behind it. -/
structure Parameter where
  lead : List Char
  name : Name
  gap : List Char
  default? : Option Default
  blank : ∀ c ∈ lead ++ gap, isBlank c = true

namespace Parameter

variable (q : Parameter)

/-- The parameter without its default. -/
def stem : List Char := q.lead ++ (q.name.text ++ q.gap)

/-- The parameter as it is written. -/
def text : List Char := q.stem ++ q.default?.elim [] ('=' :: ·.text)

/-- The name that a parameter is bound to. -/
def called : String := String.ofList q.name.text

/-- No default, or one without a comma. -/
def Commaless : Prop := ∀ d ∈ q.default?, ',' ∉ d.text

instance : Decidable q.Commaless := inferInstanceAs (Decidable (∀ d ∈ q.default?, ',' ∉ d.text))

theorem not_mem_stem {c : Char} (hw : isWord c = false) (hb : isBlank c = false) : c ∉ q.stem := by
  have hblank := q.blank
  simp only [List.forall_mem_append] at hblank
  simp only [stem, List.mem_append, not_or]
  refine ⟨fun h => ?_, fun h => ?_, fun h => ?_⟩
  · rw [hblank.1 c h] at hb
    cases hb
  · rw [q.name.isWord c h] at hw
    cases hw
  · rw [hblank.2 c h] at hb
    cases hb

theorem trim_stem : trim q.stem = q.name.text := by
  have hblank := q.blank
  simp only [List.forall_mem_append] at hblank
  have hname : trimRight q.name.text = q.name.text := by
    have hlast := List.dropLast_concat_getLast q.name.nonempty
    have hword := q.name.isWord _ (List.getLast_mem q.name.nonempty)
    rw [← hlast]
    refine trimRight_concat (Bool.eq_false_iff.2 fun h => ?_)
    rw [isWord_of_isBlank h] at hword
    cases hword
  rw [trim, stem, trimLeft_append_of_blank hblank.1, trimLeft_name,
    trimRight_append_of_nil (trimRight_of_blank hblank.2), hname]

/-- A piece that starts with the parameter is not blank and gives it its name. -/
theorem piece_stem (rest : List Char) (h : rest.head? = none ∨ rest.head? = some '=') :
    trim (q.stem ++ rest) ≠ [] ∧ parameterName (q.stem ++ rest) = q.called := by
  constructor
  · intro hblank
    have hstem : trim q.stem = [] := trim_eq_nil_iff.2 fun c hc =>
      trim_eq_nil_iff.1 hblank c (List.mem_append_left rest hc)
    rw [trim_stem] at hstem
    exact q.name.nonempty hstem
  · have hne : ∀ c ∈ q.stem, (c != '=') = true := fun c hc => by
      simpa using fun h : c = '=' => q.not_mem_stem (c := '=') rfl rfl (h ▸ hc)
    have hrest : rest.takeWhile (· != '=') = [] := by
      cases rest with
      | nil => rfl
      | cons c rest => simp_all
    rw [parameterName, List.takeWhile_append_of_pos hne, hrest, List.append_nil, trim_stem, called]

/-- The pieces of a parameter: the first one gives it its name, and there are others exactly if its
default has a comma. -/
theorem parameterTexts_text : ∃ piece others, parameterTexts q.text = piece :: others ∧
    parameterName piece = q.called ∧ (others = [] ↔ q.Commaless) := by
  have hcomma : ',' ∉ q.stem := q.not_mem_stem rfl rfl
  cases hd : q.default? with
  | none =>
    have htext : q.text = q.stem ++ [] := by rw [text, hd]; rfl
    obtain ⟨hne, hname⟩ := q.piece_stem [] (.inl rfl)
    refine ⟨_, [], ?_, hname, by simp [Commaless, hd]⟩
    have hnil : splitOn ',' [] = [[]] := rfl
    rw [htext, parameterTexts, splitOn_front hnil hcomma]
    simpa using hne
  | some d =>
    have htext : q.text = q.stem ++ ('=' :: d.text) := by rw [text, hd]; rfl
    obtain ⟨piece, pieces, hpieces⟩ := List.exists_cons_of_ne_nil (splitOn_ne_nil ',' d.text)
    have hcut : splitOn ',' ('=' :: d.text) = ('=' :: piece) :: pieces :=
      splitOn_front hpieces (show ',' ∉ ['='] by decide)
    obtain ⟨hne, hname⟩ := q.piece_stem ('=' :: piece) (.inr rfl)
    refine ⟨_, pieces.filter fun p => !(trim p).isEmpty, ?_, hname, ?_⟩
    · rw [htext, parameterTexts, splitOn_front hcut hcomma,
        List.filter_cons_of_pos (by simpa using hne)]
    · have hiff : q.Commaless ↔ ',' ∉ d.text := by simp [Commaless, hd]
      rw [hiff]
      constructor
      · intro hnil hmem
        -- the piece behind the last comma is not blank
        obtain ⟨back, front, hsplit, hback⟩ :=
          List.eq_append_cons_of_mem (List.mem_reverse.2 hmem)
        have hrev : d.text = front.reverse ++ ',' :: back.reverse := by
          rw [← List.reverse_reverse d.text, hsplit]
          simp
        have hnonblank : trim back.reverse ≠ [] := (hrev ▸ d.isDefault).nonblank_last
        obtain ⟨first, others, hfirst⟩ :=
          List.exists_cons_of_ne_nil (splitOn_ne_nil ',' front.reverse)
        rw [hrev, splitOn_separator, hfirst,
          splitOn_eq_singleton (mt List.mem_reverse.1 hback), List.cons_append] at hpieces
        have hlast : back.reverse ∈ pieces := by
          rw [← (List.cons.inj hpieces).2]
          exact List.mem_append_right _ List.mem_cons_self
        exact hnonblank (by simpa using List.filter_eq_nil_iff.1 hnil back.reverse hlast)
      · intro hnone
        rw [splitOn_eq_singleton hnone] at hpieces
        rw [← (List.cons.inj hpieces).2]
        rfl

end Parameter

/-- No parameter gets lost. -/
theorem length_le_parameterTexts : ∀ params : List Parameter,
    params.length ≤ (params.flatMap fun q => parameterTexts q.text).length
  | [] => Nat.le_refl 0
  | q :: params => by
    obtain ⟨piece, others, hq, -, -⟩ := q.parameterTexts_text
    have ih := length_le_parameterTexts params
    rw [List.flatMap_cons, hq]
    simp only [List.length_cons, List.length_append]
    omega

/-- The pieces between commas have the names of the parameters if no default has a comma, and there
are more of them otherwise. -/
theorem parameterName_pieces_iff : ∀ params : List Parameter,
    (params.flatMap fun q => parameterTexts q.text).map parameterName =
      params.map Parameter.called ↔ ∀ q ∈ params, q.Commaless
  | [] => by simp
  | q :: params => by
    obtain ⟨piece, others, hq, hname, hothers⟩ := q.parameterTexts_text
    have ih := parameterName_pieces_iff params
    rw [List.flatMap_cons, hq, List.forall_mem_cons, ← ih, ← hothers, List.map_cons]
    simp only [List.cons_append, List.map_cons, List.map_append, hname, List.cons.injEq, true_and]
    constructor
    · intro h
      have hlength := congrArg List.length h
      have hle := length_le_parameterTexts params
      simp only [List.length_append, List.length_map] at hlength
      obtain rfl : others = [] := List.eq_nil_of_length_eq_zero (by omega)
      exact ⟨rfl, h⟩
    · rintro ⟨rfl, h⟩
      exact h

/-- The text of a definition. -/
def headerText (name : Name) (params : List Parameter) : List Char :=
  "def ".toList ++ name.text ++ '(' :: [','].intercalate (params.map Parameter.text) ++ "):".toList

theorem not_mem_params (params : List Parameter) :
    ')' ∉ [','].intercalate (params.map Parameter.text) := by
  refine not_mem_intercalate (by decide) ?_
  rw [List.forall_mem_map]
  intro q _
  rw [Parameter.text, List.mem_append, not_or]
  refine ⟨q.not_mem_stem rfl rfl, ?_⟩
  cases hd : q.default? with
  | none => exact List.not_mem_nil
  | some d => simpa using d.isDefault.unparenthesized.2

end Indented

/-- A function that no line further down defines again is the one that calls find. -/
theorem functionTable_of_last {dialect : Dialect} {p : Program} {front back : List Line} {l : Line}
    {f : FunctionDef} (hp : p.lines = front ++ l :: back) (hf : functionAt? dialect p l = some f)
    (hback : ∀ l' ∈ back, ∀ g, functionAt? dialect p l' = some g → g.name ≠ f.name) :
    (functionTable dialect p).get? f.name = some f := by
  rw [functionTable_eq, Table.get?_ofList, hp, List.filterMap_append, List.filterMap_cons_some hf,
    List.map_append, List.map_cons, List.reverse_append, List.reverse_cons, List.append_assoc,
    List.lookup_append, List.lookup_eq_none_iff.2]
  · simp
  · simp only [List.mem_reverse, List.mem_map, List.mem_filterMap]
    rintro _ ⟨g, ⟨l', hl', hg⟩, rfl⟩
    simpa using Ne.symm (hback l' hl' g hg)

/-- A parameter is bound to its argument if no later one has its name. -/
theorem get?_bindParams (args : List Value) {name : String} {i : Nat} {params : List String}
    (hi : params[i]? = some name) (hlast : name ∉ params.drop (i + 1)) :
    (Record.bindParams params args).get? name = some (args.getD i .none) := by
  induction params using List.reverseRecOn with
  | nil => simp at hi
  | append_singleton params n ih =>
    rw [Record.bindParams, List.mapIdx_concat, Table.ofList_concat, Table.get?_put]
    rcases Nat.lt_or_ge i params.length with h | h
    · rw [List.drop_append_of_le_length h, List.mem_append, not_or, List.mem_singleton] at hlast
      rw [if_neg hlast.2]
      rw [List.getElem?_append_left h] at hi
      exact ih hi hlast.1
    · obtain ⟨hlt, hname⟩ := List.getElem?_eq_some_iff.1 hi
      rw [List.length_append, List.length_singleton] at hlt
      obtain rfl : i = params.length := by omega
      rw [if_pos (by simpa using hname.symm)]

namespace Indented

/-- The function that a definition makes, whatever stands behind its colon: it has the name of the
definition, calls find it unless a line further down defines the name again, and its parameters are
those of the definition exactly if no default has a comma. Then a call binds each of them to its
argument, or to none if there are fewer. -/
theorem params_iff_commaless (p : Program) {front back : List Line} {l : Line}
    (hp : p.lines = front ++ l :: back) (hcode : l.blank = false) (name : Name)
    (params : List Parameter) (rest : List Char) (hl : l.text = headerText name params ++ rest) :
    ∃ f, functionAt? p l = some f ∧ f.name = String.ofList name.text ∧
      ((∀ l' ∈ back, ∀ g, functionAt? p l' = some g → g.name ≠ f.name) →
        (functionTable .indented p).get? f.name = some f) ∧
      (f.params = params.map Parameter.called ↔ ∀ q ∈ params, q.Commaless) ∧
      ((∀ q ∈ params, q.Commaless) → ∀ (args : List Value) (i : Nat) (q : Parameter),
        params[i]? = some q → q.called ∉ (params.drop (i + 1)).map Parameter.called →
          (Record.bindParams f.params args).get? q.called = some (args.getD i .none)) := by
  have hdef := definition?_header name (not_mem_params params) rest
  change definition? (headerText name params ++ rest) = _ at hdef
  rw [← hl] at hdef
  obtain ⟨f, hf, hname, hparams⟩ : ∃ f, functionAt? p l = some f ∧
      f.name = String.ofList name.text ∧ f.params =
        (params.flatMap fun q => parameterTexts q.text).map parameterName := by
    refine ⟨_, by rw [functionAt?, if_neg (by simp [hcode]), hdef]; rfl, rfl, ?_⟩
    change (parameterTexts _).map parameterName = _
    rw [parameterTexts_intercalate, List.flatMap_map]
  have hiff : f.params = params.map Parameter.called ↔ ∀ q ∈ params, q.Commaless := by
    rw [hparams]
    exact parameterName_pieces_iff params
  refine ⟨f, hf, hname, @functionTable_of_last .indented _ _ _ _ _ hp hf, hiff, ?_⟩
  intro hcommas args i q hi hlast
  rw [hiff.2 hcommas]
  refine get?_bindParams args (by rw [List.getElem?_map, hi]; rfl) ?_
  rwa [← List.map_drop]

/-- A name of one letter. -/
def Name.letter (c : Char) (h : Text.isWord c = true) : Name :=
  ⟨[c], List.cons_ne_nil c [], List.forall_mem_singleton.2 h⟩

/-- The parameters of `f(a, b = "x=[", c=[[1]][0])`. -/
def presets : List Parameter :=
  [⟨[], .letter 'a' rfl, [], none, List.all_eq_true.1 rfl⟩,
    ⟨[' '], .letter 'b' rfl, [' '], some ⟨" \"x=[\"".toList, by decide +kernel⟩,
      List.all_eq_true.1 rfl⟩,
    ⟨[' '], .letter 'c' rfl, [], some ⟨"[[1]][0]".toList, by decide +kernel⟩,
      List.all_eq_true.1 rfl⟩]

/-- Defaults with an equals sign and an open bracket in a literal and with nested brackets, on a
line with its body. -/
theorem params_iff_commaless_presets :
    let p := layout .indented "def f(a, b = \"x=[\", c=[[1]][0]): return c".toList
    let name : Name := .letter 'f' rfl
    let l : Line := ⟨headerText name presets ++ " return c".toList, 0, 0, false⟩
    p.lines = [] ++ l :: [] ∧ (∀ q ∈ presets, q.Commaless) ∧
      ∃ f, (functionTable .indented p).get? "f" = some f ∧ f.params = ["a", "b", "c"] ∧
        (Record.bindParams f.params [.int 1, .int 2]).get? "b" = some (.int 2) ∧
        (Record.bindParams f.params [.int 1, .int 2]).get? "c" = some .none := by
  intro p name l
  have hlines : p.lines = [] ++ l :: [] := by decide +kernel
  have hcommas : ∀ q ∈ presets, q.Commaless := by simp [presets, Parameter.Commaless]
  obtain ⟨f, -, hname, htable, hparams, hbind⟩ :=
    params_iff_commaless p hlines rfl name presets " return c".toList rfl
  have hf := htable fun _ h => absurd h List.not_mem_nil
  rw [hname] at hf
  refine ⟨hlines, hcommas, f, hf, hparams.2 hcommas, ?_, ?_⟩
  · exact hbind hcommas [.int 1, .int 2] 1 _ rfl (by decide)
  · exact hbind hcommas [.int 1, .int 2] 2 _ rfl (by decide)

/-- The parameters of `f(a=[1, 2], b=3)`. -/
def brokenPresets : List Parameter :=
  [⟨[], .letter 'a' rfl, [], some ⟨"[1, 2]".toList, by decide +kernel⟩, List.all_eq_true.1 rfl⟩,
    ⟨[' '], .letter 'b' rfl, [], some ⟨"3".toList, by decide +kernel⟩, List.all_eq_true.1 rfl⟩]

/-- A comma in brackets makes a third parameter, and `b` does not get the second argument. -/
theorem functionTable_cuts_default :
    let p := layout .indented "def f(a=[1, 2], b=3):\n    return b".toList
    p.lines.head?.map Line.text =
        some (headerText (.letter 'f' rfl) brokenPresets) ∧
      brokenPresets.map Parameter.called = ["a", "b"] ∧
      ((functionTable .indented p).get? "f").map FunctionDef.params = some ["a", "2]", "b"] ∧
      (Record.bindParams ["a", "2]", "b"] [.int 1, .int 2]).get? "b" = some .none := by
  exact ⟨by decide +kernel, by decide +kernel, by decide +kernel, rfl⟩

end Indented

end Stepwise
