import Stepwise.Proofs.Texts
import Stepwise.Proofs.TreeRuns

/-!
# Trees of the indented dialect

A tree of the indented dialect is written one statement a line, with every body four columns deeper
than its head. The run of the written tree is the direct run of the tree
(`traceSteps_render_indented`): the blocks, branches and functions that are found by comparing
columns are those of the tree.
-/

namespace Stepwise.Indented

open Text Source

/-- A trimmed text on one line in which no comment starts. -/
structure Snippet where
  text : List Char
  nonempty : text ≠ []
  trimmed : trim text = text
  oneLine : '\n' ∉ text ∧ '\r' ∉ text
  uncommented : stripComment ['#'] text = text

/-- A simple statement: its text has none of the shapes of a head and is no `elif`. -/
structure SimpleText extends Snippet where
  notDefinition : definition? text = none
  notBranch : branchGuard? text = none
  notElse : isElse text = false
  notElif : isElif text = false
  notWhile : whileGuard? text = none
  notFor : forParts? text = none

/-- A text that can stand where a name is asked for. -/
structure Name where
  text : List Char
  nonempty : text ≠ []
  isWord : ∀ c ∈ text, isWord c = true

/-- What stands between the parentheses of a function definition. -/
structure Parameters where
  text : List Char
  unclosed : ')' ∉ text
  oneLine : '\n' ∉ text ∧ '\r' ∉ text
  uncommented : stripComment ['#'] text = text

/-- What stands in front of a body other than that of a branch. -/
inductive Head
  | whileLoop (guard : Snippet)
  | forLoop (name : Name) (items : Snippet)
  | define (name : Name) (params : Parameters)

/-- The text of a head, with the colon at its end. -/
def Head.text : Head → List Char
  | whileLoop guard => "while ".toList ++ guard.text ++ [':']
  | forLoop name items => "for ".toList ++ name.text ++ " in ".toList ++ items.text ++ [':']
  | define name params => "def ".toList ++ name.text ++ '(' :: params.text ++ "):".toList

/-- What a compound statement does on a line with a body. A definition does not run its body. -/
def Head.run (host : Host) (line : Nat) : Head → Block → Block
  | whileLoop guard, body, scope => do
    host.record line .loopStart s!"While loop: {String.ofList guard.text}" scope
    Loop.run host line guard.text body scope
  | forLoop name items, body, scope => do
    let source ← host.evaluateText scope items.text
    host.record line .loopStart
      s!"For loop: {String.ofList name.text} in {String.ofList items.text}" scope
    let values := ((← get).heap.sequence? source).getD []
    Loop.forEach host line (String.ofList name.text) body values 0 1 scope
  | define name _, _, scope => do
    host.record line .define s!"Define function {String.ofList name.text}" scope
    pure { scope }

/-- What a simple statement does on a line. -/
def SimpleText.run (host : Host) (line : Nat) (s : SimpleText) : Block := fun scope =>
  match returnText? s.text with
  | some value => giveBack host line value scope
  | none => do pure { scope := ← simple host line s.text scope }

/-- The trees of the indented dialect. -/
def grammar : Grammar where
  dialect := .indented
  Simple := SimpleText
  Guard := Snippet
  Head := Head
  step := 4
  rowOfSimple s := .plain s.text
  rowOfIf g := .plain ("if ".toList ++ g.text ++ [':'])
  rowOfElseIf g := .plain ("elif ".toList ++ g.text ++ [':'])
  rowOfElse := .plain "else:".toList
  rowOfHead h := .plain h.text
  closing := []
  textOfGuard g := g.text
  runSimple host line s := s.run host line
  runHead host line h := h.run host line
  function?
    | .define name params =>
      some (String.ofList name.text, (parameterTexts params.text).map parameterName)
    | _ => none

/-- A tree as a source text. -/
def render (t : Stmts grammar) : String :=
  String.ofList (['\n'].intercalate
    ((t.rows 0).map fun (depth, row) => List.replicate depth ' ' ++ row.raw))

/-- The direct run of a tree. -/
def runTree (limits : Limits) (t : Stmts grammar) : Run Unit := do
  let _ ← t.run (t.host limits) 0 Table.empty

section Heads

theorem beforeColon?_concat (text : List Char) :
    beforeColon? (' ' :: (text ++ [':'])) = some (' ' :: text) := by
  rw [beforeColon?, ← List.cons_append, List.getLast?_concat, List.dropLast_concat]
  rfl

theorem guard_beforeColon (g : Snippet) :
    ((beforeColon? (' ' :: (g.text ++ [':']))).bind trimOrLast?) = some g.text := by
  have ht : trim (' ' :: g.text) = g.text := by rw [trim_cons_blank rfl, g.trimmed]
  rw [beforeColon?_concat, Option.bind_some, trimOrLast?, ht, if_neg (by simpa using g.nonempty)]

theorem branchGuard?_if (g : Snippet) :
    branchGuard? ("if ".toList ++ g.text ++ [':']) = some g.text := by
  have h : guardAfter? "if" ("if ".toList ++ g.text ++ [':']) = some g.text := guard_beforeColon g
  rw [branchGuard?, h]
  rfl

theorem branchGuard?_elif (g : Snippet) :
    branchGuard? ("elif ".toList ++ g.text ++ [':']) = some g.text :=
  guard_beforeColon g

theorem Name.exists_cons (name : Name) :
    ∃ c rest, name.text = c :: rest ∧ isBlank c = false := by
  obtain ⟨c, rest, h⟩ := List.exists_cons_of_ne_nil name.nonempty
  refine ⟨c, rest, h, ?_⟩
  by_contra hc
  have hw := name.isWord c (h ▸ List.mem_cons_self)
  rw [isWord_of_isBlank (by simpa using hc)] at hw
  cases hw

theorem trimLeft_name (name : Name) (rest : List Char) :
    trimLeft (name.text ++ rest) = name.text ++ rest := by
  obtain ⟨c, more, h, hc⟩ := name.exists_cons
  rw [h, List.cons_append, trimLeft_cons hc]

theorem takeName?_name (name : Name) {c : Char} (hc : Text.isWord c = false) (rest : List Char) :
    takeName? (name.text ++ c :: rest) = some (String.ofList name.text, c :: rest) := by
  have hneg : ¬ Text.isWord c = true := by rw [hc]; exact Bool.false_ne_true
  have ht : (name.text ++ c :: rest).takeWhile Text.isWord = name.text := by
    rw [List.takeWhile_append_of_pos name.isWord, List.takeWhile_cons_of_neg hneg, List.append_nil]
  have hd : (name.text ++ c :: rest).dropWhile Text.isWord = c :: rest := by
    rw [List.dropWhile_append_of_pos name.isWord, List.dropWhile_cons_of_neg hneg]
  rw [takeName?, ht, hd]
  exact if_neg (by simpa using name.nonempty)

theorem takeToParen?_append {params : List Char} (h : ')' ∉ params) (rest : List Char) :
    takeToParen? (params ++ ')' :: rest) = some (params, rest) := by
  have hne : ∀ c ∈ params, (c != ')') = true := fun c hc => by
    simpa using fun h' : c = ')' => h (h' ▸ hc)
  have ht : (params ++ ')' :: rest).takeWhile (· != ')') = params := by
    rw [List.takeWhile_append_of_pos hne]
    exact List.append_nil _
  have hd : (params ++ ')' :: rest).dropWhile (· != ')') = ')' :: rest := by
    rw [List.dropWhile_append_of_pos hne]
    rfl
  rw [takeToParen?, ht, hd]
  rfl

/-- What a definition is read as, whatever stands behind its colon. -/
theorem definition?_header (name : Name) {params : List Char} (h : ')' ∉ params)
    (rest : List Char) :
    definition? ("def ".toList ++ name.text ++ '(' :: params ++ "):".toList ++ rest) =
      some (String.ofList name.text, params) := by
  have hblank : dropBlanks? (' ' :: (name.text ++ '(' :: (params ++ ')' :: ':' :: rest))) =
      some (name.text ++ '(' :: (params ++ ')' :: ':' :: rest)) :=
    congrArg some (trimLeft_name name _)
  have htext : "def ".toList ++ name.text ++ '(' :: params ++ "):".toList ++ rest =
      "def".toList ++ ' ' :: (name.text ++ '(' :: (params ++ ')' :: ':' :: rest)) := by
    have happend : ∀ word name params close : List Char,
        word ++ name ++ '(' :: params ++ close ++ rest =
          word ++ (name ++ '(' :: (params ++ (close ++ rest))) :=
      fun _ _ _ _ => by simp only [List.append_assoc, List.cons_append]
    exact happend "def ".toList name.text params "):".toList
  have hword : dropWord? "def" ("def".toList ++
      ' ' :: (name.text ++ '(' :: (params ++ ')' :: ':' :: rest))) =
        some (' ' :: (name.text ++ '(' :: (params ++ ')' :: ':' :: rest))) := rfl
  have hparen : Text.isWord '(' = false := rfl
  have hopen : dropChar? '(' (trimLeft ('(' :: (params ++ ')' :: ':' :: rest))) =
      some (params ++ ')' :: ':' :: rest) := rfl
  have hclose : dropChar? ':' (trimLeft (':' :: rest)) = some rest := rfl
  rw [htext]
  simp only [definition?, hword, hblank, takeName?_name name hparen, hopen, takeToParen?_append h,
    hclose, Option.bind_eq_bind, Option.bind_some]
  rfl

theorem definition?_def (name : Name) (params : Parameters) :
    definition? (Head.define name params).text = some (String.ofList name.text, params.text) := by
  have h := definition?_header name params.unclosed []
  rwa [List.append_nil] at h

theorem forParts?_for (name : Name) (items : Snippet) :
    forParts? (Head.forLoop name items).text = some (String.ofList name.text, items.text) := by
  have htext : (Head.forLoop name items).text =
      "for".toList ++ ' ' :: (name.text ++
        ' ' :: ("in".toList ++ ' ' :: (items.text ++ [':']))) := by
    have happend : ∀ word name between items colon : List Char,
        word ++ name ++ between ++ items ++ colon =
          word ++ (name ++ (between ++ (items ++ colon))) :=
      fun _ _ _ _ _ => by rw [List.append_assoc, List.append_assoc, List.append_assoc]
    exact happend "for ".toList name.text " in ".toList items.text [':']
  have hword : dropWord? "for" (Head.forLoop name items).text =
      some (' ' :: (name.text ++ ' ' :: ("in".toList ++ ' ' :: (items.text ++ [':'])))) := by
    rw [htext]
    rfl
  have hblank : dropBlanks? (' ' :: (name.text ++ ' ' :: ("in".toList ++
      ' ' :: (items.text ++ [':'])))) =
        some (name.text ++ ' ' :: ("in".toList ++ ' ' :: (items.text ++ [':']))) :=
    congrArg some (trimLeft_name name _)
  have hblank' : dropBlanks? (' ' :: ("in".toList ++ ' ' :: (items.text ++ [':']))) =
      some ("in".toList ++ ' ' :: (items.text ++ [':'])) := rfl
  have hin : dropWord? "in" ("in".toList ++ ' ' :: (items.text ++ [':'])) =
      some (' ' :: (items.text ++ [':'])) := rfl
  have hitems : trimOrLast? items.text = some items.text := by
    rw [trimOrLast?, items.trimmed, if_neg (by simpa using items.nonempty)]
  simp only [forParts?, hword, hblank, takeName?_name name (c := ' ') rfl, hblank', hin,
    beforeColon?_concat, Option.bind_eq_bind, Option.bind_some, hitems]
  rfl

theorem shape_simple (s : SimpleText) :
    shape s.text = match returnText? s.text with
      | some value => .giveBack value
      | none => .simple := by
  simp only [shape, s.notDefinition, s.notBranch, s.notElse, s.notWhile, s.notFor,
    Option.isSome_none, Bool.false_eq_true, if_false]
  cases returnText? s.text <;> rfl

theorem shape_if (g : Snippet) : shape ("if ".toList ++ g.text ++ [':']) = .branch := by
  have h : definition? ("if ".toList ++ g.text ++ [':']) = none := rfl
  rw [shape, h, branchGuard?_if]
  rfl

theorem shape_while (g : Snippet) : shape (Head.whileLoop g).text = .whileLoop g.text := by
  have hd : definition? (Head.whileLoop g).text = none := rfl
  have hb : branchGuard? (Head.whileLoop g).text = none := rfl
  have he : isElse (Head.whileLoop g).text = false := rfl
  have hw : whileGuard? (Head.whileLoop g).text = some g.text := guard_beforeColon g
  rw [shape, hd, hb, he, hw]
  rfl

theorem shape_for (name : Name) (items : Snippet) :
    shape (Head.forLoop name items).text = .forLoop (String.ofList name.text) items.text := by
  have hd : definition? (Head.forLoop name items).text = none := rfl
  have hb : branchGuard? (Head.forLoop name items).text = none := rfl
  have he : isElse (Head.forLoop name items).text = false := rfl
  have hw : whileGuard? (Head.forLoop name items).text = none := rfl
  rw [shape, hd, hb, he, hw, forParts?_for]
  rfl

theorem shape_define (name : Name) (params : Parameters) :
    shape (Head.define name params).text = .define (String.ofList name.text) := by
  rw [shape, definition?_def]

end Heads

section Rows

theorem isPlain_of_isWord {c : Char} (hc : Text.isWord c = true) : isPlain '#' c = true := by
  by_contra h
  simp only [isPlain, isQuote, Bool.not_eq_true, Bool.not_eq_false', Bool.or_eq_true,
    beq_iff_eq] at h
  rcases h with ((rfl | rfl | rfl) | rfl) | rfl <;> cases hc

/-- A text between plain texts is a snippet if the ends are not blank. -/
theorem exists_snippet {c z : Char} (front back : List Char) {text : List Char}
    (hc : isBlank c = false) (hz : isBlank z = false)
    (hfront : ∀ x ∈ c :: front, isPlain '#' x = true)
    (hback : ∀ x ∈ back ++ [z], isPlain '#' x = true) (hline : '\n' ∉ text ∧ '\r' ∉ text)
    (htext : stripComment ['#'] text = text) :
    ∃ s : Snippet, s.text = c :: front ++ text ++ (back ++ [z]) := by
  have hmarker : ∀ rest c (l : List Char),
      ['#'].isPrefixOf (c :: (l ++ rest)) = ['#'].isPrefixOf (c :: l) := fun _ _ _ => rfl
  obtain ⟨hf, hfn, hfr⟩ := not_mem_of_plain hfront
  obtain ⟨hb, hbn, hbr⟩ := not_mem_of_plain hback
  refine ⟨⟨c :: front ++ text ++ (back ++ [z]), List.cons_ne_nil _ _, ?_, ?_, ?_⟩, rfl⟩
  · rw [← List.append_assoc, List.cons_append, List.cons_append, ← List.cons_append]
    exact trim_cons_concat hc hz
  · simp only [List.mem_append, not_or]
    simp only [List.mem_append, not_or] at hbn hbr
    exact ⟨⟨⟨hfn, hline.1⟩, hbn⟩, ⟨hfr, hline.2⟩, hbr⟩
  · rw [List.append_assoc, stripComment,
      stripCommentFrom_append (hmarker _) (stripCommentFrom_of_not_mem _ hf), foldl_plain hfront,
      stripCommentFrom_append (hmarker _) htext, stripCommentFrom_of_not_mem _ hb]

theorem exists_snippet_guard (c : Char) (front : List Char) (hc : isBlank c = false)
    (hfront : ∀ x ∈ c :: front, isPlain '#' x = true) (g : Snippet) :
    ∃ s : Snippet, s.text = c :: front ++ g.text ++ [':'] :=
  exists_snippet front [] hc rfl hfront (List.all_eq_true.1 rfl) g.oneLine g.uncommented

theorem Name.isPlain (name : Name) (front back : List Char)
    (hfront : ∀ c ∈ front, isPlain '#' c = true) (hback : ∀ c ∈ back, isPlain '#' c = true) :
    ∀ c ∈ front ++ name.text ++ back, isPlain '#' c = true := by
  intro c hc
  rcases List.mem_append.1 hc with hc | hc
  · rcases List.mem_append.1 hc with hc | hc
    · exact hfront c hc
    · exact isPlain_of_isWord (name.isWord c hc)
  · exact hback c hc

theorem Head.exists_snippet : ∀ h : Head, ∃ s : Snippet, s.text = h.text
  | whileLoop g => exists_snippet_guard 'w' "hile ".toList rfl (List.all_eq_true.1 rfl) g
  | forLoop name items =>
    exists_snippet_guard 'f' ("or ".toList ++ name.text ++ " in ".toList) rfl
      (name.isPlain "for ".toList " in ".toList (List.all_eq_true.1 rfl) (List.all_eq_true.1 rfl))
      items
  | define name params => by
    obtain ⟨s, hs⟩ := Indented.exists_snippet (c := 'd') (z := ':')
      ("ef ".toList ++ name.text ++ ['(']) [')'] rfl rfl
      (name.isPlain "def ".toList ['('] (List.all_eq_true.1 rfl) (List.all_eq_true.1 rfl))
      (List.all_eq_true.1 rfl)
      params.oneLine params.uncommented
    have happend : ∀ word name params close : List Char,
        word ++ name ++ ['('] ++ params ++ close = word ++ name ++ '(' :: params ++ close :=
      fun _ _ _ _ => by rw [List.append_assoc (_ ++ _) ['('], List.singleton_append]
    exact ⟨s, hs.trans (happend "def ".toList name.text params.text "):".toList)⟩

/-- The rows of a tree are snippets, of which all is code. -/
theorem allRows_snippet : grammar.AllRows fun r => ∃ s : Snippet, r = .plain s.text where
  simple s := ⟨s.toSnippet, rfl⟩
  branch g := by
    obtain ⟨s, hs⟩ := exists_snippet_guard 'i' "f ".toList rfl (List.all_eq_true.1 rfl) g
    exact ⟨s, by rw [hs]; rfl⟩
  elseIf g := by
    obtain ⟨s, hs⟩ := exists_snippet_guard 'e' "lif ".toList rfl (List.all_eq_true.1 rfl) g
    exact ⟨s, by rw [hs]; rfl⟩
  otherwise := ⟨⟨"else:".toList, by decide, by decide, by decide, by decide⟩, rfl⟩
  head h := by
    obtain ⟨s, hs⟩ := h.exists_snippet
    exact ⟨s, by rw [hs]; rfl⟩
  closing := fun _ h => by cases h

theorem grammar_lawful : grammar.Lawful where
  step_pos := by decide
  simple s := .inl ⟨s.nonempty, by
    show (isElif s.text || isElse s.text) = false
    rw [s.notElif, s.notElse]
    rfl⟩
  branch g := ⟨List.cons_ne_nil _ _, rfl⟩
  head
    | .whileLoop _ => ⟨List.cons_ne_nil _ _, rfl⟩
    | .forLoop _ _ => ⟨List.cons_ne_nil _ _, rfl⟩
    | .define _ _ => ⟨List.cons_ne_nil _ _, rfl⟩
  elseIf g := ⟨List.cons_ne_nil _ _, rfl⟩
  otherwise := ⟨List.cons_ne_nil _ _, rfl⟩
  closing := fun _ h => by cases h

/-- A statement starts with a row of its depth that holds code. -/
theorem exists_row (s : Stmt grammar) (d : Nat) :
    ∃ r rows, s.rows d = (d, r) :: rows ∧ r.code ≠ [] := by
  cases s with
  | simple s => exact ⟨_, _, by rw [Stmt.rows], s.nonempty⟩
  | branch g _ _ => exact ⟨_, _, by rw [Stmt.rows], List.cons_ne_nil _ _⟩
  | compound h _ => exact ⟨_, _, by rw [Stmt.rows], (grammar_lawful.head h).1⟩

end Rows

section Layout

theorem indentedLine_snippet (s : Snippet) (d n : Nat) :
    indentedLine n (List.replicate d ' ' ++ s.text) = (Row.plain s.text).line d n := by
  have hplain : ∀ c ∈ List.replicate d ' ', isPlain '#' c = true := fun c hc => by
    rw [(List.mem_replicate.1 hc).2]
    rfl
  have hblank : ∀ c ∈ List.replicate d ' ', isBlank c = true := fun c hc => by
    rw [(List.mem_replicate.1 hc).2]
    rfl
  have hstrip : stripComment ['#'] (List.replicate d ' ' ++ s.text) =
      List.replicate d ' ' ++ s.text := by
    rw [stripComment, stripCommentFrom_append (fun _ _ => rfl)
      (stripCommentFrom_of_not_mem _ (not_mem_of_plain hplain).1),
      foldl_plain hplain]
    exact congrArg _ s.uncommented
  have hleft : trimLeft (List.replicate d ' ' ++ s.text) = s.text := by
    rw [trimLeft, List.dropWhile_append_of_pos hblank]
    exact trimLeft_of_trim s.trimmed
  have hne : s.text.isEmpty = false := by simpa using s.nonempty
  rw [indentedLine, hstrip, trimRight_append s.trimmed s.nonempty, hleft, hne, Row.line, Row.plain,
    List.length_append, List.length_replicate, Nat.add_sub_cancel, hne]
  rfl

theorem mapIdx_indentedLine : ∀ (rows : List (Nat × Row)) (k : Nat),
    (∀ x ∈ rows, ∃ s : Snippet, x.2 = .plain s.text) →
      (rows.map fun (depth, row) => List.replicate depth ' ' ++ row.raw).mapIdx
        (fun i => indentedLine (k + i)) = linesFrom k rows
  | [], _, _ => rfl
  | (d, r) :: rows, k, h => by
    obtain ⟨s, rfl⟩ := h (d, r) List.mem_cons_self
    have ih := mapIdx_indentedLine rows (k + 1) fun x hx => h x (List.mem_cons_of_mem _ hx)
    rw [List.map_cons, List.mapIdx_cons, linesFrom, ← ih]
    congr 1
    · exact indentedLine_snippet s d k
    · congr 1
      funext i
      rw [Nat.add_assoc, Nat.add_comm 1]

/-- The first row that is deeper than its tree is the first row of a body. -/
def StepsIn (d : Nat) (rows : List (Nat × Row)) : Prop :=
  ∀ x, rows.find? (d < ·.1) = some x → x.1 = d + 4

theorem StepsIn.cons {d : Nat} {r : Row} {rows : List (Nat × Row)} (h : StepsIn d rows) :
    StepsIn d ((d, r) :: rows) := by
  intro x hx
  rw [List.find?_cons_of_neg (by simp)] at hx
  exact h x hx

theorem StepsIn.append {d : Nat} {rows rows' : List (Nat × Row)} (h : StepsIn d rows)
    (h' : StepsIn d rows') : StepsIn d (rows ++ rows') := by
  intro x hx
  rw [List.find?_append] at hx
  cases hr : rows.find? (d < ·.1) with
  | none =>
    rw [hr] at hx
    exact h' x hx
  | some y =>
    rw [hr] at hx
    cases hx
    exact h x hr

theorem stepsIn_body (body : Stmts grammar) (d : Nat) : StepsIn d (body.rows (d + 4)) := by
  cases body with
  | nil => exact fun x hx => by cases hx
  | cons s ss =>
    obtain ⟨r, rows, hrows, -⟩ := exists_row s (d + 4)
    intro x hx
    rw [Stmts.rows, hrows, List.cons_append, List.find?_cons_of_pos (by simp)] at hx
    cases hx
    rfl

theorem stepsIn_branches : ∀ (b : Branches grammar) (d : Nat), StepsIn d (b.rows d)
  | .done, _ => fun x hx => by cases hx
  | .otherwise body, d => (stepsIn_body body d).append (fun x hx => by cases hx) |>.cons
  | .elseIf _ body rest, d => (stepsIn_body body d).append (stepsIn_branches rest d) |>.cons

theorem stepsIn_stmts : ∀ (ss : Stmts grammar) (d : Nat), StepsIn d (ss.rows d)
  | .nil, _ => fun x hx => by cases hx
  | .cons s ss, d => by
    rw [Stmts.rows]
    refine StepsIn.append ?_ (stepsIn_stmts ss d)
    cases s with
    | simple s => exact StepsIn.cons fun x hx => by cases hx
    | branch g body rest => exact ((stepsIn_body body d).append (stepsIn_branches rest d)).cons
    | compound h body => exact ((stepsIn_body body d).append fun x hx => by cases hx).cons

theorem find?_deeper : ∀ (rows : List (Nat × Row)) (k : Nat) {l : Line},
    (linesFrom k rows).find? (fun l => 0 < l.depth) = some l →
      ∃ x, rows.find? (0 < ·.1) = some x ∧ l.depth = x.1
  | [], _, _, h => by cases h
  | (d, r) :: rows, k, l, h => by
    rw [linesFrom, List.find?_cons] at h
    rw [List.find?_cons]
    by_cases hd : 0 < d
    · have hline : decide (0 < (r.line d k).depth) = true := decide_eq_true hd
      rw [hline] at h
      cases h
      exact ⟨(d, r), by rw [decide_eq_true hd], rfl⟩
    · have hline : decide (0 < (r.line d k).depth) = false := decide_eq_false hd
      rw [hline] at h
      rw [decide_eq_false hd]
      exact find?_deeper rows (k + 1) h

theorem sourceLines_render (t : Stmts grammar) (h : t.rows 0 ≠ []) :
    sourceLines (render t).toList =
      (t.rows 0).map fun (depth, row) => List.replicate depth ' ' ++ row.raw := by
  have hline : ∀ l ∈ (t.rows 0).map fun (depth, row) => List.replicate depth ' ' ++ row.raw,
      '\n' ∉ l ∧ '\r' ∉ l := by
    intro l hl
    obtain ⟨x, hx, rfl⟩ := List.mem_map.1 hl
    obtain ⟨-, s, hs⟩ := t.mem_rows allRows_snippet 0 hx
    simp only [hs, Row.plain, List.mem_append, List.mem_replicate, not_or, not_and]
    exact ⟨⟨fun _ => by decide, s.oneLine.1⟩, fun _ => by decide, s.oneLine.2⟩
  rw [sourceLines, render, String.toList_ofList, normalizeNewlines_eq, splitOn_intercalate]
  · simpa using h
  · exact fun l hl => (hline l hl).1
  · exact not_mem_intercalate (by decide) fun l hl => (hline l hl).2

theorem lines_render (t : Stmts grammar) (h : t.rows 0 ≠ []) :
    (layout .indented (render t).toList).lines = linesFrom 0 (t.rows 0) := by
  have hm := mapIdx_indentedLine (t.rows 0) 0 fun x hx => (t.mem_rows allRows_snippet 0 hx).2
  simp only [Nat.zero_add] at hm
  rw [← hm, ← sourceLines_render t h]
  rfl

theorem indentUnit_eq {source : List Char}
    (h : ∀ l, (layout .indented source).lines.find? (fun l => 0 < l.depth) = some l → l.depth = 4) :
    (layout .indented source).indentUnit = 4 := by
  unfold layout indentLayout at h ⊢
  dsimp only at h ⊢
  split
  · exact h _ ‹_›
  · rfl

theorem indentUnit_render (t : Stmts grammar) (h : t.rows 0 ≠ []) :
    (layout .indented (render t).toList).indentUnit = 4 := by
  refine indentUnit_eq fun l hl => ?_
  rw [lines_render t h] at hl
  obtain ⟨x, hx, hd⟩ := find?_deeper _ _ hl
  rw [hd, stepsIn_stmts t 0 x hx]

/-- A written tree is laid out in its rows, with no code below them, and its bodies are four columns
deeper than their heads. -/
theorem layout_render (t : Stmts grammar) : ∃ rest : List Line,
    Placed (layout .indented (render t).toList) 0 (t.rows 0) rest ∧
      (∀ l ∈ rest, l.blank = true) ∧ (layout .indented (render t).toList).indentUnit = 4 := by
  by_cases h : t.rows 0 = []
  · have hr : (render t).toList = [] := by rw [render, String.toList_ofList, h]; rfl
    rw [hr, h]
    exact ⟨[⟨[], 0, 0, true⟩], rfl, fun l hl => by rw [List.mem_singleton.1 hl], rfl⟩
  · have hp : Placed (layout .indented (render t).toList) 0 (t.rows 0) [] := by
      rw [Placed, List.drop_zero, lines_render t h, List.append_nil]
    exact ⟨[], hp, fun l hl => absurd hl List.not_mem_nil, indentUnit_render t h⟩

end Layout

section Bodies

variable {p : Program} (hu : p.indentUnit = 4) {d i : Nat} {r : Row} {body : Stmts grammar}
  {more : List (Nat × Row)} {rest : List Line}
  (hp : Placed p i ((d, r) :: (body.rows (d + 4) ++ more)) rest)
  (hl : Leaves (d + 1) (linesFrom (i + 1 + body.height) more ++ rest))

include hu hp hl

/-- The body that is found below a row is that of the tree. An empty body is as deep as the indent
unit says. -/
theorem body_eq : p.body i = ⟨i + 1, p.nextCodeLine (i + 1 + body.height), d + 4⟩ := by
  have hbody := hp.inside
  have hline : (p.line i).depth = d := by rw [hp.line, Row.line]
  have hdepth : p.bodyDepth i = d + 4 := by
    rw [Program.bodyDepth, hline, hu]
    cases body with
    | nil =>
      have hle : (p.line (p.nextCodeLine (i + 1))).depth ≤ d := Leaves.depth_le (hbody ▸ hl)
      exact if_neg (Nat.not_lt.2 hle)
    | cons s ss =>
      obtain ⟨r', rows, hrows, hcode⟩ := exists_row s (d + 4)
      rw [Stmts.rows, hrows, List.cons_append] at hbody
      rw [hbody.nextCodeLine hcode, hbody.line]
      exact if_pos (Nat.lt_add_of_pos_right (by decide))
  rw [Program.body, hdepth, hp.blockEnd_body (hl.mono (by omega))]

/-- A body that is found below a row does what the body of the tree does. -/
theorem runBody_eq {host : Host} {fuel : Nat} (hb : RunsBlocks grammar p host fuel)
    (hf : body.height ≤ fuel) :
    runBlock p (runLine host p) fuel (p.body i) = body.run host (i + 1) := by
  rw [body_eq hu hp hl]
  exact hb.runBody hp (hl.mono (by omega)) hf

end Bodies

section Chains

variable {p : Program} (hu : p.indentUnit = 4)

theorem codeLineAt?_congr {a b : Nat} (d : Nat) (h : p.nextCodeLine a = p.nextCodeLine b) :
    codeLineAt? p d a = codeLineAt? p d b := by
  rw [codeLineAt?, codeLineAt?, h]

theorem skipBranches_congr {a b : Nat} (d fuel : Nat) (h : p.nextCodeLine a = p.nextCodeLine b) :
    skipBranches p d fuel a = skipBranches p d fuel b := by
  cases fuel with
  | zero => exact h
  | succ fuel => rw [skipBranches, skipBranches, codeLineAt?_congr d h, h]

theorem codeLineAt?_row {d i : Nat} {r : Row} {rows : List (Nat × Row)} {rest : List Line}
    (hp : Placed p i ((d, r) :: rows) rest) (hr : r.code ≠ []) : codeLineAt? p d i = some i := by
  rw [codeLineAt?, hp.nextCodeLine hr]
  exact if_pos ⟨hp.lt_size, by rw [hp.line, Row.line]⟩

/-- No branch follows where a statement ends. -/
theorem codeLineAt?_end {d i j : Nat} (h : EndsStatement .indented d (p.lines.drop i))
    (hj : codeLineAt? p d i = some j) :
    j = p.nextCodeLine i ∧ isElif (p.line j).text = false ∧ isElse (p.line j).text = false := by
  rw [codeLineAt?] at hj
  split at hj
  · rename_i hat
    cases hj
    exact ⟨rfl, Bool.or_eq_false_iff.1 ((h _ (p.find?_code hat.1)).2 hat.2)⟩
  · cases hj

theorem skipBranches_end {d i : Nat} (h : EndsStatement .indented d (p.lines.drop i)) (fuel : Nat) :
    skipBranches p d fuel i = p.nextCodeLine i := by
  cases fuel with
  | zero => rfl
  | succ fuel =>
    rw [skipBranches]
    split
    · rename_i j hj
      obtain ⟨rfl, helif, helse⟩ := codeLineAt?_end h hj
      rw [helif, helse]
      rfl
    · rfl

section Below

variable {d i fuel : Nat} {r : Row} {body : Stmts grammar} {rest : List Line}

include hu in
/-- A branch that is skipped is passed over with its body. -/
theorem skipBranches_row {more : List (Nat × Row)}
    (hr : r.code ≠ [] ∧ continuesChain .indented r.code = true)
    (hp : Placed p i ((d, r) :: (body.rows (d + 4) ++ more)) rest)
    (hl : Leaves (d + 1) (linesFrom (i + 1 + body.height) more ++ rest)) :
    skipBranches p d (fuel + 1) i = skipBranches p d fuel (i + 1 + body.height) := by
  have hc : (isElif (p.line i).text || isElse (p.line i).text) = true := by
    rw [hp.line]
    exact hr.2
  rw [skipBranches, codeLineAt?_row hp hr.1]
  dsimp only
  rw [if_pos hc, body_eq hu hp hl, skipBranches_congr d fuel (p.nextCodeLine_nextCodeLine _)]

include hu in
/-- The branches that are skipped are those of the tree. -/
theorem skipBranches_rows : ∀ (more : Branches grammar) {d i fuel : Nat},
    Placed p i (more.rows d) rest → EndsStatement .indented d rest → more.height ≤ fuel →
      skipBranches p d fuel i = p.nextCodeLine (i + more.height)
  | .done, d, i, fuel, hp, hr, _ => skipBranches_end (hp ▸ hr) fuel
  | .otherwise body, d, i, fuel, hp, hr, hf => by
    rw [Branches.height] at hf ⊢
    rw [Branches.rows] at hp
    obtain ⟨fuel, rfl⟩ : ∃ k, fuel = k + 1 := ⟨fuel - 1, by omega⟩
    rw [skipBranches_row hu grammar_lawful.otherwise hp (leaves_closing grammar_lawful hr),
      skipBranches_end (hp.below ▸ hr), Nat.add_assoc i]
    rfl
  | .elseIf g body more, d, i, fuel, hp, hr, hf => by
    rw [Branches.height] at hf ⊢
    rw [Branches.rows] at hp
    obtain ⟨fuel, rfl⟩ : ∃ k, fuel = k + 1 := ⟨fuel - 1, by omega⟩
    rw [skipBranches_row hu (grammar_lawful.elseIf g) hp (leaves_branches grammar_lawful hr more),
      skipBranches_rows more hp.below hr (by omega), Nat.add_assoc i, Nat.add_assoc i]

/-- The branches that are found from an index on. -/
def chainBelow (p : Program) (d n start : Nat) : Chain Extent :=
  match codeLineAt? p d start with
  | some j =>
    if isElif (p.line j).text then chainFrom p d n j
    else if isElse (p.line j).text then .otherwise (p.body j) (p.body j).stop
    else .done (p.nextCodeLine start)
  | none => .done (p.nextCodeLine start)

variable {host : Host} (hb : RunsBlocks grammar p host fuel) {malformed : Nat → List Char → Block}

include hu hb

/-- The chain that is found at a row with a guard does what the branches of the tree do, if the
branches below do. -/
theorem chainFrom_run {g : Snippet} (hg : branchGuard? r.code = some g.text)
    {more : Branches grammar} {n : Nat}
    (hp : Placed p i ((d, r) :: (body.rows (d + 4) ++ more.rows d)) rest)
    (hr : EndsStatement .indented d rest) (hf : body.height ≤ fuel)
    (hbelow : ∀ scope, (chainBelow p d n (i + 1 + body.height)).run host
      (runBlock p (runLine host p) fuel) malformed scope = do
        pure (p.nextCodeLine (i + 1 + body.height + more.height),
          ← more.run host (i + 1 + body.height) scope)) (scope : Scope) :
    (chainFrom p d (n + 1) i).run host (runBlock p (runLine host p) fuel) malformed scope =
      (do pure (p.nextCodeLine (i + 1 + body.height + more.height),
        ← runBranch host i g.text (body.run host (i + 1)) (more.run host (i + 1 + body.height))
          scope)) := by
  have hl := leaves_branches (i := i + 1 + body.height) grammar_lawful hr more
  have hsize : more.height ≤ p.size := by
    have h := hp.below.le_size hp.below_le_size
    rw [more.length_rows] at h
    omega
  have hguard : branchGuard? (p.line i).text = some g.text := by
    rw [hp.line]
    exact hg
  rw [chainFrom, hguard]
  refine run_guarded ?_ (runBody_eq hu hp hl hb hf) ?_ scope
  · show skipBranches p d p.size (p.body i).stop = _
    rw [body_eq hu hp hl, skipBranches_congr d p.size (p.nextCodeLine_nextCodeLine _),
      skipBranches_rows hu more hp.below hr hsize]
  · rw [body_eq hu hp hl, codeLineAt?_congr d (p.nextCodeLine_nextCodeLine _)]
    exact hbelow

/-- The branches that are found below a body do what the branches of the tree do. -/
theorem chainBelow_run : ∀ (more : Branches grammar) {d i n : Nat},
    Placed p i (more.rows d) rest → EndsStatement .indented d rest → more.height ≤ fuel →
      more.height ≤ n → ∀ scope,
        (chainBelow p d n i).run host (runBlock p (runLine host p) fuel) malformed scope =
          (do pure (p.nextCodeLine (i + more.height), ← more.run host i scope))
  | .done, d, i, n, hp, hr, _, _, scope => by
    have hdone : chainBelow p d n i = .done (p.nextCodeLine i) := by
      rw [chainBelow]
      split
      · rename_i j hj
        obtain ⟨-, helif, helse⟩ := codeLineAt?_end (hp ▸ hr) hj
        simp only [helif, helse, Bool.false_eq_true, if_false]
      · rfl
    rw [hdone, Chain.run, Branches.run, pure_bind]
    rfl
  | .otherwise body, d, i, n, hp, hr, hf, _, scope => by
    rw [Branches.height] at hf ⊢
    rw [Branches.rows] at hp
    have hl := leaves_closing (i := i + 1 + body.height) grammar_lawful hr
    have helif : ¬ isElif (p.line i).text = true := by
      rw [hp.line]
      exact Bool.false_ne_true
    have helse : isElse (p.line i).text = true := by
      rw [hp.line]
      rfl
    have hbelow : chainBelow p d n i = .otherwise (p.body i) (p.body i).stop := by
      rw [chainBelow, codeLineAt?_row hp grammar_lawful.otherwise.1]
      exact (if_neg helif).trans (if_pos helse)
    rw [hbelow, Chain.run, runBody_eq hu hp hl hb (by omega), body_eq hu hp hl, Branches.run,
      Nat.add_assoc i]
    rfl
  | .elseIf g body more, d, i, n, hp, hr, hf, hn, scope => by
    rw [Branches.height] at hf hn ⊢
    rw [Branches.rows] at hp
    obtain ⟨n, rfl⟩ : ∃ k, n = k + 1 := ⟨n - 1, by omega⟩
    have helif : isElif (p.line i).text = true := by
      rw [hp.line]
      rfl
    have hbelow : chainBelow p d (n + 1) i = chainFrom p d (n + 1) i := by
      rw [chainBelow, codeLineAt?_row hp (grammar_lawful.elseIf g).1]
      exact if_pos helif
    have hend : i + (1 + body.height + more.height) = i + 1 + body.height + more.height := by omega
    rw [hbelow, Branches.run, hend]
    exact chainFrom_run hu hb (branchGuard?_elif g) hp hr (by omega)
      (chainBelow_run more hp.below hr (by omega) (by omega)) scope

end Below

end Chains

section Running

variable {p : Program} (hu : p.indentUnit = 4)

theorem functionAt?_eq_none {r : Row} (h : definition? r.code = none) (d i : Nat) :
    Stepwise.functionAt? .indented p (r.line d i) = none := by
  show (if r.code.isEmpty then none else (definition? r.code).map _) = none
  rw [h]
  exact ite_self _

theorem functionAt?_define (name : Name) (params : Parameters) (d i : Nat) :
    Stepwise.functionAt? .indented p ((Row.plain (Head.define name params).text).line d i) =
      some ⟨String.ofList name.text, (parameterTexts params.text).map parameterName, i, i + 1,
        (p.body i).stop, (p.body i).depth⟩ := by
  show (definition? (Head.define name params).text).map _ = _
  rw [definition?_def]
  rfl

include hu in
/-- The functions that are found in the lines are those of the tree. -/
theorem findsFunctions : FindsFunctions grammar p where
  simple s := functionAt?_eq_none s.notDefinition
  branch g := functionAt?_eq_none rfl
  elseIf g := functionAt?_eq_none rfl
  otherwise := functionAt?_eq_none rfl
  head {head body d i rest} hp hr := by
    rw [Stmt.rows] at hp
    refine ⟨p.nextCodeLine (i + 1 + body.height), p.le_nextCodeLine _,
      p.nextCodeLine_le hp.below_le_size, ?_⟩
    cases head with
    | whileLoop g => exact functionAt?_eq_none rfl d i
    | forLoop name items => exact functionAt?_eq_none rfl d i
    | define name params =>
      refine (functionAt?_define name params d i).trans ?_
      rw [body_eq hu hp (leaves_closing grammar_lawful hr)]
      rfl

section Steps

variable {host : Host} {i : Nat} (runBody : Extent → Block) (scope : Scope)

theorem runLine_simple (s : SimpleText) (h : (p.line i).text = s.text) :
    runLine host p runBody i scope = (do pure (i + 1, ← s.run host i scope)) := by
  have hshape := shape_simple s
  rw [← h] at hshape
  unfold runLine SimpleText.run
  rw [← h]
  cases hreturn : returnText? (p.line i).text with
  | some value =>
    rw [hreturn] at hshape
    simp only [hshape]
  | none =>
    rw [hreturn] at hshape
    simp only [hshape, bind_assoc, pure_bind]

theorem runLine_if (g : Snippet) (h : (p.line i).text = "if ".toList ++ g.text ++ [':']) :
    runLine host p runBody i scope =
      (chainAt p i).run host runBody (fun _ _ _ => throw .brokenBranch) scope := by
  have hshape := shape_if g
  rw [← h] at hshape
  unfold runLine
  simp only [hshape]

theorem runLine_head (head : Head) (h : (p.line i).text = head.text) :
    runLine host p runBody i scope =
      (do pure ((p.body i).stop, ← head.run host i (runBody (p.body i)) scope)) := by
  unfold runLine
  cases head with
  | whileLoop g =>
    have hshape := shape_while g
    rw [← h] at hshape
    simp only [hshape, Head.run, bind_assoc]
  | forLoop name items =>
    have hshape := shape_for name items
    rw [← h] at hshape
    simp only [hshape, Head.run, bind_assoc]
  | define name params =>
    have hshape := shape_define name params
    rw [← h] at hshape
    simp only [hshape, Head.run, bind_assoc, pure_bind]

end Steps

include hu in
/-- A line does what its statement does. -/
theorem runsLines (host : Host) (fuel : Nat) (hb : RunsBlocks grammar p host fuel) :
    RunsLines grammar p host fuel := by
  intro s d i rest hp hr hf scope
  cases s with
  | simple s =>
    rw [Stmt.rows] at hp
    have htext : (p.line i).text = (grammar.rowOfSimple s).code := by rw [hp.line, Row.line]
    exact .of_eq rfl (runLine_simple _ scope s htext)
  | branch g body more =>
    rw [Stmt.rows] at hp
    rw [Stmt.height] at hf ⊢
    have htext : (p.line i).text = (grammar.rowOfIf g).code := by rw [hp.line, Row.line]
    have hlen := hp.below.le_size hp.below_le_size
    rw [more.length_rows] at hlen
    have hend : i + (1 + body.height + more.height) = i + 1 + body.height + more.height := by omega
    obtain ⟨n, hn⟩ : ∃ n, p.size = n + 1 := ⟨p.size - 1, by omega⟩
    have hchain : chainAt p i = chainFrom p d (n + 1) i := by rw [chainAt, hp.line, hn, Row.line]
    rw [hend]
    refine .of_eq (p.nextCodeLine_nextCodeLine _) ((runLine_if _ scope g htext).trans ?_)
    rw [hchain, Stmt.run]
    exact chainFrom_run hu hb (branchGuard?_if g) hp hr (by omega)
      (chainBelow_run hu hb more hp.below hr (by omega) (by omega)) scope
  | compound head body =>
    rw [Stmt.rows] at hp
    rw [Stmt.height] at hf ⊢
    have htext : (p.line i).text = (grammar.rowOfHead head).code := by rw [hp.line, Row.line]
    have hl := leaves_closing (i := i + 1 + body.height) grammar_lawful hr
    have hnext : p.nextCodeLine (p.body i).stop =
        p.nextCodeLine (i + (1 + body.height + grammar.closing.length)) := by
      rw [body_eq hu hp hl, p.nextCodeLine_nextCodeLine, Nat.add_assoc i]
      rfl
    refine .of_eq hnext ?_
    rw [Stmt.run, ← runBody_eq hu hp hl hb (by omega)]
    exact runLine_head _ scope head htext

end Running

/-- The run of a written tree is the direct run of the tree: the same steps on the same lines, or
the same fault, and the same warnings. -/
theorem traceSteps_render_indented (limits : Limits) (t : Stmts grammar) :
    traceSteps .indented limits (render t) = (runTree limits t).traced := by
  obtain ⟨rest, hp, hrest, hu⟩ := layout_render t
  generalize hprogram : layout .indented (render t).toList = p at hp hu
  have hl : Leaves 0 rest := leaves_of_blank hrest
  have hhost := hostOf_eq grammar_lawful (findsFunctions hu) (runsLines hu) hp hl hrest limits
  have hdepth : (p.line (p.nextCodeLine 0)).depth = 0 := by
    refine Nat.le_zero.1 (Leaves.depth_le ?_)
    rw [hp]
    exact fun l hfirst => Nat.lt_succ_of_le (endsStatement_rows grammar_lawful hl t 0 l hfirst).1
  have hsize := hp.le_size (Nat.zero_le _)
  rw [t.length_rows] at hsize
  have hblock := runsBlocks grammar_lawful (runsLines hu (t.host limits)) p.size t hp hl
    (p.nextCodeLine_nextCodeLine 0) hsize (Nat.le_refl _) (by omega)
  have hrun : Stepwise.runProgram .indented limits p = runTree limits t := by
    rw [runProgram_eq, programBy, hdepth, runTree, ← hblock, ← hhost]
    rfl
  rw [Run.traced, ← hrun, ← hprogram]
  rfl

/-- The text of a tree with an empty body and a branch below it. -/
example :
    let guard : Snippet := ⟨"n > 2".toList, by decide, by decide, by decide, by decide⟩
    let reset : SimpleText :=
      ⟨⟨"n = 0".toList, by decide, by decide, by decide, by decide⟩, by decide, by decide,
        by decide, by decide, by decide, by decide⟩
    render (.cons (.compound (.whileLoop guard)
      (.cons (.branch guard .nil (.otherwise (.cons (.simple reset) .nil))) .nil))
        (.cons (.simple reset) .nil)) =
      "while n > 2:\n    if n > 2:\n    else:\n        n = 0\nn = 0" := by
  decide

end Stepwise.Indented
