import Stepwise.Proofs.Texts
import Stepwise.Proofs.TreeRuns

/-!
# Trees of the braced dialect

A tree of the braced dialect is written one statement a line. The brace that opens a body stands at
the end of its head, and the one that closes it on a line of its own, in front of the next branch if
there is one. The run of the written tree is the direct run of the tree
(`traceSteps_render_braced`): the blocks, branches and functions that are found by counting braces
are those of the tree. This needs guards without comment marks, since a comment goes on to the end
of the line and takes the opening brace with it (`not_traceSteps_render_parenthesized`).

What stands for a simple statement is left open (`Simples`): anything that takes one line, closes
the braces it opens and goes on below (`runProgram_render`). The trees above have the simple
statements of the dialect (`plain`).
-/

namespace Stepwise.Braced

open Text Source

/-- A trimmed text on one line that holds no comment and opens `balance` braces more than it
closes. -/
structure Legible (text : List Char) (balance : Int) : Prop where
  trimmed : trim text = text
  oneLine : '\n' ∉ text ∧ '\r' ∉ text
  uncommented : stripComment ['/', '/'] text = text
  noBlockComment : NoBlockComment text
  balance_eq : braceBalance text = balance

/-- A simple statement: its text has none of the shapes of a head and is no `else`. -/
structure SimpleText where
  text : List Char
  legible : Legible text 0
  nonempty : text ≠ []
  notClosing : text.head? ≠ some '\x7d'
  notDirective : text.head? ≠ some '#'
  notFunction : functionHeader? text = none
  notIf : isIf text = false
  notElse : isElse text = false
  notWhile : isWhile text = false
  notFor : isFor text = false

/-- A part of a head, in which every literal is closed. -/
structure Fragment where
  text : List Char
  legible : Legible text 0
  closed : text.foldl Quoting.next .code = .code

/-- What stands between the parentheses of a head. The second parenthesis closes the first one. -/
structure Guard extends Fragment where
  matched : matchParen? ('(' :: (text ++ [')'])) 0 = some (text.length + 1)

/-- The three clauses of a counting loop. -/
structure Clauses extends Guard where
  init : List Char
  test : List Char
  step : List Char
  clauses : splitSemicolons text = [init, test, step]

/-- The head of a function without its brace. -/
structure Signature extends Fragment where
  name : String
  params : List Char
  isHeader : functionHeader? (text ++ [' ', '\x7b']) = some ⟨name, params, some '\x7b'⟩

/-- A head with a guard, from its opening to its brace. -/
def headed (opening : String) (guard : List Char) : List Char :=
  opening.toList ++ (guard ++ [')', ' ', '\x7b'])

/-- What stands in front of a body other than that of a branch. -/
inductive Head
  | whileLoop (guard : Guard)
  | forLoop (clauses : Clauses)
  | define (signature : Signature)

/-- The text of a head, with the brace that opens the body. -/
def Head.text : Head → List Char
  | whileLoop guard => headed "while (" guard.text
  | forLoop clauses => headed "for (" clauses.text
  | define signature => signature.text ++ [' ', '\x7b']

/-- What a compound statement does on a line with a body. A definition does not run its body, and
that of `main` does not even leave a step. -/
def Head.run (host : Host) (line : Nat) : Head → Block → Block
  | whileLoop guard, body, scope => do
    host.record line .loopStart s!"While loop: {String.ofList guard.text}" scope
    Loop.run host line guard.text body scope
  | forLoop clauses, body, scope =>
    runFor host line
      ⟨clauses.text, clauses.init, clauses.test, clauses.step, ['\x7b']⟩ body scope
  | define signature, _, scope => do
    if signature.name ≠ "main" then
      host.record line .define s!"Define function {signature.name}" scope
    pure { scope }

/-- What of a text is code: nothing if it holds only braces and semicolons. -/
def codeOf (text : List Char) : List Char := if isPunctuation text then [] else text

/-- What a simple statement does on a line. Without code it does nothing. -/
def SimpleText.run (host : Host) (line : Nat) (s : SimpleText) : Block := fun scope =>
  if isPunctuation s.text then pure { scope } else statements host line s.text scope

/-- The trees of the braced dialect whose guards have these texts. -/
def grammarOf {Guards : Type} (text : Guards → List Char) : Grammar where
  dialect := .braced
  Simple := SimpleText
  Guard := Guards
  Head := Head
  step := 1
  rowOfSimple s := ⟨s.text, codeOf s.text⟩
  rowOfIf g := .plain (headed "if (" (text g))
  rowOfElseIf g := ⟨headed "\x7d else if (" (text g), headed "else if (" (text g)⟩
  rowOfElse := ⟨"\x7d else \x7b".toList, "else \x7b".toList⟩
  rowOfHead h := .plain h.text
  closing := [⟨['\x7d'], []⟩]
  textOfGuard := text
  runSimple host line s := s.run host line
  runHead host line h := h.run host line
  function?
    | .define signature =>
      some (signature.name, ((parameterTexts signature.params).filter fun t =>
        trim t != "void".toList).map parameterName)
    | _ => none

/-- The trees of the braced dialect. -/
def grammar : Grammar := grammarOf fun g : Guard => g.text

/-- A row of a tree with its margin. -/
def written (indent : Nat) : Nat × Row → List Char
  | (depth, row) => List.replicate (indent * depth) ' ' ++ row.raw

variable {G : Grammar}

/-- A tree as a source text whose bodies are indented by a number of columns. -/
def render (indent : Nat) (t : Stmts G) : String :=
  String.ofList (['\n'].intercalate ((t.rows 0).map (written indent)))

/-- The direct run of a tree: what stands outside functions, and then the body of `main` with the
same variables. -/
def runTree (limits : Limits) (t : Stmts G) : Run Unit := do
  let flow ← t.run (t.host limits) 0 Table.empty
  match lastDefinition? (t.functions 0) "main" with
  | some main => let _ ← flow.andThen (main.body.run (t.host limits) (main.line + 1))
  | none => pure ()

section Rows

/-- A part of a line that holds no comment, closes its literals and opens `balance` braces more than
it closes. -/
structure Passage (text : List Char) (balance : Int) : Prop where
  oneLine : '\n' ∉ text ∧ '\r' ∉ text
  uncommented : stripComment ['/', '/'] text = text
  noBlockComment : NoBlockComment text
  closed : text.foldl Quoting.next .code = .code
  balance_eq : braceBalance text = balance

theorem Fragment.passage (f : Fragment) : Passage f.text 0 :=
  ⟨f.legible.oneLine, f.legible.uncommented, f.legible.noBlockComment, f.closed,
    f.legible.balance_eq⟩

theorem Passage.of_plain {text : List Char} (h : ∀ c ∈ text, isPlain '/' c = true) :
    Passage text (braceBalance text) := by
  obtain ⟨hslash, hlines⟩ := not_mem_of_plain h
  exact ⟨hlines, stripCommentFrom_of_not_mem _ hslash, noBlockComment_of_not_mem hslash,
    foldl_plain h, rfl⟩

theorem Passage.legible {text : List Char} {balance : Int} (h : Passage text balance)
    (ht : trim text = text) : Legible text balance :=
  ⟨ht, h.oneLine, h.uncommented, h.noBlockComment, h.balance_eq⟩

/-- No comment begins where two passages meet. -/
theorem stripCommentFrom_append_apart {text : List Char} : ∀ {front : List Char} {q : Quoting},
    front.getLast? ≠ some '/' ∨ text.head? ≠ some '/' →
    stripCommentFrom ['/', '/'] q front = front →
      stripCommentFrom ['/', '/'] q (front ++ text) =
        front ++ stripCommentFrom ['/', '/'] (front.foldl Quoting.next q) text
  | [], _, _, _ => rfl
  | c :: front, q, h, hfront => by
    have hmarker : ['/', '/'].isPrefixOf (c :: (front ++ text)) =
        ['/', '/'].isPrefixOf (c :: front) := by
      cases front with
      | cons _ _ => rfl
      | nil =>
        cases text with
        | nil => rfl
        | cons d text =>
          by_cases hc : c = '/'
          · subst hc
            have hd : d ≠ '/' := by simpa using h
            simp [List.isPrefixOf, Ne.symm hd]
          · simp [List.isPrefixOf, Ne.symm hc]
    have hlast : front.getLast? ≠ some '/' ∨ text.head? ≠ some '/' := by
      cases front with
      | nil => exact .inl (by simp)
      | cons d front => rwa [List.getLast?_cons_cons] at h
    rw [stripCommentFrom] at hfront
    split_ifs at hfront with hc
    rw [List.cons_append, stripCommentFrom, hmarker, if_neg hc,
      stripCommentFrom_append_apart hlast (List.cons.inj hfront).2]
    rfl

/-- A comment mark could only arise where the two texts meet. -/
theorem Passage.append {front text : List Char} {x y : Int} (hfront : Passage front x)
    (htext : Passage text y)
    (h : front.getLast? ≠ some '/' ∨ text.head? ≠ some '/' ∧ text.head? ≠ some '*') :
    Passage (front ++ text) (x + y) where
  oneLine := by
    simp only [List.mem_append, not_or]
    exact ⟨⟨hfront.oneLine.1, htext.oneLine.1⟩, hfront.oneLine.2, htext.oneLine.2⟩
  uncommented := by
    have hrest : stripCommentFrom ['/', '/'] .code text = text := htext.uncommented
    rw [stripComment, stripCommentFrom_append_apart (h.imp_right And.left) hfront.uncommented,
      hfront.closed, hrest]
  noBlockComment := hfront.noBlockComment.append htext.noBlockComment (h.imp_right And.right)
  closed := by rw [List.foldl_append, hfront.closed, htext.closed]
  balance_eq := by
    have hx : braceBalanceFrom .code front = x := hfront.balance_eq
    have hy : braceBalanceFrom .code text = y := htext.balance_eq
    rw [braceBalance, braceBalanceFrom_append, hfront.closed, hx, hy]

/-- A passage between plain texts is one too. -/
theorem Passage.between {front text back : List Char} {x : Int} (h : Passage text x)
    (hfront : ∀ c ∈ front, isPlain '/' c = true) (hback : ∀ c ∈ back, isPlain '/' c = true)
    (hstar : back.head? ≠ some '*') :
    Passage (front ++ (text ++ back)) (braceBalance front + (x + braceBalance back)) := by
  have hslash : back.head? ≠ some '/' := fun hmem =>
    (not_mem_of_plain hback).1 (List.mem_of_head? hmem)
  have hlast : front.getLast? ≠ some '/' := fun hmem =>
    (not_mem_of_plain hfront).1 (List.mem_of_getLast? hmem)
  exact (Passage.of_plain hfront).append (h.append (.of_plain hback) (.inr ⟨hslash, hstar⟩))
    (.inl hlast)

/-- A fragment between plain texts can be read too. -/
theorem Fragment.between (f : Fragment) (front : List Char) {back : List Char}
    (hfront : ∀ c ∈ front, isPlain '/' c = true) (hback : ∀ c ∈ back, isPlain '/' c = true)
    (hstar : back.head? ≠ some '*')
    (htrim : trim (front ++ (f.text ++ back)) = front ++ (f.text ++ back)) :
    Legible (front ++ (f.text ++ back)) (braceBalance front + braceBalance back) := by
  have h := f.passage.between hfront hback hstar
  rw [Int.zero_add] at h
  exact h.legible htrim

/-- A head with a guard can be read, and opens a brace. -/
theorem legible_headed (g : Guard) {c : Char} (front : List Char) {balance : Int}
    (hc : isBlank c = false) (hplain : ∀ x ∈ c :: front, isPlain '/' x = true)
    (hb : braceBalance (c :: front) + 1 = balance) :
    Legible (c :: front ++ (g.text ++ [')', ' ', '\x7b'])) balance := by
  have htrim : trim (c :: front ++ (g.text ++ [')', ' ', '\x7b'])) =
      c :: front ++ (g.text ++ [')', ' ', '\x7b']) := by
    have happend : c :: front ++ (g.text ++ [')', ' ', '\x7b']) =
        c :: (front ++ g.text ++ [')', ' ']) ++ ['\x7b'] := by simp
    rw [happend]
    exact trim_cons_concat hc rfl
  rw [← hb]
  exact g.between (c :: front) hplain (List.all_eq_true.1 rfl) (by decide) htrim

/-- A signature starts with a word, so with none of the characters that lines are laid out by. -/
theorem Signature.exists_cons (s : Signature) : ∃ c rest, s.text = c :: rest ∧
    isBlank c = false ∧ c ≠ '#' ∧ c ≠ '\x7d' ∧ isPunctuation [c] = false := by
  have hnone : ∀ c ∈ [' ', '#', '\x7b', '\x7d', ';'], ∀ rest,
      functionHeader? (c :: rest) = none := by
    simp only [List.mem_cons, List.not_mem_nil, or_false]
    rintro c (rfl | rfl | rfl | rfl | rfl) rest <;> rfl
  have h := s.isHeader
  have hne : s.text ≠ [] := by
    intro hnil
    rw [hnil, List.nil_append, hnone ' ' (by decide)] at h
    cases h
  obtain ⟨c, rest, hs, hc⟩ := exists_cons_of_trim s.legible.trimmed hne
  have hmem : c ∉ [' ', '#', '\x7b', '\x7d', ';'] := by
    intro hmem
    rw [hs, List.cons_append, hnone c hmem] at h
    cases h
  simp only [List.mem_cons, List.not_mem_nil, or_false, not_or] at hmem
  exact ⟨c, rest, hs, hc, hmem.2.1, hmem.2.2.2.1, by simp [isPunctuation, hmem, hc]⟩

theorem legible_signature (s : Signature) : Legible (s.text ++ [' ', '\x7b']) 1 := by
  obtain ⟨c, rest, hs, hc, -⟩ := s.exists_cons
  have htrim : trim ([] ++ (s.text ++ [' ', '\x7b'])) = [] ++ (s.text ++ [' ', '\x7b']) := by
    have happend : c :: rest ++ [' ', '\x7b'] = c :: (rest ++ [' ']) ++ ['\x7b'] := by simp
    rw [List.nil_append, hs, happend]
    exact trim_cons_concat hc rfl
  exact s.between [] (by simp) (List.all_eq_true.1 rfl) (by decide) htrim

theorem codeOf_cons {c : Char} {rest : List Char} (h : isPunctuation [c] = false) :
    codeOf (c :: rest) = c :: rest := by
  rw [isPunctuation, List.all_cons, List.all_nil, Bool.and_true] at h
  rw [codeOf, isPunctuation, List.all_cons, h]
  rfl

/-- How a row is read: it closes some braces in front of its code, and `balance` more are open below
it than above it. -/
def Reads (r : Row) (closed : Nat) (balance : Int) : Prop :=
  ∀ number openBraces : Nat, bracedLine number openBraces r.raw =
    (r.line (openBraces - closed) number, (openBraces + balance).toNat)

/-- A text can be read of which a part closes braces in front of its code. -/
theorem reads_legible (closers : List Char) {rest : List Char} {c : Char} {balance : Int}
    (h : Legible (closers ++ c :: rest) balance)
    (hclosers : ∀ x ∈ closers, (isBlank x || x == '\x7d') = true) (hc : isBlank c = false)
    (hclosing : c ≠ '\x7d') (hdirective : c ≠ '#') :
    Reads ⟨closers ++ c :: rest, codeOf (c :: rest)⟩ (closers.count '\x7d') balance := by
  intro number openBraces
  have hneg : ¬ (isBlank c || c == '\x7d') = true := by simp [hc, hclosing]
  have htake : (closers ++ c :: rest).takeWhile (fun c => isBlank c || c == '\x7d') = closers := by
    rw [List.takeWhile_append_of_pos hclosers]
    rw [List.takeWhile_cons_of_neg (by exact hneg), List.append_nil]
  rw [bracedLine, h.uncommented, h.trimmed, h.balance_eq, htake, List.drop_left,
    trim_of_append h.trimmed hc]
  have hblank : (((c :: rest).head? == some '#') || isPunctuation (c :: rest)) =
      isPunctuation (c :: rest) := by simp [hdirective]
  rw [hblank, Row.line, codeOf]
  cases isPunctuation (c :: rest) <;> rfl

theorem legible_if (g : Guard) : Legible (headed "if (" g.text) 1 :=
  legible_headed g "f (".toList rfl (List.all_eq_true.1 rfl) rfl

theorem legible_elseIf (g : Guard) : Legible (headed "\x7d else if (" g.text) 0 :=
  legible_headed g " else if (".toList rfl (List.all_eq_true.1 rfl) rfl

theorem legible_else : Legible "\x7d else \x7b".toList 0 where
  trimmed := by decide
  oneLine := by decide
  uncommented := by decide
  noBlockComment := by decide
  balance_eq := by decide

theorem legible_closing : Legible ['\x7d'] (-1) where
  trimmed := by decide
  oneLine := by decide
  uncommented := by decide
  noBlockComment := by decide
  balance_eq := by decide

theorem legible_while (g : Guard) : Legible (headed "while (" g.text) 1 :=
  legible_headed g "hile (".toList rfl (List.all_eq_true.1 rfl) rfl

theorem legible_for (g : Guard) : Legible (headed "for (" g.text) 1 :=
  legible_headed g "or (".toList rfl (List.all_eq_true.1 rfl) rfl

theorem legible_head (h : Head) : Legible h.text 1 := by
  cases h with
  | whileLoop g => exact legible_while g
  | forLoop c => exact legible_for c.toGuard
  | define s => exact legible_signature s

theorem SimpleText.exists_cons (s : SimpleText) : ∃ c rest, s.text = c :: rest ∧
    isBlank c = false ∧ c ≠ '\x7d' ∧ c ≠ '#' := by
  obtain ⟨c, rest, hs, hc⟩ := exists_cons_of_trim s.legible.trimmed s.nonempty
  have h1 := s.notClosing
  have h2 := s.notDirective
  rw [hs, List.head?_cons, Ne, Option.some_inj] at h1 h2
  exact ⟨c, rest, hs, hc, h1, h2⟩

theorem reads_simple (s : SimpleText) : Reads (grammar.rowOfSimple s) 0 0 := by
  obtain ⟨c, rest, hs, hc, hclosing, hdirective⟩ := s.exists_cons
  have h : Legible ([] ++ c :: rest) 0 := hs ▸ s.legible
  have hrow : grammar.rowOfSimple s = ⟨c :: rest, codeOf (c :: rest)⟩ := by
    rw [← hs]
    rfl
  rw [hrow]
  exact reads_legible [] h (by simp) hc hclosing hdirective

theorem reads_if (g : Guard) : Reads (grammar.rowOfIf g) 0 1 :=
  reads_legible [] (legible_if g) (by simp) rfl (by decide) (by decide)

theorem reads_elseIf (g : Guard) : Reads (grammar.rowOfElseIf g) 1 0 :=
  reads_legible ['\x7d', ' '] (legible_elseIf g) (List.all_eq_true.1 rfl) rfl (by decide)
    (by decide)

theorem reads_else : Reads grammar.rowOfElse 1 0 :=
  reads_legible ['\x7d', ' '] legible_else (List.all_eq_true.1 rfl) rfl (by decide) (by decide)

theorem reads_closing : Reads ⟨['\x7d'], []⟩ 1 (-1) := fun _ _ => rfl

theorem reads_while (g : Guard) : Reads (.plain (headed "while (" g.text)) 0 1 :=
  reads_legible [] (legible_while g) (by simp) rfl (by decide) (by decide)

theorem reads_for (g : Guard) : Reads (.plain (headed "for (" g.text)) 0 1 :=
  reads_legible [] (legible_for g) (by simp) rfl (by decide) (by decide)

theorem reads_signature (s : Signature) : Reads (.plain (s.text ++ [' ', '\x7b'])) 0 1 := by
  obtain ⟨c, rest, hs, hc, hdirective, hclosing, hpunctuation⟩ := s.exists_cons
  have h : Legible ([] ++ c :: (rest ++ [' ', '\x7b'])) 1 := by
    have h := legible_signature s
    rwa [hs] at h
  have hrow := reads_legible [] h (by simp) hc hclosing hdirective
  rw [codeOf_cons hpunctuation] at hrow
  rw [hs]
  exact hrow

theorem reads_head (h : Head) : Reads (grammar.rowOfHead h) 0 1 := by
  cases h with
  | whileLoop g => exact reads_while g
  | forLoop c => exact reads_for c.toGuard
  | define s => exact reads_signature s

/-- Simple statements that stand on a line each: it is no `else` and no head of a function, and it
leaves as many braces open as it finds open. -/
structure Simples where
  Simple : Type
  row : Simple → Row
  run : Host → Nat → Simple → Block
  legible : ∀ s, Legible (row s).raw 0
  reads : ∀ s, Reads (row s) 0 0
  code : ∀ s, ((row s).code ≠ [] ∧ isElse (row s).code = false) ∨
    ((row s).code = [] ∧ ∀ host line scope, run host line s scope = pure { scope })
  notFunction : ∀ s, functionHeader? (row s).code = none
  runs : ∀ {p : Program} {d i : Nat} {rest : List Line} (host : Host) (block : Extent → Block)
    (s : Simple), Placed p i [(d, row s)] rest → EndsStatement .braced d rest → ∀ scope,
      GoesOn p (i + 1) (runLine host p block i scope) (run host i s scope)

/-- The trees of the braced dialect with these simple statements. -/
def grammarWith (S : Simples) : Grammar :=
  { grammar with Simple := S.Simple, rowOfSimple := S.row, runSimple := S.run }

variable {S : Simples}

/-- The rows of a tree can be read. -/
theorem allRows_legible :
    (grammarWith S).AllRows fun r => ∃ balance, Legible r.raw balance where
  simple s := ⟨0, S.legible s⟩
  branch g := ⟨1, legible_if g⟩
  elseIf g := ⟨0, legible_elseIf g⟩
  otherwise := ⟨0, legible_else⟩
  head h := ⟨1, legible_head h⟩
  closing r hr := ⟨-1, by
    rw [List.mem_singleton.1 hr]
    exact legible_closing⟩

end Rows

section Layout

/-- The margin of a line does not count. -/
theorem bracedLine_margin (number openBraces width : Nat) (raw : List Char) :
    bracedLine number openBraces (List.replicate width ' ' ++ raw) =
      bracedLine number openBraces raw := by
  have hplain : ∀ c ∈ List.replicate width ' ', isPlain '/' c = true := fun c hc => by
    rw [(List.mem_replicate.1 hc).2]
    rfl
  have hblank : ∀ c ∈ List.replicate width ' ', isBlank c = true := fun c hc => by
    rw [(List.mem_replicate.1 hc).2]
    rfl
  have hcode : trim (stripComment ['/', '/'] (List.replicate width ' ' ++ raw)) =
      trim (stripComment ['/', '/'] raw) := by
    rw [stripComment, stripCommentFrom_append_of_not_mem _ (not_mem_of_plain hplain).1,
      foldl_plain hplain, trim, trimLeft, List.dropWhile_append_of_pos hblank]
    rfl
  rw [bracedLine, hcode, bracedLine]

/-- The lines of rows are what the rows make of them if `before` braces are open, and `after` braces
are open below them. -/
def Lays (indent before : Nat) (rows : List (Nat × Row)) (after : Nat) : Prop :=
  ∀ (number : Nat) (more : List (List Char)),
    bracedLines number before (rows.map (written indent) ++ more) =
      linesFrom number rows ++ bracedLines (number + rows.length) after more

variable {S : Simples} {indent before mid after d : Nat} {rows rows' : List (Nat × Row)} {r : Row}

theorem Lays.append (h : Lays indent before rows mid) (h' : Lays indent mid rows' after) :
    Lays indent before (rows ++ rows') after := by
  intro number more
  rw [List.map_append, List.append_assoc, h, h', linesFrom_append, List.append_assoc,
    List.length_append, Nat.add_assoc]

theorem Reads.lays {closed : Nat} {balance : Int} (h : Reads r closed balance)
    (hd : before - closed = d) (hafter : (before + balance).toNat = after) :
    Lays indent before [(d, r)] after := by
  intro number more
  have hline : bracedLine number before (written indent (d, r)) = (r.line d number, after) := by
    rw [written, bracedLine_margin, h, hd, hafter]
  rw [List.map_singleton, List.singleton_append, bracedLines, hline]
  rfl

theorem lays_closing : Lays indent (d + 1) (grammar.closing.map (d, ·)) d :=
  reads_closing.lays rfl (by omega)

mutual

/-- A statement leaves as many braces open as it finds open. -/
theorem lays_stmt (indent : Nat) : ∀ (s : Stmt (grammarWith S)) (d : Nat),
    Lays indent d (s.rows d) d
  | .simple s, d => by
    rw [Stmt.rows]
    exact (S.reads s).lays rfl (by omega)
  | .branch g body more, d => by
    rw [Stmt.rows]
    exact ((reads_if g).lays rfl rfl).append
      ((lays_stmts indent body (d + 1)).append (lays_branches indent more d))
  | .compound h body, d => by
    rw [Stmt.rows]
    exact ((reads_head h).lays rfl rfl).append
      ((lays_stmts indent body (d + 1)).append lays_closing)

/-- The branches after the first one start in front of the brace that closes its body. -/
theorem lays_branches (indent : Nat) : ∀ (b : Branches (grammarWith S)) (d : Nat),
    Lays indent (d + 1) (b.rows d) d
  | .done, d => by
    rw [Branches.rows]
    exact lays_closing
  | .otherwise body, d => by
    rw [Branches.rows]
    exact (reads_else.lays rfl (by omega)).append
      ((lays_stmts indent body (d + 1)).append lays_closing)
  | .elseIf g body more, d => by
    rw [Branches.rows]
    exact ((reads_elseIf g).lays rfl (by omega)).append
      ((lays_stmts indent body (d + 1)).append (lays_branches indent more d))

theorem lays_stmts (indent : Nat) : ∀ (ss : Stmts (grammarWith S)) (d : Nat),
    Lays indent d (ss.rows d) d
  | .nil, _ => fun _ _ => rfl
  | .cons s ss, d => by
    rw [Stmts.rows]
    exact (lays_stmt indent s d).append (lays_stmts indent ss d)

end

/-- Rows that can be read are the lines of the text that they make. -/
theorem sourceLines_written (indent : Nat) {rows : List (Nat × Row)}
    (hlegible : ∀ x ∈ rows, ∃ balance, Legible x.2.raw balance) (h : rows ≠ []) :
    sourceLines (dropBlockComments false false (['\n'].intercalate (rows.map (written indent)))) =
      rows.map (written indent) := by
  have hmargin : ∀ width : Nat, ∀ c ∈ List.replicate width ' ', isPlain '/' c = true :=
    fun width c hc => by
      rw [(List.mem_replicate.1 hc).2]
      rfl
  have hline : ∀ l ∈ rows.map (written indent), NoBlockComment l ∧ '\n' ∉ l ∧ '\r' ∉ l := by
    intro l hl
    obtain ⟨⟨depth, row⟩, hx, rfl⟩ := List.mem_map.1 hl
    obtain ⟨_, hs⟩ := hlegible _ hx
    obtain ⟨hm, hmn, hmr⟩ := not_mem_of_plain (hmargin (indent * depth))
    rw [written, List.mem_append, List.mem_append, not_or, not_or]
    refine ⟨?_, ⟨hmn, hs.oneLine.1⟩, hmr, hs.oneLine.2⟩
    exact (noBlockComment_of_not_mem hm).append hs.noBlockComment
      (.inl fun hlast => hm (List.mem_of_getLast? hlast))
  rw [sourceLines, dropBlockComments_eq (noBlockComment_intercalate fun l hl => (hline l hl).1),
    normalizeNewlines_eq, splitOn_intercalate]
  · simpa using h
  · exact fun l hl => (hline l hl).2.1
  · exact not_mem_intercalate (by decide) fun l hl => (hline l hl).2.2

theorem sourceLines_render (indent : Nat) (t : Stmts (grammarWith S)) (h : t.rows 0 ≠ []) :
    sourceLines (dropBlockComments false false (render indent t).toList) =
      (t.rows 0).map (written indent) := by
  rw [render, String.toList_ofList]
  exact sourceLines_written indent (fun x hx => (t.mem_rows allRows_legible 0 hx).2) h

/-- A written tree is laid out in its rows, with no code below them. -/
theorem layout_render (indent : Nat) (t : Stmts (grammarWith S)) : ∃ rest : List Line,
    Placed (layout .braced (render indent t).toList) 0 (t.rows 0) rest ∧
      ∀ l ∈ rest, l.blank = true := by
  by_cases h : t.rows 0 = []
  · have hr : (render indent t).toList = [] := by rw [render, String.toList_ofList, h]; rfl
    rw [hr, h]
    exact ⟨[⟨[], 0, 0, true⟩], rfl, fun l hl => by rw [List.mem_singleton.1 hl]⟩
  · have hlines := lays_stmts indent t 0 0 []
    rw [List.append_nil, ← sourceLines_render indent t h] at hlines
    refine ⟨[], ?_, fun l hl => absurd hl List.not_mem_nil⟩
    rw [Placed, List.drop_zero]
    exact hlines

end Layout

section Heads

/-- The parentheses of a head are found, whatever follows them. -/
theorem header?_tail (g : Guard) {keyword : List Char} (h : '(' ∉ keyword) (tail : List Char) :
    header? (keyword ++ '(' :: (g.text ++ ')' :: tail)) = some (g.text, trim tail) := by
  have happend : keyword ++ '(' :: (g.text ++ ')' :: tail) =
      (keyword ++ '(' :: (g.text ++ [')'])) ++ tail := by simp
  have hclose : matchParen? (keyword ++ '(' :: (g.text ++ ')' :: tail)) keyword.length =
      some (g.text.length + 1 + keyword.length) := by
    have happend : '(' :: (g.text ++ ')' :: tail) = '(' :: (g.text ++ [')']) ++ tail := by simp
    rw [happend]
    exact matchParen?_append g.matched keyword tail
  have hfront : (keyword ++ '(' :: (g.text ++ ')' :: tail)).take
      (g.text.length + 1 + keyword.length) = keyword ++ '(' :: g.text := by
    rw [← List.cons_append, ← List.append_assoc]
    exact List.take_left' (by simp; omega)
  have hback : (keyword ++ '(' :: (g.text ++ ')' :: tail)).drop
      (g.text.length + 1 + keyword.length + 1) = tail := by
    rw [happend]
    exact List.drop_left' (by simp; omega)
  have hinside : (keyword ++ '(' :: g.text).drop (keyword.length + 1) = g.text := by
    rw [← List.drop_drop, List.drop_left]
    rfl
  rw [header?, indexOf?_singleton h, Option.bind_eq_bind, Option.bind_some, hclose,
    Option.bind_some, hfront, hback, hinside, g.legible.trimmed]
  rfl

theorem header?_guard (g : Guard) (keyword : List Char) (h : '(' ∉ keyword) :
    header? (keyword ++ '(' :: (g.text ++ [')', ' ', '\x7b'])) = some (g.text, ['\x7b']) :=
  header?_tail g h [' ', '\x7b']

theorem header?_if (g : Guard) : header? (headed "if (" g.text) = some (g.text, ['\x7b']) :=
  header?_guard g ['i', 'f', ' '] (by decide)

theorem header?_elseIf (g : Guard) :
    header? (headed "else if (" g.text) = some (g.text, ['\x7b']) :=
  header?_guard g "else if ".toList (by decide)

theorem header?_while (g : Guard) : header? (headed "while (" g.text) = some (g.text, ['\x7b']) :=
  header?_guard g "while ".toList (by decide)

theorem header?_for (g : Guard) : header? (headed "for (" g.text) = some (g.text, ['\x7b']) :=
  header?_guard g "for ".toList (by decide)

theorem read_of_header? {text guard : List Char} (h : header? text = some (guard, ['\x7b'])) :
    BranchLine.read text = .last guard ['\x7b'] := by
  rw [BranchLine.read, BranchLine.readWith, h]
  rfl

theorem afterElse_if (g : Guard) :
    afterElse (headed "else if (" g.text) = headed "if (" g.text := by
  have hdrop : (headed "else if (" g.text).drop 4 = ' ' :: headed "if (" g.text := rfl
  rw [afterElse, hdrop, trim_cons_blank rfl, (legible_if g).trimmed]

theorem codeOf_simple (s : SimpleText) : codeOf s.text = [] ∨ codeOf s.text = s.text := by
  rw [codeOf]
  split
  · exact .inl rfl
  · exact .inr rfl

theorem shape_simple (s : SimpleText) : shape (codeOf s.text) = .statements := by
  rcases codeOf_simple s with h | h
  · rw [h]
    rfl
  · rw [h, shape, s.notFunction, s.notIf, s.notElse, s.notWhile, s.notFor]
    rfl

theorem shape_if (g : Guard) : shape (headed "if (" g.text) = .branch := by
  have hf : functionHeader? (headed "if (" g.text) = none := rfl
  have hi : isIf (headed "if (" g.text) = true := rfl
  rw [shape, hf, hi]
  rfl

theorem shape_while (g : Guard) :
    shape (headed "while (" g.text) = .whileLoop g.text ['\x7b'] := by
  have hf : functionHeader? (headed "while (" g.text) = none := rfl
  have hi : isIf (headed "while (" g.text) = false := rfl
  have he : isElse (headed "while (" g.text) = false := rfl
  have hw : isWhile (headed "while (" g.text) = true := rfl
  rw [shape, hf, hi, he, hw, header?_while]
  rfl

theorem shape_for (c : Clauses) :
    shape (headed "for (" c.text) = .forLoop ⟨c.text, c.init, c.test, c.step, ['\x7b']⟩ := by
  have hf : functionHeader? (headed "for (" c.text) = none := rfl
  have hi : isIf (headed "for (" c.text) = false := rfl
  have he : isElse (headed "for (" c.text) = false := rfl
  have hw : isWhile (headed "for (" c.text) = false := rfl
  have ho : isFor (headed "for (" c.text) = true := rfl
  have hh : forHeader? (headed "for (" c.text) =
      some ⟨c.text, c.init, c.test, c.step, ['\x7b']⟩ := by
    rw [forHeader?, header?_for c.toGuard, Option.bind_eq_bind, Option.bind_some]
    dsimp only
    rw [c.clauses]
    rfl
  rw [shape, hf, hi, he, hw, ho, hh]
  rfl

theorem shape_define (s : Signature) :
    shape (s.text ++ [' ', '\x7b']) = .function ⟨s.name, s.params, some '\x7b'⟩ := by
  rw [shape, s.isHeader]

theorem head_ne_nil (h : Head) : h.text ≠ [] := by
  cases h with
  | whileLoop g => exact List.cons_ne_nil _ _
  | forLoop c => exact List.cons_ne_nil _ _
  | define s => exact List.append_ne_nil_of_right_ne_nil _ (List.cons_ne_nil _ _)

theorem Signature.notElse (s : Signature) : isElse (s.text ++ [' ', '\x7b']) = false := by
  have hnone : ∀ rest, functionHeader? ("else".toList ++ rest) = none := fun _ => rfl
  have h := s.isHeader
  rw [← Bool.not_eq_true]
  intro helse
  have hword : "else".toList <+: s.text ++ [' ', '\x7b'] := by
    rw [← List.isPrefixOf_iff_prefix]
    by_contra hp
    rw [isElse, dropKeyword?, dropWord?, if_neg hp] at helse
    cases helse
  obtain ⟨rest, hrest⟩ := hword
  rw [← hrest, hnone] at h
  cases h

theorem grammar_lawful (S : Simples) : (grammarWith S).Lawful where
  step_pos := Nat.one_pos
  simple := S.code
  branch g := ⟨List.cons_ne_nil _ _, rfl⟩
  head h := by
    refine ⟨head_ne_nil h, ?_⟩
    cases h with
    | whileLoop _ => rfl
    | forLoop _ => rfl
    | define s => exact s.notElse
  elseIf g := ⟨List.cons_ne_nil _ _, rfl⟩
  otherwise := ⟨List.cons_ne_nil _ _, rfl⟩
  closing r hr := by rw [List.mem_singleton.1 hr]

end Heads

section Bodies

variable {S : Simples} {p : Program} {d i : Nat} {r : Row} {body : Stmts (grammarWith S)}
  {more : List (Nat × Row)} {rest : List Line}
  (hp : Placed p i ((d, r) :: (body.rows (d + 1) ++ more)) rest)
  (hl : Leaves (d + 1) (linesFrom (i + 1 + body.height) more ++ rest))

include hp hl

/-- The body that is found below a brace is that of the tree. -/
theorem bodyWith_eq (e : Nat → List Char → Nat) : bodyWith p e i ['\x7b'] =
    .lines ⟨i + 1, p.nextCodeLine (i + 1 + body.height), d + 1⟩ := by
  have hbody : bodyWith p e i ['\x7b'] =
      .lines ⟨i + 1, p.blockEnd (i + 1) ((p.line i).depth + 1), (p.line i).depth + 1⟩ := rfl
  have hdepth : (p.line i).depth = d := by rw [hp.line, Row.line]
  rw [hbody, hdepth, hp.blockEnd_body hl]

/-- A body that is found below a brace does what the body of the tree does. -/
theorem runBody_eq {host : Host} {fuel : Nat} (hb : RunsBlocks (grammarWith S) p host fuel)
    (hf : body.height ≤ fuel) :
    runBody host (runBlock p (runLine host p) fuel) (bodyAt p i ['\x7b']) =
      body.run host (i + 1) := by
  rw [bodyAt, bodyWith_eq hp hl]
  exact hb.runBody hp hl hf

end Bodies

section Chains

variable {S : Simples} {p : Program} {d i : Nat} {rest : List Line}

/-- A line with only a closing brace is passed over. -/
theorem nextCodeLine_closing (hp : Placed p i ((grammarWith S).closing.map (d, ·)) rest) :
    p.nextCodeLine i = p.nextCodeLine (i + 1) :=
  p.nextCodeLine_of_blank hp rfl

/-- The line below a body and its closing brace. -/
theorem nextCodeLine_below {body : Stmts (grammarWith S)}
    (hp : Placed p (i + 1 + body.height) ((grammarWith S).closing.map (d, ·)) rest) :
    p.nextCodeLine (i + 1 + body.height) =
      p.nextCodeLine (i + (1 + body.height + (grammarWith S).closing.length)) := by
  rw [nextCodeLine_closing hp, ← Nat.add_assoc, ← Nat.add_assoc]
  rfl

theorem skipElse_congr {a b : Nat} (d : Nat) (h : p.nextCodeLine a = p.nextCodeLine b) :
    skipElse p d a = skipElse p d b := by
  rw [skipElse, skipElse, skipElseWith, skipElseWith, h]

/-- No branch follows where a statement ends. -/
theorem notElse_end (h : EndsStatement .braced d (p.lines.drop i)) :
    (p.nextCodeLine i < p.size && (p.line (p.nextCodeLine i)).depth == d
      && isElse (p.line (p.nextCodeLine i)).text) = false := by
  rw [← Bool.not_eq_true]
  intro hc
  simp only [Bool.and_eq_true, decide_eq_true_eq, beq_iff_eq] at hc
  have hne : isElse (p.line (p.nextCodeLine i)).text = false := (h _ (p.find?_code hc.1.1)).2 hc.1.2
  rw [hne] at hc
  cases hc.2

/-- A row that goes on with a chain is found there. -/
theorem isElse_row {r : Row} {rows : List (Nat × Row)} (hp : Placed p i ((d, r) :: rows) rest)
    (hr : r.code ≠ [] ∧ continuesChain .braced r.code = true) :
    (p.nextCodeLine i < p.size && (p.line (p.nextCodeLine i)).depth == d
      && isElse (p.line (p.nextCodeLine i)).text) = true := by
  have helse : isElse r.code = true := hr.2
  rw [hp.nextCodeLine hr.1, hp.line, Row.line]
  simp only [Bool.and_eq_true, decide_eq_true_eq, beq_iff_eq, helse, and_true]
  exact hp.lt_size

theorem skipElse_end (h : EndsStatement .braced d (p.lines.drop i)) :
    skipElse p d i = p.nextCodeLine i := by
  rw [skipElse, skipElseWith, notElse_end h]
  rfl

theorem skipElse_row {r : Row} {rows : List (Nat × Row)} (hp : Placed p i ((d, r) :: rows) rest)
    (hr : r.code ≠ [] ∧ continuesChain .braced r.code = true) : skipElse p d i =
      if isIf (afterElse r.code) then endOf p i (afterElse r.code)
      else p.nextCodeLine (bodyAt p i (afterElse r.code)).resume := by
  have htext : (p.line i).text = r.code := by rw [hp.line, Row.line]
  rw [skipElse, skipElseWith, isElse_row hp hr, if_pos rfl, hp.nextCodeLine hr.1, htext]
  rfl

/-- The end of an `if` is found by skipping the branches below its body. -/
theorem endOf_if (g : Guard) {r : Row} {body : Stmts (grammarWith S)} {more : List (Nat × Row)}
    (hp : Placed p i ((d, r) :: (body.rows (d + 1) ++ more)) rest)
    (hl : Leaves (d + 1) (linesFrom (i + 1 + body.height) more ++ rest)) :
    endOf p i (headed "if (" g.text) = skipElse p d (i + 1 + body.height) := by
  have hif : isIf (headed "if (" g.text) = true := rfl
  have hdepth : (p.line i).depth = d := by rw [hp.line, Row.line]
  rw [endOf_fixed p hp.lt_size, endStep, hif, if_pos rfl, read_of_header? (header?_if g),
    branchEndWith, bodyWith_eq hp hl, hdepth]
  exact skipElse_congr d (p.nextCodeLine_nextCodeLine _)

/-- The branches that are skipped are those of the tree. -/
theorem skipElse_rows : ∀ (more : Branches (grammarWith S)) {d i : Nat},
    Placed p i (more.rows d) rest → EndsStatement .braced d rest →
      skipElse p d i = p.nextCodeLine (i + more.height)
  | .done, d, i, hp, hr => by
    rw [Branches.rows] at hp
    rw [Branches.height, skipElse_congr d (nextCodeLine_closing hp), skipElse_end (hp.tail ▸ hr)]
    rfl
  | .otherwise body, d, i, hp, hr => by
    rw [Branches.rows] at hp
    have hl := leaves_closing (i := i + 1 + body.height) (grammar_lawful S) hr
    have htail : afterElse (grammarWith S).rowOfElse.code = ['\x7b'] := rfl
    have hif : ¬ isIf ['\x7b'] = true := by decide
    rw [skipElse_row hp (grammar_lawful S).otherwise, htail, if_neg hif, bodyAt, bodyWith_eq hp hl,
      Branches.height, ← nextCodeLine_below hp.below]
    exact p.nextCodeLine_nextCodeLine _
  | .elseIf g body more, d, i, hp, hr => by
    rw [Branches.rows] at hp
    have hl := leaves_branches (i := i + 1 + body.height) (grammar_lawful S) hr more
    have htail : afterElse ((grammarWith S).rowOfElseIf g).code =
        headed "if (" ((grammarWith S).textOfGuard g) := afterElse_if g
    have hif : isIf (headed "if (" ((grammarWith S).textOfGuard g)) = true := rfl
    have hend : i + (1 + body.height + more.height) = i + 1 + body.height + more.height := by omega
    rw [skipElse_row hp ((grammar_lawful S).elseIf g), htail, if_pos hif, Branches.height, hend]
    exact (endOf_if g hp hl).trans (skipElse_rows more hp.below hr)

/-- The branches that are found from an index on. -/
def chainBelow (p : Program) (d start : Nat) : Chain Body :=
  let next := p.nextCodeLine start
  let text := (p.line next).text
  if next < p.size && (p.line next).depth == d && isElse text then
    if isElseIf text then chainFrom p d p.size next
    else
      let last := bodyAt p next (afterElse text)
      .otherwise last last.resume
  else .done start

section Below

variable {host : Host} {fuel : Nat} (hb : RunsBlocks (grammarWith S) p host fuel)
  {malformed : Nat → List Char → Block}

include hb

/-- The chain that is found at a row with a guard does what the branches of the tree do, if the
branches below do. -/
theorem chainFrom_run {g : Guard} {r : Row} {body : Stmts (grammarWith S)}
    {more : Branches (grammarWith S)} (hg : header? r.code = some (g.text, ['\x7b']))
    (hp : Placed p i ((d, r) :: (body.rows (d + 1) ++ more.rows d)) rest)
    (hr : EndsStatement .braced d rest) (hf : body.height ≤ fuel)
    (hbelow : ∀ scope, (chainBelow p d (p.nextCodeLine (i + 1 + body.height))).run host
      (runBody host (runBlock p (runLine host p) fuel)) malformed scope = do
        pure (p.nextCodeLine (i + 1 + body.height + more.height),
          ← more.run host (i + 1 + body.height) scope)) (scope : Scope) :
    (chainFrom p d p.size i).run host (runBody host (runBlock p (runLine host p) fuel)) malformed
      scope = (do pure (p.nextCodeLine (i + 1 + body.height + more.height),
        ← runBranch host i g.text (body.run host (i + 1)) (more.run host (i + 1 + body.height))
          scope)) := by
  have hl := leaves_branches (i := i + 1 + body.height) (grammar_lawful S) hr more
  have hread : BranchLine.read (p.line i).text = .last g.text ['\x7b'] := by
    rw [hp.line]
    exact read_of_header? hg
  rw [chainFrom_fixed p d hp.lt_size, chainStep, hread, chainWith]
  refine run_guarded ?_ (runBody_eq hp hl hb hf) ?_ scope
  · show skipElse p d (bodyAt p i ['\x7b']).resume = _
    rw [bodyAt, bodyWith_eq hp hl]
    exact (skipElse_congr d (p.nextCodeLine_nextCodeLine _)).trans (skipElse_rows more hp.below hr)
  · rw [bodyAt, bodyWith_eq hp hl]
    exact hbelow

/-- The branches that are found below a body do what the branches of the tree do. -/
theorem chainBelow_run : ∀ (more : Branches (grammarWith S)) {d i : Nat},
    Placed p i (more.rows d) rest → EndsStatement .braced d rest → more.height ≤ fuel → ∀ scope,
      (chainBelow p d (p.nextCodeLine i)).run host (runBody host (runBlock p (runLine host p) fuel))
        malformed scope = (do pure (p.nextCodeLine (i + more.height), ← more.run host i scope))
  | .done, d, i, hp, hr, _, scope => by
    rw [Branches.rows] at hp
    have hrest : EndsStatement .braced d (p.lines.drop (i + 1)) := hp.tail ▸ hr
    have hend := notElse_end hrest
    rw [← nextCodeLine_closing hp] at hend
    have hdone : chainBelow p d (p.nextCodeLine i) = .done (p.nextCodeLine i) := by
      rw [chainBelow, p.nextCodeLine_nextCodeLine]
      dsimp only
      rw [hend]
      rfl
    rw [hdone, Chain.run, Branches.run, pure_bind, Branches.height, nextCodeLine_closing hp]
    rfl
  | .otherwise body, d, i, hp, hr, hf, scope => by
    rw [Branches.height] at hf ⊢
    rw [Branches.rows] at hp
    have hl := leaves_closing (i := i + 1 + body.height) (grammar_lawful S) hr
    have hcode := (grammar_lawful S).otherwise.1
    have htext : (p.line i).text = (grammarWith S).rowOfElse.code := by rw [hp.line, Row.line]
    have hbelow : chainBelow p d (p.nextCodeLine i) =
        .otherwise (bodyAt p i ['\x7b']) (bodyAt p i ['\x7b']).resume := by
      rw [chainBelow, p.nextCodeLine_nextCodeLine]
      dsimp only
      rw [isElse_row hp (grammar_lawful S).otherwise, if_pos rfl, hp.nextCodeLine hcode, htext]
      exact if_neg Bool.false_ne_true
    rw [hbelow, Chain.run, runBody_eq hp hl hb (by omega), bodyAt, bodyWith_eq hp hl, Branches.run,
      ← nextCodeLine_below hp.below]
    rfl
  | .elseIf g body more, d, i, hp, hr, hf, scope => by
    rw [Branches.height] at hf ⊢
    rw [Branches.rows] at hp
    have hcode := (grammar_lawful S).elseIf g
    have htext : (p.line i).text = ((grammarWith S).rowOfElseIf g).code := by rw [hp.line, Row.line]
    have hbelow : chainBelow p d (p.nextCodeLine i) = chainFrom p d p.size i := by
      rw [chainBelow, p.nextCodeLine_nextCodeLine]
      dsimp only
      rw [isElse_row hp hcode, if_pos rfl, hp.nextCodeLine hcode.1, htext]
      exact if_pos rfl
    have hend : i + (1 + body.height + more.height) = i + 1 + body.height + more.height := by omega
    rw [hbelow, Branches.run, hend]
    exact chainFrom_run hb (header?_elseIf g) hp hr (by omega)
      (chainBelow_run more hp.below hr (by omega)) scope

end Below

end Chains

section Running

variable {S : Simples} {p : Program}

theorem functionAt?_eq_none {r : Row} (h : functionHeader? r.code = none) (d i : Nat) :
    Stepwise.functionAt? .braced p (r.line d i) = none := by
  unfold Stepwise.functionAt? Braced.functionAt? Row.line
  dsimp only
  rw [h]
  exact ite_self _

theorem functionAt?_define (s : Signature) (d i : Nat) :
    Stepwise.functionAt? .braced p ((Row.plain (s.text ++ [' ', '\x7b'])).line d i) =
      some ⟨s.name, ((parameterTexts s.params).filter fun t => trim t != "void".toList).map
        parameterName, i, i + 1, p.blockEnd (i + 1) (d + 1), d + 1⟩ := by
  have hne : ¬ (s.text ++ [' ', '\x7b']).isEmpty = true := by simp
  unfold Stepwise.functionAt? Braced.functionAt? Row.line Row.plain
  dsimp only
  rw [if_neg hne, s.isHeader]
  rfl

/-- The functions that are found in the lines are those of the tree. -/
theorem findsFunctions : FindsFunctions (grammarWith S) p where
  simple s := functionAt?_eq_none (S.notFunction s)
  branch g := functionAt?_eq_none rfl
  elseIf g := functionAt?_eq_none rfl
  otherwise := functionAt?_eq_none rfl
  head {head body d i rest} hp hr := by
    rw [Stmt.rows] at hp
    refine ⟨p.nextCodeLine (i + 1 + body.height), p.le_nextCodeLine _,
      p.nextCodeLine_le hp.below_le_size, ?_⟩
    cases head with
    | whileLoop g => exact functionAt?_eq_none rfl d i
    | forLoop c => exact functionAt?_eq_none rfl d i
    | define s =>
      have hstop : p.blockEnd (i + 1) (d + 1) = p.nextCodeLine (i + 1 + body.height) :=
        hp.blockEnd_body (leaves_closing (grammar_lawful S) hr)
      refine (functionAt?_define s d i).trans ?_
      rw [hstop]
      rfl

section Steps

variable {host : Host} {i : Nat} (runBlock : Extent → Block) (scope : Scope)

theorem runLine_if (g : Guard) (h : (p.line i).text = headed "if (" g.text) :
    runLine host p runBlock i scope =
      (chainAt p i).run host (runBody host runBlock) (statements host) scope := by
  have hshape := shape_if g
  rw [← h] at hshape
  unfold runLine
  simp only [hshape]

/-- A line with a head runs the body below it, and the program goes on behind the body. -/
theorem runLine_head (head : Head) (h : (p.line i).text = head.text) :
    runLine host p runBlock i scope = (do pure ((bodyAt p i ['\x7b']).resume,
      ← head.run host i (runBody host runBlock (bodyAt p i ['\x7b'])) scope)) := by
  unfold runLine
  cases head with
  | whileLoop g =>
    have hshape := shape_while g
    rw [show headed "while (" g.text = (p.line i).text from h.symm] at hshape
    simp only [hshape, Head.run, bind_assoc]
  | forLoop c =>
    have hshape := shape_for c
    rw [show headed "for (" c.text = (p.line i).text from h.symm] at hshape
    simp only [hshape, Head.run]
  | define s =>
    have hshape := shape_define s
    rw [show s.text ++ [' ', '\x7b'] = (p.line i).text from h.symm] at hshape
    have hopen : ¬ (some '\x7b' = some ';') := by decide
    simp only [hshape, Head.run, define, if_neg hopen]
    by_cases hmain : s.name ≠ "main"
    · simp only [if_pos hmain, bind_assoc, pure_bind]
      rfl
    · simp only [if_neg hmain, pure_bind]
      rfl

end Steps

/-- A line does what its statement does. -/
theorem runsLines (host : Host) (fuel : Nat) (hb : RunsBlocks (grammarWith S) p host fuel) :
    RunsLines (grammarWith S) p host fuel := by
  intro s d i rest hp hr hf scope
  cases s with
  | simple s =>
    rw [Stmt.rows] at hp
    exact S.runs host _ s hp hr scope
  | branch g body more =>
    rw [Stmt.rows] at hp
    rw [Stmt.height] at hf ⊢
    have htext : (p.line i).text = ((grammarWith S).rowOfIf g).code := by rw [hp.line, Row.line]
    have hend : i + (1 + body.height + more.height) = i + 1 + body.height + more.height := by omega
    have hchain : chainAt p i = chainFrom p d p.size i := by rw [chainAt, hp.line, Row.line]
    rw [hend]
    refine .of_eq (p.nextCodeLine_nextCodeLine _) ((runLine_if _ scope g htext).trans ?_)
    rw [hchain, Stmt.run]
    exact chainFrom_run hb (header?_if g) hp hr (by omega)
      (chainBelow_run hb more hp.below hr (by omega)) scope
  | compound head body =>
    rw [Stmt.rows] at hp
    rw [Stmt.height] at hf ⊢
    have htext : (p.line i).text = ((grammarWith S).rowOfHead head).code := by
      rw [hp.line, Row.line]
    have hl := leaves_closing (i := i + 1 + body.height) (grammar_lawful S) hr
    have hnext : p.nextCodeLine (bodyAt p i ['\x7b']).resume =
        p.nextCodeLine (i + (1 + body.height + (grammarWith S).closing.length)) := by
      rw [bodyAt, bodyWith_eq hp hl, ← nextCodeLine_below hp.below]
      exact p.nextCodeLine_nextCodeLine _
    refine .of_eq hnext ?_
    rw [Stmt.run, ← runBody_eq hp hl hb (by omega)]
    exact runLine_head _ scope head htext

end Running

/-- Whatever the simple statements are, the program of a written tree runs as the tree does. -/
theorem runProgram_render (S : Simples) (limits : Limits) (indent : Nat)
    (t : Stmts (grammarWith S)) :
    Stepwise.runProgram .braced limits (layout .braced (render indent t).toList) =
      runTree limits t := by
  obtain ⟨rest, hp, hrest⟩ := layout_render indent t
  generalize hprogram : layout .braced (render indent t).toList = p at hp
  have hl : Leaves 0 rest := leaves_of_blank hrest
  have hhost : hostOf .braced (semanticsOf .braced) p limits = t.host limits :=
    hostOf_eq (grammar_lawful S) findsFunctions runsLines hp hl hrest limits
  have hsize := hp.le_size (Nat.zero_le _)
  rw [t.length_rows] at hsize
  have hblock : runBlock p (semanticsOf .braced (t.host limits) p) p.size ⟨0, p.size, 0⟩ =
      t.run (t.host limits) 0 :=
    runsBlocks (grammar_lawful S) (runsLines (t.host limits)) p.size t hp hl rfl hsize
      (Nat.le_refl _) (by omega)
  have hmain : Option.Rel (Matches p) (lastDefinition? (t.functions 0) "main")
      ((functionTable .braced p).get? "main") :=
    function_match (grammar_lawful S) findsFunctions hp hl hrest "main"
  rw [runProgram_eq, programBy, hhost, hblock, runTree]
  refine bind_congr fun flow => ?_
  generalize lastDefinition? (t.functions 0) "main" = found at hmain ⊢
  generalize (functionTable .braced p).get? "main" = found' at hmain ⊢
  cases hmain with
  | none => rfl
  | @some f f' h =>
    have hbody : runBlock p (semanticsOf .braced (t.host limits) p) p.size f'.body =
        f.body.run (t.host limits) (f.line + 1) :=
      h.runBody (grammar_lawful S) runsLines (t.host limits)
    dsimp only
    rw [hbody]

section Plain

theorem runLine_simple {p : Program} {host : Host} {i : Nat} (block : Extent → Block)
    (scope : Scope) (s : SimpleText) (h : (p.line i).text = codeOf s.text) :
    runLine host p block i scope = (do pure (i + 1, ← s.run host i scope)) := by
  have hshape := shape_simple s
  rw [← h] at hshape
  unfold runLine SimpleText.run
  simp only [hshape]
  rw [h, codeOf]
  split
  · rfl
  · rfl

/-- Simple statements that are nothing but their text. -/
def plain : Simples where
  Simple := SimpleText
  row := grammar.rowOfSimple
  run := grammar.runSimple
  legible s := s.legible
  reads := reads_simple
  code s := by
    rcases codeOf_simple s with h | h
    · refine .inr ⟨h, fun host line scope => if_pos ?_⟩
      by_contra hp
      rw [codeOf, if_neg hp] at h
      exact s.nonempty h
    · refine .inl ⟨?_, ?_⟩
      · show codeOf s.text ≠ []
        rw [h]
        exact s.nonempty
      · show isElse (codeOf s.text) = false
        rw [h]
        exact s.notElse
  notFunction s := by
    show functionHeader? (codeOf s.text) = none
    rcases codeOf_simple s with h | h
    · rw [h]
      rfl
    · rw [h, s.notFunction]
  runs {p d i rest} host block s hp _ scope := by
    have htext : (p.line i).text = (grammar.rowOfSimple s).code := by rw [hp.line, Row.line]
    exact .of_eq rfl (runLine_simple block scope s htext)

end Plain

/-- The run of a written tree is the direct run of the tree: the same steps on the same lines, or
the same fault, and the same warnings. -/
theorem traceSteps_render_braced (limits : Limits) (indent : Nat) (t : Stmts grammar) :
    traceSteps .braced limits (render indent t) = (runTree limits t).traced := by
  have hrun : Stepwise.runProgram .braced limits (layout .braced (render indent t).toList) =
      runTree limits t := runProgram_render plain limits indent t
  rw [Run.traced, ← hrun]
  rfl

/-- The text of a tree with an empty body and a branch below it. -/
example :
    let guard : Guard :=
      ⟨⟨"n > 2".toList, ⟨by decide, by decide, by decide, by decide, by decide⟩, by decide⟩,
        by decide⟩
    let reset : SimpleText :=
      ⟨"n = 0;".toList, ⟨by decide, by decide, by decide, by decide, by decide⟩, by decide,
        by decide, by decide, by decide, by decide, by decide, by decide, by decide⟩
    let main : Signature :=
      ⟨⟨"int main()".toList, ⟨by decide, by decide, by decide, by decide, by decide⟩, by decide⟩,
        "main", [], rfl⟩
    let t : Stmts grammar := .cons (.compound (.define main)
      (.cons (.branch guard .nil (.otherwise (.cons (.simple reset) .nil))) .nil)) .nil
    render 2 t = "int main() \x7b\n  if (n > 2) \x7b\n  \x7d else \x7b\n    n = 0;\n  \x7d\n\x7d" := by
  decide

section Comments

/-- A trimmed text on one line of which only the parentheses are known to be balanced. -/
structure Parenthesized where
  text : List Char
  trimmed : trim text = text
  oneLine : '\n' ∉ text ∧ '\r' ∉ text
  matched : matchParen? ('(' :: (text ++ [')'])) 0 = some (text.length + 1)

/-- Two branches, the guard of the first one with a comment mark in it. -/
def commentedBranches : Stmts (grammarOf Parenthesized.text) :=
  let main : Signature :=
    ⟨⟨"int main()".toList, ⟨by decide, by decide, by decide, by decide, by decide⟩, by decide⟩,
      "main", [], rfl⟩
  let first : SimpleText :=
    ⟨"x = 1;".toList, ⟨by decide, by decide, by decide, by decide, by decide⟩, by decide,
      by decide, by decide, by decide, by decide, by decide, by decide, by decide⟩
  let second : SimpleText :=
    ⟨"x = 2;".toList, ⟨by decide, by decide, by decide, by decide, by decide⟩, by decide,
      by decide, by decide, by decide, by decide, by decide, by decide, by decide⟩
  .cons (.compound (.define main)
    (.cons (.branch ⟨"1 // 2".toList, by decide, by decide, by decide⟩ (.cons (.simple first) .nil)
      (.otherwise (.cons (.simple second) .nil))) .nil)) .nil

/-- The lines and kinds of the steps of a run that ends without a fault. -/
def outline (traced : Traced (List Step)) : Option (List (Int × StepKind)) :=
  traced.result.toOption.map fun steps => steps.map fun s => (s.line, s.kind)

/-- A comment mark makes the rest of a head a comment, so what is left is no head: here the first
branch runs although its guard does not hold. -/
theorem not_traceSteps_render_parenthesized :
    ¬ ∀ (limits : Limits) (indent : Nat) (t : Stmts (grammarOf Parenthesized.text)),
      traceSteps .braced limits (render indent t) = (runTree limits t).traced := by
  intro h
  have hlines : outline (traceSteps .braced {} (render 0 commentedBranches)) =
      some [(1, .expression), (2, .assignment)] := by decide +kernel
  have htree : outline (runTree {} commentedBranches).traced =
      some [(1, .conditionFalse), (4, .assignment)] := by decide +kernel
  rw [h, htree] at hlines
  exact absurd hlines (by decide)

end Comments

end Stepwise.Braced
