import Stepwise.Proofs.OneLineBodies
import Stepwise.Proofs.Relocation

/-!
# Bodies on lines of their own

A `Spreading` writes each simple statement of a kind of tree as a statement that may take several
lines and does the same, all of it on the line of the simple one. It carries over to the whole tree:
`ofStmts` is the tree with more lines, and for each of its lines `place` has the line it came from.
Line for line the two trees do the same (`shadows_stmts`) and their functions are the same
(`functions_stmts`), so their programs have the same runs, with the lines of one moved by `place` to
those of the other (`outcome_render`).

Bodies that stand on the lines of their heads are spread by `spreadBodies`. In braces they mean what
they mean on lines of their own (`traceSteps_bracedLines`), unless a statement ends with a brace
(`traceSteps_bracedLine_initializer`). Without braces the body is all that stands behind the head on
its line (`traceSteps_unbracedLines`), not only the first statement
(`traceSteps_unbracedLine_second`).
-/

namespace Stepwise

open Source Text

namespace Likeness

variable {l l' : Limits} {A : Likeness l l'} {h h' : Host} (H : A.Hosts h h') {line line' : Nat}
  (hline : A.Lines line line')

include H hline

theorem runBranch (guard : List Char) {body body' rest rest' : Block}
    (hbody : ∀ scope, A.Rel (body scope) (body' scope))
    (hrest : ∀ scope, A.Rel (rest scope) (rest' scope)) (scope : Scope) :
    A.Rel (Stepwise.runBranch h line guard body rest scope)
      (Stepwise.runBranch h' line' guard body' rest' scope) := by
  refine A.bind (evaluateText H scope guard) fun v => A.bind (A.quiet (.isTrue v)) fun holds => ?_
  cases holds with
  | true => exact A.bind (record H hline _ _ scope) fun _ => hbody scope
  | false => exact A.bind (record H hline _ _ scope) fun _ => hrest scope

theorem runHead (hcap : l'.maxLoopIterations = l.maxLoopIterations) (head : Braced.Head)
    {body body' : Block} (hbody : ∀ scope, A.Rel (body scope) (body' scope)) (scope : Scope) :
    A.Rel (head.run h line body scope) (head.run h' line' body' scope) := by
  cases head with
  | whileLoop guard =>
    exact A.bind (record H hline _ _ scope) fun _ => loops_run H hcap hline _ _ _ hbody scope
  | forLoop clauses => exact runForBy H (loops_run H hcap) hline _ hbody scope
  | define signature =>
    rw [Braced.Head.run, Braced.Head.run]
    dsimp only
    split_ifs
    · exact A.bind (record H hline _ _ scope) fun _ => A.value _
    · exact A.value _

theorem simpleText (s : Braced.SimpleText) (scope : Scope) :
    A.Rel (s.run h line scope) (s.run h' line' scope) := by
  unfold Braced.SimpleText.run
  split_ifs
  · exact A.value _
  · exact statements H hline _ scope

end Likeness

namespace Braced

section Lines

/-- Rows from `i` on stand on these lines in the other program. -/
def Follows (place : Int → Int) : Nat → List Nat → Prop
  | _, [] => True
  | i, line :: lines => place i = line ∧ Follows place (i + 1) lines

theorem follows_append {place : Int → Int} : ∀ {i : Nat} {lines more : List Nat},
    Follows place i (lines ++ more) ↔
      Follows place i lines ∧ Follows place (i + lines.length) more
  | _, [], _ => by simp [Follows]
  | i, line :: lines, more => by
    rw [List.cons_append, Follows, Follows, follows_append, List.length_cons, and_assoc,
      Nat.add_assoc, Nat.add_comm 1]

/-- The line that a list gives for a row. -/
def lineIn (lines : List Nat) (row : Int) : Int := (lines[row.toNat]?.getD 0 : Nat)

theorem follows_lineIn (front : List Nat) : ∀ lines : List Nat,
    Follows (lineIn (front ++ lines)) front.length lines
  | [] => trivial
  | line :: lines => by
    refine ⟨by simp [lineIn], ?_⟩
    have h := follows_lineIn (front ++ [line]) lines
    rwa [List.append_assoc, List.singleton_append, List.length_append] at h

end Lines

/-- How simple statements are spread over several lines, with the same effect. -/
structure Spreading (S : Simples) where
  stmt : S.Simple → Stmt grammar
  functions : ∀ s i, (stmt s).functions i = []
  shadows : ∀ (s : S.Simple) {place : Int → Int} {limits : Limits} {h h' : Host} {i line : Nat},
    (relocation place limits).Hosts h h' →
    Follows place i (List.replicate (stmt s).height line) → ∀ scope,
      Shadows place Eq ((stmt s).run h i scope) (S.run h' line s scope)

namespace Spreading

variable {S : Simples} (E : Spreading S)

section Trees

mutual

/-- The tree with its simple statements spread. -/
def ofStmt : Stmt (grammarWith S) → Stmt grammar
  | .simple s => E.stmt s
  | .branch guard body rest => .branch guard (ofStmts body) (ofBranches rest)
  | .compound head body => .compound head (ofStmts body)

/-- Branches with their simple statements spread. -/
def ofBranches : Branches (grammarWith S) → Branches grammar
  | .done => .done
  | .otherwise body => .otherwise (ofStmts body)
  | .elseIf guard body rest => .elseIf guard (ofStmts body) (ofBranches rest)

/-- A body with its simple statements spread. -/
def ofStmts : Stmts (grammarWith S) → Stmts grammar
  | .nil => .nil
  | .cons s rest => .cons (ofStmt s) (ofStmts rest)

end

mutual

/-- For each row of the spread tree, the line of the tree where its statement stands. -/
def stmtLines : Nat → Stmt (grammarWith S) → List Nat
  | i, .simple s => List.replicate (E.stmt s).height i
  | i, .branch _ body rest =>
    i :: (stmtsLines (i + 1) body ++ branchesLines (i + 1 + body.height) rest)
  | i, .compound _ body => i :: (stmtsLines (i + 1) body ++ [i + 1 + body.height])

/-- The same for branches from a line on. -/
def branchesLines : Nat → Branches (grammarWith S) → List Nat
  | i, .done => [i]
  | i, .otherwise body => i :: (stmtsLines (i + 1) body ++ [i + 1 + body.height])
  | i, .elseIf _ body rest =>
    i :: (stmtsLines (i + 1) body ++ branchesLines (i + 1 + body.height) rest)

/-- The same for a body from a line on. -/
def stmtsLines : Nat → Stmts (grammarWith S) → List Nat
  | _, .nil => []
  | i, .cons s rest => stmtLines i s ++ stmtsLines (i + s.height) rest

end

mutual

theorem length_stmtLines : ∀ (s : Stmt (grammarWith S)) (i : Nat),
    (E.stmtLines i s).length = (E.ofStmt s).height
  | .simple s, i => by rw [stmtLines, ofStmt, List.length_replicate]
  | .branch _ body rest, i => by
    show _ = 1 + (E.ofStmts body).height + (E.ofBranches rest).height
    rw [stmtLines, List.length_cons, List.length_append, length_stmtsLines, length_branchesLines]
    omega
  | .compound _ body, i => by
    show _ = 1 + (E.ofStmts body).height + 1
    rw [stmtLines, List.length_cons, List.length_append, length_stmtsLines, List.length_singleton]
    omega

theorem length_branchesLines : ∀ (b : Branches (grammarWith S)) (i : Nat),
    (E.branchesLines i b).length = (E.ofBranches b).height
  | .done, i => by rw [branchesLines, ofBranches]; rfl
  | .otherwise body, i => by
    show _ = 1 + (E.ofStmts body).height + 1
    rw [branchesLines, List.length_cons, List.length_append, length_stmtsLines,
      List.length_singleton]
    omega
  | .elseIf _ body rest, i => by
    show _ = 1 + (E.ofStmts body).height + (E.ofBranches rest).height
    rw [branchesLines, List.length_cons, List.length_append, length_stmtsLines,
      length_branchesLines]
    omega

theorem length_stmtsLines : ∀ (ss : Stmts (grammarWith S)) (i : Nat),
    (E.stmtsLines i ss).length = (E.ofStmts ss).height
  | .nil, _ => by rw [stmtsLines, ofStmts]; rfl
  | .cons s rest, i => by
    rw [stmtsLines, ofStmts, Stmts.height, List.length_append, length_stmtLines, length_stmtsLines]

end

end Trees

section Runs

variable {place : Int → Int} {limits : Limits} {h h' : Host}

mutual

/-- A statement does what it does spread, on the line where it stands. -/
theorem shadows_stmt (H : (relocation place limits).Hosts h h') :
    ∀ (s : Stmt (grammarWith S)) {i line : Nat},
    Follows place i (E.stmtLines line s) → ∀ scope,
      Shadows place Eq ((E.ofStmt s).run h i scope) (s.run h' line scope)
  | .simple s, i, line, hf, scope => by
    rw [stmtLines] at hf
    exact E.shadows s H hf scope
  | .branch _ body rest, i, line, hf, scope => by
    rw [stmtLines] at hf
    obtain ⟨hbody, hrest⟩ := follows_append.1 hf.2
    rw [E.length_stmtsLines] at hrest
    exact Likeness.runBranch (A := relocation place limits) H hf.1 _ (shadows_stmts H body hbody)
      (shadows_branches H rest hrest) scope
  | .compound head body, i, line, hf, scope => by
    rw [stmtLines] at hf
    exact Likeness.runHead (A := relocation place limits) H hf.1 rfl head
      (shadows_stmts H body (follows_append.1 hf.2).1) scope

theorem shadows_branches (H : (relocation place limits).Hosts h h') :
    ∀ (b : Branches (grammarWith S)) {i line : Nat},
    Follows place i (E.branchesLines line b) → ∀ scope,
      Shadows place Eq ((E.ofBranches b).run h i scope) (b.run h' line scope)
  | .done, _, _, _, _ => .pure rfl
  | .otherwise body, i, line, hf, scope => by
    rw [branchesLines] at hf
    exact shadows_stmts H body (follows_append.1 hf.2).1 scope
  | .elseIf _ body rest, i, line, hf, scope => by
    rw [branchesLines] at hf
    obtain ⟨hbody, hrest⟩ := follows_append.1 hf.2
    rw [E.length_stmtsLines] at hrest
    exact Likeness.runBranch (A := relocation place limits) H hf.1 _ (shadows_stmts H body hbody)
      (shadows_branches H rest hrest) scope

theorem shadows_stmts (H : (relocation place limits).Hosts h h') :
    ∀ (ss : Stmts (grammarWith S)) {i line : Nat},
    Follows place i (E.stmtsLines line ss) → ∀ scope,
      Shadows place Eq ((E.ofStmts ss).run h i scope) (ss.run h' line scope)
  | .nil, _, _, _, _ => .pure rfl
  | .cons s rest, i, line, hf, scope => by
    rw [stmtsLines] at hf
    obtain ⟨hfirst, hrest⟩ := follows_append.1 hf
    rw [E.length_stmtLines] at hrest
    exact (shadows_stmt H s hfirst scope).bindEq fun flow =>
      Likeness.andThen (A := relocation place limits) flow (shadows_stmts H rest hrest)

end

end Runs

section Functions

variable {place : Int → Int}

/-- A function of the spread tree is one of the tree. -/
structure Counterpart (place : Int → Int) (f : Definition grammar)
    (f' : Definition (grammarWith S)) : Prop where
  name : f.name = f'.name
  params : f.params = f'.params
  line : place f.line = f'.line
  body : f.body = E.ofStmts f'.body
  follows : Follows place (f.line + 1) (E.stmtsLines (f'.line + 1) f'.body)

mutual

theorem functions_stmt : ∀ (s : Stmt (grammarWith S)) {i line : Nat},
    Follows place i (E.stmtLines line s) →
      List.Forall₂ (E.Counterpart place) ((E.ofStmt s).functions i) (s.functions line)
  | .simple s, i, line, _ => by
    have hnone : (E.ofStmt (.simple s)).functions i = [] := E.functions s i
    rw [hnone]
    exact .nil
  | .branch _ body rest, i, line, hf => by
    rw [stmtLines] at hf
    obtain ⟨hbody, hrest⟩ := follows_append.1 hf.2
    rw [E.length_stmtsLines] at hrest
    exact List.rel_append (functions_stmts body hbody) (functions_branches rest hrest)
  | .compound head body, i, line, hf => by
    rw [stmtLines] at hf
    have hbody := (follows_append.1 hf.2).1
    refine List.rel_append ?_ (functions_stmts body hbody)
    cases head with
    | define signature => exact .cons ⟨rfl, rfl, hf.1, rfl, hbody⟩ .nil
    | whileLoop _ => exact .nil
    | forLoop _ => exact .nil

theorem functions_branches : ∀ (b : Branches (grammarWith S)) {i line : Nat},
    Follows place i (E.branchesLines line b) →
      List.Forall₂ (E.Counterpart place) ((E.ofBranches b).functions i) (b.functions line)
  | .done, _, _, _ => .nil
  | .otherwise body, i, line, hf => by
    rw [branchesLines] at hf
    exact functions_stmts body (follows_append.1 hf.2).1
  | .elseIf _ body rest, i, line, hf => by
    rw [branchesLines] at hf
    obtain ⟨hbody, hrest⟩ := follows_append.1 hf.2
    rw [E.length_stmtsLines] at hrest
    exact List.rel_append (functions_stmts body hbody) (functions_branches rest hrest)

theorem functions_stmts : ∀ (ss : Stmts (grammarWith S)) {i line : Nat},
    Follows place i (E.stmtsLines line ss) →
      List.Forall₂ (E.Counterpart place) ((E.ofStmts ss).functions i) (ss.functions line)
  | .nil, _, _, _ => .nil
  | .cons s rest, i, line, hf => by
    rw [stmtsLines] at hf
    obtain ⟨hfirst, hrest⟩ := follows_append.1 hf
    rw [E.length_stmtLines] at hrest
    exact List.rel_append (functions_stmt s hfirst) (functions_stmts rest hrest)

end

variable {E} {definitions : List (Definition grammar)}
  {definitions' : List (Definition (grammarWith S))}
  (hd : List.Forall₂ (E.Counterpart place) definitions definitions')

include hd

theorem lastDefinition?_counterpart (name : String) : Option.Rel (E.Counterpart place)
    (lastDefinition? definitions name) (lastDefinition? definitions' name) := by
  have hreverse := List.rel_reverse hd
  rw [lastDefinition?, lastDefinition?]
  generalize definitions.reverse = fs at hreverse ⊢
  generalize definitions'.reverse = fs' at hreverse ⊢
  induction hreverse with
  | nil => exact .none
  | @cons f f' _ _ hf _ ih =>
    rw [List.find?_cons, List.find?_cons, hf.name]
    cases f'.name == name with
    | true => exact .some hf
    | false => exact ih

theorem shadows_enter (limits : Limits) {body : Definition grammar → Scope → Run Value}
    {body' : Definition (grammarWith S) → Scope → Run Value}
    (hbody : ∀ {f f'}, E.Counterpart place f f' → ∀ scope,
      Shadows place Eq (body f scope) (body' f' scope)) (name : String) (args : List Value) :
    Shadows place Eq (enterDefinition limits definitions body name args)
      (enterDefinition limits definitions' body' name args) := by
  have hfound := lastDefinition?_counterpart hd name
  rw [enterDefinition, enterDefinition]
  generalize lastDefinition? definitions name = found at hfound ⊢
  generalize lastDefinition? definitions' name = found' at hfound ⊢
  cases hfound with
  | none => exact .of_unaware (.throw _)
  | @some f f' hf =>
    have H : (relocation place limits).Hosts ⟨.braced, limits, fun _ _ => throw .undefined⟩
        ⟨.braced, limits, fun _ _ => throw .undefined⟩ :=
      ⟨rfl, rfl, rfl, rfl, fun _ _ => (relocation place limits).fault _⟩
    refine (Likeness.describeAll H args).bindEq fun shown => ?_
    rw [hf.name, hf.params]
    exact .enter hf.line _ _ _ _ (hbody hf)

/-- A call does the same in both trees. -/
theorem shadows_call (limits : Limits) : ∀ (room : Nat) (name : String) (args : List Value),
    Shadows place Eq (callDefinition limits definitions room name args)
      (callDefinition limits definitions' room name args)
  | 0, name, args => by
    refine shadows_enter hd limits (fun hf _ => ?_) name args
    rw [hf.name]
    exact .of_unaware (.throw _)
  | room + 1, name, args => by
    refine shadows_enter hd limits (fun hf scope => ?_) name args
    have H : (relocation place limits).Hosts
        ⟨.braced, limits, callDefinition limits definitions room⟩
        ⟨.braced, limits, callDefinition limits definitions' room⟩ :=
      ⟨rfl, rfl, rfl, rfl, shadows_call limits room⟩
    rw [hf.body]
    exact (E.shadows_stmts H _ hf.follows scope).bindEq fun _ => .pure rfl

end Functions

/-- The line of a tree where the statement of a row of the spread tree stands. -/
def place (t : Stmts (grammarWith S)) : Int → Int := lineIn (E.stmtsLines 0 t)

theorem follows_place (t : Stmts (grammarWith S)) : Follows (E.place t) 0 (E.stmtsLines 0 t) :=
  follows_lineIn [] _

/-- A tree does what it does spread. -/
theorem shadows_runTree (limits : Limits) (t : Stmts (grammarWith S)) :
    Shadows (E.place t) Eq (runTree limits (E.ofStmts t)) (runTree limits t) := by
  have hf := E.follows_place t
  have hd := E.functions_stmts t hf
  have H : (relocation (E.place t) limits).Hosts ((E.ofStmts t).host limits) (t.host limits) :=
    ⟨rfl, rfl, rfl, rfl, shadows_call hd limits _⟩
  refine (E.shadows_stmts H t hf _).bindEq fun flow => ?_
  have hmain := lastDefinition?_counterpart hd "main"
  generalize lastDefinition? ((E.ofStmts t).functions 0) "main" = found at hmain ⊢
  generalize lastDefinition? (t.functions 0) "main" = found' at hmain ⊢
  cases hmain with
  | none => exact .pure rfl
  | @some f f' hm =>
    dsimp only
    rw [hm.body]
    exact Shadows.bindEq (Likeness.andThen (A := relocation (E.place t) limits) flow
      (E.shadows_stmts H _ hm.follows)) fun _ => .pure rfl

/-- The program of a written tree ends like the spread one, on its own lines. -/
theorem outcome_render (limits : Limits) (indent : Nat) (t : Stmts (grammarWith S)) :
    let run := (Stepwise.runProgram .braced limits
      (layout .braced (render indent (E.ofStmts t)).toList)).outcome {}
    (Stepwise.runProgram .braced limits (layout .braced (render indent t).toList)).outcome {} =
      (run.1, run.2.relocate (E.place t)) := by
  have hspread : Stepwise.runProgram .braced limits
      (layout .braced (render indent (E.ofStmts t)).toList) = runTree limits (E.ofStmts t) :=
    runProgram_render plain limits indent (E.ofStmts t)
  rw [hspread, runProgram_render S]
  rcases E.shadows_runTree limits t {} with ⟨_, _, m, hx, hy, rfl⟩ | ⟨_, m, hx, hy⟩
  · rw [hx]
    exact hy
  · rw [hx]
    exact hy

/-- A written tree and the spread one have the same steps, each on its own lines. -/
theorem traceSteps_render (limits : Limits) (indent : Nat) (t : Stmts (grammarWith S)) :
    (traceSteps .braced limits (render indent t)).result =
      (traceSteps .braced limits (render indent (E.ofStmts t))).result.map
        (List.map (Step.relocate (E.place t))) := by
  rw [traceSteps_eq, traceSteps_eq, E.outcome_render]
  generalize (Stepwise.runProgram .braced limits
    (layout .braced (render indent (E.ofStmts t)).toList)).outcome {} = run
  obtain ⟨result, m⟩ := run
  cases result with
  | error fault => rfl
  | ok _ => exact congrArg Except.ok List.map_reverse.symm

end Spreading

section Bodies

/-- Statements on a line each. -/
def itemLines : List Item → Stmts grammar
  | [] => .nil
  | s :: items => .cons (.simple s.line) (itemLines items)

theorem height_itemLines : ∀ items : List Item, (itemLines items).height = items.length
  | [] => rfl
  | s :: items => by
    show 1 + (itemLines items).height = _
    rw [height_itemLines items, Nat.add_comm]
    rfl

theorem functions_itemLines : ∀ (items : List Item) (i : Nat), (itemLines items).functions i = []
  | [], _ => rfl
  | _ :: items, i => functions_itemLines items (i + 1)

/-- The compound statement with its body on lines of its own. -/
def OneLine.spread {braced : Bool} (o : OneLine braced) : Stmt grammar :=
  match o.opener with
  | .branch guard => .branch guard (itemLines o.items) .done
  | .whileLoop guard => .compound (.whileLoop guard) (itemLines o.items)
  | .forLoop clauses => .compound (.forLoop clauses) (itemLines o.items)

variable {braced : Bool} {place : Int → Int} {limits : Limits} {h h' : Host} {line : Nat}

/-- Statements do on one line what they do on a line each. -/
theorem shadows_itemLines (H : (relocation place limits).Hosts h h') :
    ∀ (items : List Item) {i : Nat}, Follows place i (List.replicate items.length line) → ∀ scope,
      Shadows place Eq ((itemLines items).run h i scope)
        (Flow.inTurn (statements h' line) (items.map fun s => s.text) scope)
  | [], _, _, _ => .pure rfl
  | s :: items, i, hf, scope => by
    have hfirst : Shadows place Eq (s.line.run h i scope) (statements h' line s.text scope) := by
      rw [s.run_line]
      exact Likeness.statements (A := relocation place limits) H hf.1 s.text scope
    exact hfirst.bindEq fun flow =>
      Likeness.andThen (A := relocation place limits) flow (shadows_itemLines H items hf.2)

namespace OneLine

theorem height_spread (o : OneLine braced) : o.spread.height = o.items.length + 1 + 1 := by
  rw [← height_itemLines o.items, Nat.add_comm _ 1, spread]
  cases o.opener <;> rfl

theorem functions_spread (o : OneLine braced) (i : Nat) : o.spread.functions i = [] := by
  have hbody := functions_itemLines o.items (i + 1)
  rw [spread]
  cases o.opener with
  | branch _ => exact congrArg (· ++ []) hbody
  | whileLoop _ => exact hbody
  | forLoop _ => exact hbody

/-- A body on one line does what it does on lines of its own. -/
theorem shadows_spread (o : OneLine braced) (H : (relocation place limits).Hosts h h') {i : Nat}
    (hf : Follows place i (List.replicate o.spread.height line)) (scope : Scope) :
    Shadows place Eq (o.spread.run h i scope) (o.run h' line scope) := by
  rw [o.height_spread, List.replicate_succ, List.replicate_add] at hf
  have hbody := shadows_itemLines H o.items (follows_append.1 hf.2).1
  rw [spread, run]
  cases o.opener with
  | branch guard =>
    exact Likeness.runBranch (A := relocation place limits) H hf.1 guard.text hbody
      (fun _ => .pure rfl) scope
  | whileLoop guard =>
    exact Likeness.runHead (A := relocation place limits) H hf.1 rfl (.whileLoop guard) hbody scope
  | forLoop clauses =>
    exact Likeness.runHead (A := relocation place limits) H hf.1 rfl (.forLoop clauses) hbody scope

end OneLine

/-- Bodies that stand on the lines of their heads, spread over lines of their own. -/
def spreadBodies (braced : Bool) : Spreading (oneLines braced) where
  stmt := Sum.elim (fun s : SimpleText => .simple s) OneLine.spread
  functions
    | .inl _, _ => rfl
    | .inr o, i => o.functions_spread i
  shadows := by
    rintro (s | o) place limits h h' i line H hf scope
    · exact Likeness.simpleText (A := relocation place limits) H hf.1 s scope
    · exact o.shadows_spread H hf scope

end Bodies

/-- A body in braces may stand on the line of its head: in every program, whichever branches and
loops are written like that, the run is the one with these bodies on lines of their own, with the
same result, steps and warnings on other lines. -/
theorem traceSteps_bracedLines (limits : Limits) (indent : Nat)
    (t : Stmts (grammarWith (oneLines true))) :
    let spread := (spreadBodies true).ofStmts t
    let place := (spreadBodies true).place t
    let run := (Stepwise.runProgram .braced limits
      (layout .braced (render indent spread).toList)).outcome {}
    (Stepwise.runProgram .braced limits (layout .braced (render indent t).toList)).outcome {} =
      (run.1, run.2.relocate place) ∧
    (traceSteps .braced limits (render indent t)).result =
      (traceSteps .braced limits (render indent spread)).result.map
        (List.map (Step.relocate place)) :=
  ⟨(spreadBodies true).outcome_render limits indent t,
    (spreadBodies true).traceSteps_render limits indent t⟩

section Examples

/-- A loop, a branch and a counting loop on one line each. -/
def tally : Stmts (grammarWith (oneLines true)) :=
  let start : Item := ⟨"int total = 1".toList, by decide⟩
  let below : Guard := ⟨⟨"total < 5".toList, by decide, by decide⟩, by decide⟩
  let report : Item := ⟨"printf(\"%d;\", total)".toList, by decide⟩
  let raise : Item := ⟨"total += 2".toList, by decide⟩
  let any : Guard := ⟨⟨"total".toList, by decide, by decide⟩, by decide⟩
  let declare : Item := ⟨"int pair[2] = \x7b7, 8\x7d, last = 1".toList, by decide⟩
  let keep : Item := ⟨"pair[last] = total".toList, by decide⟩
  let once : Clauses :=
    ⟨⟨⟨"k = 0; k < 1; k++".toList, by decide, by decide⟩, by decide⟩, "k = 0".toList,
      "k < 1".toList, "k++".toList, by decide⟩
  .cons (.simple (.inl start.line))
    (.cons (.simple (.inr ⟨.whileLoop below, [report, raise], .inl rfl⟩))
      (.cons (.simple (.inr ⟨.branch any, [declare, keep], .inl rfl⟩))
        (.cons (.simple (.inr ⟨.forLoop once, [], .inl rfl⟩)) .nil)))

theorem traceSteps_bracedLines_tally :
    render 2 tally =
      "int total = 1;\nwhile (total < 5) \x7b printf(\"%d;\", total); total += 2; \x7d\n" ++
      "if (total) \x7b int pair[2] = \x7b7, 8\x7d, last = 1; pair[last] = total; \x7d\n" ++
      "for (k = 0; k < 1; k++) \x7b \x7d" ∧
    render 2 ((spreadBodies true).ofStmts tally) =
      "int total = 1;\nwhile (total < 5) \x7b\n  printf(\"%d;\", total);\n  total += 2;\n\x7d\n" ++
      "if (total) \x7b\n  int pair[2] = \x7b7, 8\x7d, last = 1;\n  pair[last] = total;\n\x7d\n" ++
      "for (k = 0; k < 1; k++) \x7b\n\x7d" ∧
    (traceSteps .braced {} (render 2 tally)).result =
      (traceSteps .braced {} (render 2 ((spreadBodies true).ofStmts tally))).result.map
        (List.map (Step.relocate ((spreadBodies true).place tally))) :=
  ⟨by decide +kernel, by decide +kernel, (traceSteps_bracedLines {} 2 tally).2⟩

/-- The explanations of the steps of a run that ends without a fault. -/
def explanations (traced : Traced (List Step)) : Option (List Text) :=
  traced.result.toOption.map (List.map fun s => s.explanation)

/-- A statement must not end with a brace: here that of the initializer is taken for one of the
body. -/
theorem traceSteps_bracedLine_initializer :
    explanations (traceSteps .braced {} "if (1) \x7b int a[2] = \x7b1, 2\x7d; \x7d") =
      some (["1 → True", "a = undefined"].map ofString) ∧
    explanations (traceSteps .braced {} "if (1) \x7b\nint a[2] = \x7b1, 2\x7d;\n\x7d") =
      some (["1 → True", "a = \x7b1, 2\x7d"].map ofString) := by
  decide +kernel

end Examples

/-- Without braces all statements behind a head on its line are its body, not only the first one:
the run is the one with all of them in braces on lines of their own. -/
theorem traceSteps_unbracedLines (limits : Limits) (indent : Nat)
    (t : Stmts (grammarWith (oneLines false))) :
    let spread := (spreadBodies false).ofStmts t
    let place := (spreadBodies false).place t
    let run := (Stepwise.runProgram .braced limits
      (layout .braced (render indent spread).toList)).outcome {}
    (Stepwise.runProgram .braced limits (layout .braced (render indent t).toList)).outcome {} =
      (run.1, run.2.relocate place) ∧
    (traceSteps .braced limits (render indent t)).result =
      (traceSteps .braced limits (render indent spread)).result.map
        (List.map (Step.relocate place)) :=
  ⟨(spreadBodies false).outcome_render limits indent t,
    (spreadBodies false).traceSteps_render limits indent t⟩

section Examples

/-- A loop with two statements behind its head, and a branch with one. -/
def triple : Stmts (grammarWith (oneLines false)) :=
  let start : Item := ⟨"int power = 1".toList, by decide⟩
  let below : Guard := ⟨⟨"power < 9".toList, by decide, by decide⟩, by decide⟩
  let raise : Item := ⟨"power *= 3".toList, by decide⟩
  let keep : Item := ⟨"last = power".toList, by decide⟩
  let any : Guard := ⟨⟨"last".toList, by decide, by decide⟩, by decide⟩
  let say : Item := ⟨"puts(\"; else\")".toList, by decide⟩
  .cons (.simple (.inl start.line)) (.cons
    (.simple (.inr ⟨.whileLoop below, [raise, keep], .inr (List.cons_ne_nil _ _)⟩))
    (.cons (.simple (.inr ⟨.branch any, [say], .inr (List.cons_ne_nil _ _)⟩)) .nil))

theorem traceSteps_unbracedLines_triple :
    render 0 triple =
      "int power = 1;\nwhile (power < 9) power *= 3; last = power;\nif (last) puts(\"; else\");" ∧
    render 0 ((spreadBodies false).ofStmts triple) =
      "int power = 1;\nwhile (power < 9) \x7b\npower *= 3;\nlast = power;\n\x7d\n" ++
      "if (last) \x7b\nputs(\"; else\");\n\x7d" ∧
    (traceSteps .braced {} (render 0 triple)).result =
      (traceSteps .braced {} (render 0 ((spreadBodies false).ofStmts triple))).result.map
        (List.map (Step.relocate ((spreadBodies false).place triple))) :=
  ⟨by decide +kernel, by decide +kernel, (traceSteps_unbracedLines {} 0 triple).2⟩

/-- The second statement behind a head does not run if the guard does not hold. -/
theorem traceSteps_unbracedLine_second :
    outline (traceSteps .braced {} "if (0) x = 1; y = 2;") = some [(0, .conditionFalse)] ∧
    outline (traceSteps .braced {} "if (0) \x7b\nx = 1;\n\x7d\ny = 2;") =
      some [(0, .conditionFalse), (3, .assignment)] := by
  decide +kernel

end Examples

end Braced

end Stepwise
