import Stepwise.Proofs.RegimeStatements

/-!
# Runs keep to a regime

Branches, loops, lines and blocks hand on what their statements do, and a call is a block one frame
deeper, in the region of its function. So a whole run keeps to every regime (`Regime.program`), and
so does every call (`Regime.call`). This is shown of any way to run lines that keeps to the regime
as the dialect's own does.

The header of a counting loop is the one place where a `return` is passed over. A regime copes with
it if a call that is over counts as calm, or else the program must not have such headers.
-/

namespace Stepwise

open Source Run Text

namespace Chain

variable {β : Type}

/-- Every branch of a chain whose guard cannot be made out satisfies `M`. -/
def Malformed (M : Nat → List Char → Prop) : Chain β → Prop
  | guarded _ _ _ _ rest => rest.Malformed M
  | otherwise _ _ => True
  | malformed line text => M line text
  | done _ => True

theorem Malformed.trivial : ∀ c : Chain β, c.Malformed fun _ _ => True
  | guarded _ _ _ _ rest => trivial rest
  | otherwise _ _ => True.intro
  | malformed _ _ => True.intro
  | done _ => True.intro

end Chain

theorem Source.Program.line_mem {p : Program} {i : Nat} (hi : i < p.size) :
    p.line i ∈ p.lines := by
  have h : p.line i = p.lines[i] := by simp [Program.line, List.getElem?_eq_getElem hi]
  rw [h]
  exact List.getElem_mem hi

namespace Indented

theorem branchGuard_of_shape {text : List Char} (h : shape text = .branch) :
    branchGuard? text ≠ none := by
  intro hnone
  unfold shape at h
  simp only [hnone, Option.isSome_none, Bool.false_eq_true, if_false] at h
  repeat' split at h
  all_goals cases h

/-- In a chain that starts at a line with a guard, only `elif` lines without a colon are
malformed. -/
theorem chainFrom_malformed (p : Program) (depth : Nat) : ∀ (fuel i : Nat),
    (branchGuard? (p.line i).text = none → HasBrokenBranch p) →
      (chainFrom p depth fuel i).Malformed fun _ _ => HasBrokenBranch p
  | 0, _, _ => True.intro
  | fuel + 1, i, hi => by
    rw [chainFrom]
    split
    · exact hi ‹_›
    · rw [Chain.Malformed]
      split
      · rename_i j hj
        split_ifs with helif
        · have hmem := Program.line_mem (codeLineAt?_eq_some p depth hj).2.1
          exact chainFrom_malformed p depth fuel j fun hnone => ⟨_, hmem, helif, hnone⟩
        · exact True.intro
        · exact True.intro
      · exact True.intro

end Indented

namespace Braced

/-- The statements in the header of a counting loop. -/
def ForHeader.clauses (header : ForHeader) : List (List Char) :=
  (splitSemicolons (withoutBraces header.init)).filter (fun s => !s.isEmpty) ++
    splitCommas header.step

/-- The statements in the head of a line. -/
def Shape.clauses : Shape → List (List Char)
  | .forLoop header => header.clauses
  | _ => []

/-- No header of a counting loop has a `return` among its statements. -/
def ReturnFree (p : Program) : Prop :=
  ∀ l ∈ p.lines, ∀ text ∈ (shape l.text).clauses, returnText? text = none

instance (p : Program) : Decidable (ReturnFree p) :=
  inferInstanceAs (Decidable (∀ l ∈ p.lines, ∀ text ∈ (shape l.text).clauses, _))

end Braced

namespace Regime

variable {dialect : Dialect} {p : Program} {limits : Limits} {G : Regime dialect p limits}
  {frames : List Frame} {host : Host}

open Holds

variable (G) in
/-- Where lines leave the recorder. -/
abbrev RunsOn (frames : List Frame) (x : Run (Nat × Flow)) : Prop :=
  G.Holds frames (Fatal dialect p) G.Calm x (fun r => G.values.Flowing r.2) fun r => G.After r.2

variable (G) in
/-- A way to run the bodies that satisfy `B`. -/
abbrev RunsBodies {β : Type} (frames : List Frame) (B : β → Prop) (runBody : β → Block) : Prop :=
  ∀ {body : β}, B body → ∀ {scope : Scope}, G.values.Scoped scope →
    G.Flows frames (runBody body scope)

theorem Flows.thenOn {x : Run Flow} (hx : G.Flows frames x) (next : Nat) :
    G.RunsOn frames (do pure (next, ← x)) :=
  hx.bind fun _ hflow => valueWith hflow fun _ h => h

theorem chain {β : Type} {B : β → Prop} {runBody : β → Block}
    {runMalformed : Nat → List Char → Block} {M : Nat → List Char → Prop} (H : G.Serves host)
    (hb : G.RunsBodies frames B runBody)
    (hm : ∀ line text, M line text → (G.region frames).Line line → ∀ scope,
      G.values.Scoped scope → G.Flows frames (runMalformed line text scope)) :
    ∀ {c : Chain β} {scope : Scope}, c.Each (G.region frames).Line B → c.Malformed M →
      G.values.Scoped scope → G.RunsOn frames (c.run host runBody runMalformed scope)
  | .guarded line guard body resume rest, scope, ⟨hline, hbody, hrest⟩, hc, hs => by
    refine fromCalm ((evaluateText H hs guard).bind fun v _ => (Holds.isTrue v).bind
      fun b _ => ?_)
    cases b with
    | true => exact (record H hs hline .conditionTrue _ rfl).bind fun _ _ => (hb hbody hs).thenOn _
    | false =>
      exact (record H hs hline .conditionFalse _ rfl).bind fun _ _ => chain H hb hm hrest hc hs
  | .otherwise body resume, scope, hbody, _, hs => (hb hbody hs).thenOn _
  | .malformed line text, scope, hline, hc, hs => (hm line text hc hline scope hs).thenOn _
  | .done resume, scope, _, _, hs => valueWith (flowing hs) fun _ h => h

section Loops

variable (H : G.Serves host) {line : Nat} (hl : (G.region frames).Line line) {body : Block}
  (hb : ∀ {scope : Scope}, G.values.Scoped scope → G.Flows frames (body scope))
include H hl hb

theorem forEach (name : String) : ∀ {items : List Value} (iteration cost : Nat) {scope : Scope},
    G.values.All items → G.values.Scoped scope →
      G.Flows frames (Loop.forEach host line name body items iteration cost scope)
  | [], _, _, _, _, hs => flowsOn hs
  | item :: items, iteration, cost, scope, hi, hs => by
    have hs' := hs.put name (hi item List.mem_cons_self)
    have hrest : G.values.All items := hi.of_subset (List.subset_cons_self item items)
    rw [Loop.forEach, H.limits]
    refine (continueLoop _ _ _).bind fun b _ => ?_
    cases b with
    | false => exact flowsOn hs
    | true =>
      exact fromCalm (Holds.stepCount.bind fun _ _ => (describe item).bind fun _ _ =>
        (record H hs' hl .loopCheck _ rfl).bind fun _ _ => (hb hs').bind fun flow hflow =>
          Holds.stepCount.bind fun _ _ => andThen hflow fun _ => forEach name _ _ hrest)

theorem whileTrue (guard : List Char) : ∀ (more iteration cost : Nat) {scope : Scope},
    G.values.Scoped scope →
      G.Flows frames (Loop.whileTrue host line guard body more iteration cost scope)
  | 0, _, _, scope, hs => by
    rw [Loop.whileTrue, H.limits]
    exact (continueLoop _ _ _).bind fun _ _ => flowsOn hs
  | more + 1, iteration, cost, scope, hs => by
    rw [Loop.whileTrue, H.limits]
    refine (continueLoop _ _ _).bind fun b _ => ?_
    cases b with
    | false => exact flowsOn hs
    | true =>
      refine fromCalm ((evaluateText H hs guard).bind fun v _ => (Holds.isTrue v).bind
        fun t _ => ?_)
      cases t with
      | false =>
        exact (record H hs hl .conditionFalse _ rfl).bind fun _ _ => flowsOn hs
      | true =>
        exact Holds.stepCount.bind fun _ _ => (record H hs hl .loopCheck _ rfl).bind
          fun _ _ => (hb hs).bind fun flow hflow => Holds.stepCount.bind fun _ _ =>
            andThen hflow fun _ => whileTrue guard more _ _

theorem loop (guard : List Char) {scope : Scope} (hs : G.values.Scoped scope) :
    G.Flows frames (Loop.run host line guard body scope) :=
  whileTrue H hl hb guard _ 0 1 hs

end Loops

theorem indentedLine (indented : dialect = .indented) (H : G.Serves host)
    {runBlock : Extent → Block} (hb : G.RunsBodies frames (G.region frames).Block runBlock)
    {i : Nat} (hl : (G.region frames).Line i) {scope : Scope} (hs : G.values.Scoped scope) :
    G.RunsOn frames (Indented.runLine host p runBlock i scope) := by
  unfold Indented.runLine
  dsimp only
  split
  · exact fromCalm ((record H hs hl .define _ rfl).bind fun _ _ =>
      valueWith (flowing hs) fun _ h => h)
  · rename_i hshape
    refine chain H hb (fun _ _ hm _ _ _ => fromCalm (fault (.brokenBranch indented hm)))
      ((G.region frames).indentedChain indented hl hshape)
      (Indented.chainFrom_malformed p _ _ i fun hnone => ?_) hs
    exact absurd hnone (Indented.branchGuard_of_shape hshape)
  · exact valueWith (flowing hs) fun _ h => h
  · rename_i hshape
    have hbody := (G.region frames).indentedBody indented hl fun _ h => by
      rw [hshape] at h
      cases h
    exact fromCalm ((record H hs hl .loopStart _ rfl).bind fun _ _ =>
      (loop H hl (hb hbody) _ hs).thenOn _)
  · rename_i hshape
    have hbody := (G.region frames).indentedBody indented hl fun _ h => by
      rw [hshape] at h
      cases h
    refine fromCalm ((evaluateText H hs _).bind fun source hsource =>
      (record H hs hl .loopStart _ rfl).bind fun _ _ => Holds.get.bind fun m hm => ?_)
    have hitems : G.values.All ((m.heap.sequence? source).getD []) := by
      cases hseq : m.heap.sequence? source with
      | none => exact .nil
      | some items => exact ValueInvariant.all_sequence? hm hsource hseq
    exact (forEach H hl (hb hbody) _ 0 1 hitems hs).thenOn _
  · exact (giveBack H hl hs _).thenOn _
  · exact fromCalm ((simple H hl hs indented _).bind fun _ hs' =>
      valueWith (flowing hs') fun _ h => h)

theorem returned_of_after {flow : Flow} {r : Recorder} (h : G.After flow r) : G.Returned r := by
  unfold After at h
  split_ifs at h
  · exact .inr h
  · exact .inl h

theorem calm_of_after (hover : ∀ r, G.Over r → G.Calm r) {flow : Flow} {r : Recorder}
    (h : G.After flow r) : G.Calm r :=
  (returned_of_after h).elim id (hover r)

section BracedLines

variable (G) in
/-- A `return` among these texts does no harm where it is passed over. -/
def Passes (texts : List (List Char)) : Prop :=
  (∀ r, G.Over r → G.Calm r) ∨ ∀ text ∈ texts, returnText? text = none

theorem Passes.of_subset {texts texts' : List (List Char)} (h : G.Passes texts)
    (hs : texts' ⊆ texts) : G.Passes texts' :=
  h.imp id fun ht text hm => ht text (hs hm)

variable (braced : dialect = .braced) (H : G.Serves host) {line : Nat}
  (hl : (G.region frames).Line line)
include braced H hl

/-- A statement of which only the variables are kept. -/
theorem passedStatement {text : List Char} (ht : G.Passes [text]) {scope : Scope}
    (hs : G.values.Scoped scope) :
    G.Holds frames (Fatal dialect p) G.Calm (Braced.statement host line text scope)
      (fun flow => G.values.Scoped flow.scope) fun _ => G.Calm := by
  rcases ht with hover | ht
  · exact (statement H hl hs braced text).after (fun _ => And.left) fun _ _ => calm_of_after hover
  · exact (plainStatement H hl hs braced (ht text List.mem_cons_self)).fromCalm.after
      (fun _ => And.right) fun _ _ => id

theorem advance : ∀ {texts : List (List Char)}, G.Passes texts → ∀ {scope : Scope},
    G.values.Scoped scope → G.Holds frames (Fatal dialect p) G.Calm
      (Braced.advance host line texts scope) G.values.Scoped fun _ => G.Calm
  | [], _, _, hs => value hs
  | text :: rest, ht, _, hs => by
    have head := ht.of_subset (List.cons_subset_cons text (List.nil_subset rest))
    have tail := ht.of_subset (List.subset_cons_self text rest)
    exact (passedStatement braced H hl head hs).bind fun _ => advance tail

theorem plainInTurn : ∀ {texts : List (List Char)},
    (∀ text ∈ texts, returnText? text = none) → ∀ {scope : Scope}, G.values.Scoped scope →
      G.Holds frames (Fatal dialect p) G.Calm
        (Flow.inTurn (Braced.statement host line) texts scope)
        (fun flow => G.values.Scoped flow.scope) fun _ => G.Calm
  | [], _, _, hs => value hs
  | text :: rest, ht, _, hs => by
    have hrest := fun t hm => ht t (List.mem_cons_of_mem text hm)
    refine (plainStatement H hl hs braced (ht text List.mem_cons_self)).fromCalm.bind ?_
    rintro ⟨scope', returned⟩ ⟨rfl, hs'⟩
    exact plainInTurn hrest hs'

/-- The first clause of a counting loop, of which only the variables are kept. -/
theorem passedStatements {text : List Char}
    (ht : G.Passes ((splitSemicolons (Braced.withoutBraces text)).filter fun s => !s.isEmpty))
    {scope : Scope} (hs : G.values.Scoped scope) :
    G.Holds frames (Fatal dialect p) G.Calm (Braced.statements host line text scope)
      (fun flow => G.values.Scoped flow.scope) fun _ => G.Calm := by
  rcases ht with hover | ht
  · exact (statements H hl braced text hs).after (fun _ => And.left) fun _ _ => calm_of_after hover
  · exact plainInTurn braced H hl ht hs

theorem runFor {header : Braced.ForHeader} (hh : G.Passes header.clauses) {body : Block}
    (hb : ∀ {scope : Scope}, G.values.Scoped scope → G.Flows frames (body scope)) {scope : Scope}
    (hs : G.values.Scoped scope) :
    G.Flows frames (Braced.runFor host line header body scope) := by
  have hinit := hh.of_subset (List.subset_append_left _ _)
  have hstep := hh.of_subset (List.subset_append_right _ _)
  have iteration : ∀ {scope : Scope}, G.values.Scoped scope → G.Flows frames (do
      let flow ← body scope
      flow.andThen fun scope => do
        pure { scope := ← Braced.advance host line (splitCommas header.step) scope : Flow }) :=
    fun hs => (hb hs).bind fun _ hflow => andThen hflow fun _ hs' =>
      (advance braced H hl hstep hs').bind fun _ hs'' => flowsOn hs''
  unfold Braced.runFor
  dsimp only
  generalize (if header.test.isEmpty = true then ['1'] else header.test) = guard
  split_ifs
  · exact (value hs).bind fun _ hs' => fromCalm ((record H hs' hl .loopStart _ rfl).bind
      fun _ _ => loop H hl iteration guard hs')
  · exact (passedStatements braced H hl hinit hs).bind fun _ hs' => (value hs').bind fun _ hs'' =>
      fromCalm ((record H hs'' hl .loopStart _ rfl).bind fun _ _ =>
        loop H hl iteration guard hs'')

omit hl line in
theorem runBody {runBlock : Extent → Block}
    (hb : G.RunsBodies frames (G.region frames).Block runBlock) :
    G.RunsBodies frames (fun body => body.Each (G.region frames).Line (G.region frames).Block)
      (Braced.runBody host runBlock)
  | .lines _, hbody, _, hs => hb hbody hs
  | .inline _ texts, hbody, _, hs =>
    inTurn (fun text _ hs => statements H hbody braced text hs) texts hs

omit braced in
theorem define (header : Braced.FunctionHeader) {scope : Scope} (hs : G.values.Scoped scope) :
    G.Holds frames (Fatal dialect p) G.Calm (Braced.define host p line header scope)
      (fun _ => True) fun _ => G.Calm := by
  unfold Braced.define
  split_ifs
  · exact value trivial
  · exact fromCalm ((record H hs hl .define _ rfl).bind fun _ _ => value trivial)
  · exact value trivial

theorem bracedLine {runBlock : Extent → Block}
    (hb : G.RunsBodies frames (G.region frames).Block runBlock)
    (hh : ∀ header, Braced.shape (p.line line).text = .forLoop header → G.Passes header.clauses)
    {scope : Scope} (hs : G.values.Scoped scope) :
    G.RunsOn frames (Braced.runLine host p runBlock line scope) := by
  have hbody := @runBody _ _ _ G frames host braced H _ hb
  have hat := (G.region frames).bracedBody braced hl
  unfold Braced.runLine
  dsimp only
  split
  · exact (define H hl _ hs).bind fun _ _ => valueWith (flowing hs) fun _ h => h
  · exact chain H hbody (fun _ text _ hl scope hs => statements H hl braced text hs)
      ((G.region frames).bracedChain braced hl) (Chain.Malformed.trivial _) hs
  · exact valueWith (flowing hs) fun _ h => h
  · exact fromCalm ((record H hs hl .loopStart _ rfl).bind fun _ _ =>
      (loop H hl (hbody (hat _)) _ hs).thenOn _)
  · exact (runFor braced H hl (hh _ ‹_›) (hbody (hat _)) hs).thenOn _
  · exact (statements H hl braced _ hs).thenOn _

end BracedLines

variable (G) in
/-- The regime copes with the headers of the counting loops of the program. -/
def PassesHeaders : Prop :=
  (∀ r, G.Over r → G.Calm r) ∨ (dialect = .braced → Braced.ReturnFree p)

theorem PassesHeaders.clauses (hG : G.PassesHeaders) (braced : dialect = .braced) {i : Nat}
    {header : Braced.ForHeader} (hs : Braced.shape (p.line i).text = .forLoop header) :
    G.Passes header.clauses := by
  refine hG.imp id fun hfree text hm => ?_
  by_cases hi : i < p.size
  · exact hfree braced _ (Program.line_mem hi) text (by rw [hs]; exact hm)
  · have blank : p.line i = ⟨[], 0, i, true⟩ := by
      simp [Program.line, List.getElem?_eq_none (Nat.le_of_not_lt hi)]
    rw [blank] at hs
    cases hs

variable (G) in
/-- A way to run lines that keeps to the regime and leads on as the dialect's own does. -/
def RunsLines (semantics : Semantics) : Prop :=
  ∀ {host : Host}, G.Serves host → ∀ {frames : List Frame} {runBlock : Extent → Block},
    G.RunsBodies frames (G.region frames).Block runBlock →
    ∀ {i : Nat}, (G.region frames).Line i → ∀ {scope : Scope}, G.values.Scoped scope →
      G.Holds frames (Fatal dialect p) G.Calm (semantics host p runBlock i scope)
        (fun r => LeadsTo dialect p i r.1 ∧ G.values.Flowing r.2) fun r => G.After r.2

theorem runsLines (hG : G.PassesHeaders) : G.RunsLines (semanticsOf dialect) := by
  intro host H frames runBlock hb i hl scope hs
  have runsOn : G.RunsOn frames (semanticsOf dialect host p runBlock i scope) := by
    cases dialect with
    | indented => exact indentedLine rfl H hb hl hs
    | braced => exact bracedLine rfl H hl hb (fun _ => hG.clauses rfl) hs
  exact runsOn.afterReturn (fun r hr hflow => ⟨⟨host, runBlock, scope, r.2, hr⟩, hflow⟩)
    fun _ _ => id

variable (G) in
/-- The blocks that a program starts with are in the region outside of all calls. -/
def Starts (frames : List Frame) : Prop :=
  match dialect with
  | .indented =>
    (G.region frames).Block ⟨p.nextCodeLine 0, p.size, (p.line (p.nextCodeLine 0)).depth⟩
  | .braced => (G.region frames).Block ⟨0, p.size, 0⟩ ∧
    ∀ main, (functionTable .braced p).get? "main" = some main →
      (G.region frames).Block main.body

section Runs

variable {semantics : Semantics} (hlines : G.RunsLines semantics)
include hlines

theorem block (H : G.Serves host) : ∀ fuel : Nat,
    G.RunsBodies frames (G.region frames).Block (runBlock p (semantics host p) fuel)
  | 0, _, _, _, hs => flowsOn hs
  | fuel + 1, extent, hblock, scope, hs => by
    rw [runBlock]
    dsimp only
    split_ifs with hnext
    · have hruns : p.RunsNext extent (p.nextStatement extent.start extent.depth) := ⟨rfl, hnext⟩
      refine (hlines H (block H fuel) ((G.region frames).line hblock hruns) hs).bind
        fun r hr => andThen hr.2 fun _ => ?_
      exact block H fuel ((G.region frames).next hblock hruns hr.1)
    · exact flowsOn hs

omit hlines in
theorem enterFunction {body : FunctionDef → Scope → Run Value}
    (hb : ∀ {name f}, (functionTable dialect p).get? name = some f → ∀ shown {scope},
      G.values.Scoped scope → G.Holds (⟨f.name, shown⟩ :: frames) (Fatal dialect p) G.Calm
        (body f scope) G.values.Val fun _ => G.Returned)
    (name : String) {args : List Value} (ha : G.values.All args) :
    G.Evaluates frames
      (Stepwise.enterFunction dialect (functionTable dialect p) limits body name args)
      G.values.Val := by
  unfold Stepwise.enterFunction
  cases hf : (functionTable dialect p).get? name with
  | none => exact undefined
  | some f =>
    exact (describeAll args).evaluates.bind fun _ _ =>
      (enter hf ha _ fun shown _ hs => hb hf shown hs).evaluates

theorem call : ∀ (room : Nat) (frames : List Frame) (name : String) {args : List Value},
    G.values.All args → G.Evaluates frames
      (callFunction dialect semantics p (functionTable dialect p) limits room name args)
      G.values.Val
  | 0, _, name, _, ha => by
    rw [callFunction]
    exact enterFunction (fun _ _ _ _ => fromCalm (fault (.budget rfl))) name ha
  | room + 1, _, name, _, ha => by
    have H : G.Serves ⟨dialect, limits, callFunction dialect semantics p
        (functionTable dialect p) limits room⟩ := ⟨rfl, rfl, call room⟩
    rw [callFunction]
    refine enterFunction (fun hf shown _ hs => ?_) name ha
    refine (block hlines H p.size (G.call_block shown hf) hs).bind fun flow hflow =>
      valueWith ?_ fun _ => returned_of_after
    cases hr : flow.returned with
    | none => exact ValueInvariant.val_none
    | some v => exact hflow.2 v hr

theorem serves_hostOf : G.Serves (hostOf dialect semantics p limits) := ⟨rfl, rfl, call hlines _⟩

/-- A whole program keeps to its regime. -/
theorem programBy (hstart : G.Starts frames) :
    G.Holds frames (Fatal dialect p) G.Calm (Stepwise.programBy dialect p (runBlock p
        (semantics (hostOf dialect semantics p limits) p) p.size))
      (fun _ => True) fun _ => G.Returned := by
  have hb := @block _ _ _ G frames _ _ hlines (serves_hostOf hlines) p.size
  cases dialect with
  | indented =>
    exact (hb hstart .empty).bind fun _ _ => valueWith trivial fun _ => returned_of_after
  | braced =>
    refine (hb hstart.1 .empty).bind fun flow hflow => ?_
    split
    · rename_i main hmain
      exact (andThen hflow fun _ => hb (hstart.2 main hmain)).bind fun _ _ =>
        valueWith trivial fun _ => returned_of_after
    · exact valueWith trivial fun _ => returned_of_after

end Runs

/-- A whole run keeps to the regime. -/
theorem program (hG : G.PassesHeaders) (hstart : G.Starts frames) :
    G.Holds frames (Fatal dialect p) G.Calm (runProgram dialect limits p) (fun _ => True)
      fun _ => G.Returned := by
  rw [runProgram_eq]
  exact programBy (runsLines hG) hstart

/-- The run of a source text that has steps ends without a fault. -/
theorem exists_end {source : String} {G : Regime dialect (layout dialect source.toList) limits}
    (hG : G.PassesHeaders) (hstart : G.Starts []) (hheap : G.values.Inv {}) (hcalm : G.Calm {})
    {steps : List Step} (h : (traceSteps dialect limits source).result = .ok steps) :
    ∃ m, (runProgram dialect limits (layout dialect source.toList)).outcome {} = (.ok (), m) ∧
      steps = m.recorder.steps ∧ G.values.Inv m.heap ∧ G.Returned m.recorder := by
  have hends := program hG hstart {} rfl hheap hcalm
  rw [traceSteps_eq] at h
  rcases hr : (runProgram dialect limits (layout dialect source.toList)).outcome {}
    with ⟨fault | _, m⟩ <;> rw [hr] at h hends <;> cases h
  obtain ⟨-, hinv, -, hreturned⟩ := hends
  exact ⟨m, rfl, rfl, hinv, hreturned⟩

end Regime

end Stepwise
