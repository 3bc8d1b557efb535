import Stepwise.Proofs.CodeLines
import Stepwise.Proofs.LineRuns
import Stepwise.Proofs.Relocation

/-!
# Runs of the same code

Two programs with the same code do the same: the one shows the lines where the other one has the
code that it runs (`runProgram_sameCode`). A line is run like its twin, a block by induction on the
code that is left, and a call by induction on how many calls may still nest.
-/

namespace Stepwise

open Source Text

variable {f : Nat → Nat} {p p' : Program} {place : Int → Int} {limits : Limits} {host host' : Host}

/-- The map takes lines to their twins. -/
def Carries (place : Int → Int) (p p' : Program) : Prop :=
  ∀ {i i' : Nat}, Twins p p' i i' → place i = i'

/-- The program goes on at lines of one rank, with the same variables and returned value. -/
def SameNext (p p' : Program) (r r' : Nat × Flow) : Prop :=
  SameRank p p' r.1 r'.1 ∧ r'.2 = r.2

/-- Blocks of the same code below two lines run alike. -/
def SameBlocks (f : Nat → Nat) (p p' : Program) (place : Int → Int) (i i' : Nat)
    (runBlock runBlock' : Extent → Block) : Prop :=
  ∀ {e e' : Extent}, SameExtent f p p' e e' → i < e.start → e.stop ≤ p.size → i' < e'.start →
    e'.stop ≤ p'.size → ∀ scope, Shadows place Eq (runBlock e scope) (runBlock' e' scope)

section Lines

variable (hplace : Carries place p p') (H : (relocation place limits).Hosts host host')
include hplace H

/-- Chains with the same guards and bodies that run alike do the same. -/
theorem SameChain.run {β : Type} {B : β → β → Prop} {c c' : Chain β}
    (hc : SameChain p p' B c c') {P P' : β → Prop} {Q Q' : Nat → Prop}
    {runBody runBody' : β → Block} {runMalformed runMalformed' : Nat → List Char → Block}
    (hbody : ∀ {body body'}, B body body' → P body → P' body' →
      ∀ scope, Shadows place Eq (runBody body scope) (runBody' body' scope))
    (hmal : ∀ {line line'}, Twins p p' line line' → ∀ text scope,
      Shadows place Eq (runMalformed line text scope) (runMalformed' line' text scope))
    (hall : c.All P Q) (hall' : c'.All P' Q') (scope : Scope) :
    Shadows place (SameNext p p') (c.run host runBody runMalformed scope)
      (c'.run host' runBody' runMalformed' scope) := by
  induction hc with
  | guarded t hb hr _ ih =>
    have hline := hplace t
    refine (Likeness.evaluateText H scope _).bindEq fun v =>
      (Shadows.of_unaware (.isTrue v)).bindEq fun holds => ?_
    cases holds with
    | true =>
      exact (Likeness.record H hline _ _ scope).bindEq fun _ =>
        (hbody hb hall.1 hall'.1 scope).bindEq fun _ => .pure ⟨hr, rfl⟩
    | false =>
      exact (Likeness.record H hline _ _ scope).bindEq fun _ => ih hall.2.2 hall'.2.2
  | otherwise hb hr => exact (hbody hb hall.1 hall'.1 scope).bindEq fun _ => .pure ⟨hr, rfl⟩
  | malformed t => exact (hmal t _ scope).bindEq fun _ => .pure ⟨t.succ, rfl⟩
  | done hr => exact .pure ⟨hr, rfl⟩

variable {i i' : Nat} {loop loop' : LoopRunner} {runBlock runBlock' : Extent → Block}

/-- Twin lines do the same, and the programs go on at lines of one rank. -/
theorem Indented.runLineBy_sameCode (h : SameCode f p p')
    (hl : (relocation place limits).Loops loop loop')
    (hb : SameBlocks f p p' place i i' runBlock runBlock') (t : Twins p p' i i') (scope : Scope) :
    Shadows place (SameNext p p') (Indented.runLineBy loop host p runBlock i scope)
      (Indented.runLineBy loop' host' p' runBlock' i' scope) := by
  have hi := t.here.lt_size
  have hi' := t.there.lt_size
  have hline := hplace t
  have hbody := h.body t
  have hrun := hb hbody (Nat.lt_succ_self i) (p.body_stop_le hi) (Nat.lt_succ_self i')
    (p'.body_stop_le hi')
  unfold Indented.runLineBy
  rw [(h.lines_eq t).1]
  split
  · exact (Likeness.record H hline _ _ scope).bindEq fun _ =>
      (hl hline _ _ _ hrun scope).bindEq fun _ => .pure ⟨hbody.stop, rfl⟩
  · rename_i hne
    unfold Indented.runLine
    dsimp only
    rw [(h.lines_eq t).1]
    split
    · exact (Likeness.record H hline _ _ scope).bindEq fun _ => .pure ⟨hbody.stop, rfl⟩
    · exact (sameCode_chainAt h t).run hplace H
        (fun he hp hp' => hb he hp.1 hp.2 hp'.1 hp'.2)
        (fun _ _ _ => Shadows.of_unaware (.throw _)) (chainAt_all p hi) (chainAt_all p' hi') scope
    · exact .pure ⟨hbody.stop, rfl⟩
    · exact (hne _ ‹_›).elim
    · exact (Likeness.evaluateText H scope _).bindEq fun _ =>
        (Likeness.record H hline _ _ scope).bindEq fun _ => .get fun _ =>
          (Likeness.forEach H hline _ hrun _ 0 1 scope).bindEq fun _ => .pure ⟨hbody.stop, rfl⟩
    · exact (Likeness.giveBack H hline _ scope).bindEq fun _ => .pure ⟨t.succ, rfl⟩
    · exact (Likeness.simple H hline _ scope).bindEq fun _ => .pure ⟨t.succ, rfl⟩

theorem Braced.runBody_sameCode (hb : SameBlocks id p p' place i i' runBlock runBlock')
    {body body' : Body} (h : SameBody p p' body body')
    (hbelow : body.Below i ∧ body.resume ≤ p.size)
    (hbelow' : body'.Below i' ∧ body'.resume ≤ p'.size) (scope : Scope) :
    Shadows place Eq (runBody host runBlock body scope) (runBody host' runBlock' body' scope) := by
  cases h with
  | lines h => exact hb h hbelow.1 hbelow.2 hbelow'.1 hbelow'.2 scope
  | inline t => exact Likeness.inTurn (Likeness.statements H (hplace t)) _ scope

theorem Braced.define_sameCode (h : SameCode id p p') (t : Twins p p' i i')
    (header : FunctionHeader) (scope : Scope) :
    Shadows place (SameRank p p') (define host p i header scope)
      (define host' p' i' header scope) := by
  have hend := h.blockEnd t.succ ((p.line i).depth + 1)
  unfold Braced.define
  rw [(h.lines_eq t).2]
  split_ifs
  · exact .pure t.succ
  · exact (Likeness.record H (hplace t) _ _ scope).bindEq fun _ => .pure hend
  · exact .pure hend

theorem Braced.runLineBy_sameCode (h : SameCode id p p')
    (hl : (relocation place limits).Loops loop loop')
    (hb : SameBlocks id p p' place i i' runBlock runBlock') (t : Twins p p' i i') (scope : Scope) :
    Shadows place (SameNext p p') (Braced.runLineBy loop host p runBlock i scope)
      (Braced.runLineBy loop' host' p' runBlock' i' scope) := by
  have hi := t.here.lt_size
  have hi' := t.there.lt_size
  have hline := hplace t
  have hbody := sameCode_bodyAt h t
  have hrun := fun rest => Braced.runBody_sameCode hplace H hb (hbody rest)
    (bodyAt_below p hi rest) (bodyAt_below p' hi' rest)
  unfold Braced.runLineBy
  rw [(h.lines_eq t).1]
  split
  · exact (Likeness.record H hline _ _ scope).bindEq fun _ =>
      (hl hline _ _ _ (hrun _) scope).bindEq fun _ => .pure ⟨(hbody _).resume, rfl⟩
  · exact (Likeness.runForBy H hl hline _ (hrun _) scope).bindEq fun _ =>
      .pure ⟨(hbody _).resume, rfl⟩
  · rename_i hwhile hfor
    unfold Braced.runLine
    dsimp only
    rw [(h.lines_eq t).1]
    split
    · exact (Braced.define_sameCode hplace H h t _ scope).bind fun _ _ hn _ _ => .pure ⟨hn, rfl⟩
    · exact (sameCode_chainAt h t).run hplace H
        (fun hs => Braced.runBody_sameCode hplace H hb hs)
        (fun s => Likeness.statements H (hplace s)) (chainAt_below p hi) (chainAt_below p' hi')
        scope
    · exact .pure ⟨(hbody _).resume, rfl⟩
    · exact (hwhile _ _ ‹_›).elim
    · exact (hfor _ ‹_›).elim
    · exact (Likeness.statements H hline _ scope).bindEq fun _ => .pure ⟨t.succ, rfl⟩

variable {dialect : Dialect}

/-- A line does what its twin does. -/
theorem runLineBy_sameCode (h : SameCode f p p') (hf : dialect = .braced → f = id)
    (hl : (relocation place limits).Loops loop loop')
    (hb : SameBlocks f p p' place i i' runBlock runBlock') (t : Twins p p' i i') (scope : Scope) :
    Shadows place (SameNext p p') (runLineBy dialect loop host p runBlock i scope)
      (runLineBy dialect loop' host' p' runBlock' i' scope) := by
  cases dialect with
  | indented => exact Indented.runLineBy_sameCode hplace H h hl hb t scope
  | braced =>
    obtain rfl := hf rfl
    exact Braced.runLineBy_sameCode hplace H h hl hb t scope

end Lines

section Blocks

variable {dialect : Dialect}

/-- The block has a statement to run. -/
def Source.Extent.Runs (e : Extent) (p : Program) : Prop :=
  p.nextStatement e.start e.depth < e.stop ∧
    e.depth ≤ (p.line (p.nextStatement e.start e.depth)).depth

theorem Source.Extent.Runs.rank_start_lt {e : Extent} (hr : e.Runs p) (hs : e.stop ≤ p.size) :
    p.rank e.start < p.rank e.stop := by
  have hcode : p.HasCode (p.nextStatement e.start e.depth) :=
    Program.hasCode_skip (Nat.lt_of_lt_of_le hr.1 hs)
  have h1 := hcode.rank_lt hr.1
  have h2 := p.rank_mono (p.le_nextStatement e.start e.depth)
  omega

theorem Source.Extent.Runs.rank_start_lt_length {e : Extent} (hr : e.Runs p)
    (hs : e.stop ≤ p.size) : p.rank e.start < p.code.length := by
  have h1 := hr.rank_start_lt hs
  have h2 := p.rank_mono hs
  rw [p.rank_size] at h2
  omega

/-- Below a line with code there is less code left. -/
theorem Source.Program.HasCode.length_le {start i j fuel : Nat} (h : p.HasCode i)
    (hle : start ≤ i) (hij : i < j) (hfuel : p.code.length ≤ p.rank start + (fuel + 1)) :
    p.code.length ≤ p.rank j + fuel := by
  have h1 := p.rank_mono hle
  have h2 := h.rank_lt hij
  omega

/-- Two blocks of the same code have statements of the same code to run next, or none. -/
theorem SameExtent.runs_or {e e' : Extent} (h : SameCode f p p') (he : SameExtent f p p' e e')
    (hs : e.stop ≤ p.size) (hs' : e'.stop ≤ p'.size) :
    (e'.depth = f e.depth ∧ e.Runs p ∧ e'.Runs p' ∧
      Twins p p' (p.nextStatement e.start e.depth) (p'.nextStatement e'.start e'.depth)) ∨
    ¬ e.Runs p ∧ ¬ e'.Runs p' := by
  rcases he.depth with hd | hempty
  · have hrank : SameRank p p' (p.nextStatement e.start e.depth)
        (p'.nextStatement e'.start e'.depth) :=
      h.skip (fun _ _ hl => by simp only [hl, hd, h.mono.lt_iff_lt]) he.start
    by_cases hlt : p.nextStatement e.start e.depth < p.size
    · have t : Twins p p' (p.nextStatement e.start e.depth) (p'.nextStatement e'.start e'.depth) :=
        h.twins_skip hrank hlt
      have hiff : e'.Runs p' ↔ e.Runs p := by
        unfold Extent.Runs
        rw [t.lt_iff he.stop, (h.lines_eq t).2, hd, h.mono.le_iff_le]
      by_cases hr : e.Runs p
      · exact .inl ⟨hd, hr, hiff.2 hr, t⟩
      · exact .inr ⟨hr, hiff.not.2 hr⟩
    · have hlt' := (h.skip_lt_iff hrank).not.2 hlt
      exact .inr ⟨fun hr => hlt (Nat.lt_of_lt_of_le hr.1 hs),
        fun hr => hlt' (Nat.lt_of_lt_of_le hr.1 hs')⟩
  · -- No code stands between the two ends of the block.
    have hempty' : p'.rank e'.stop ≤ p'.rank e'.start := by
      rw [he.start, he.stop]
      exact hempty
    refine .inr ⟨fun hr => ?_, fun hr => ?_⟩
    · have := hr.rank_start_lt hs
      omega
    · have := hr.rank_start_lt hs'
      omega

theorem runBlock_of_not_runs {e : Extent} (h : ¬ e.Runs p) (runLine : LineRunner) (fuel : Nat)
    (scope : Scope) : runBlock p runLine fuel e scope = pure { scope } := by
  cases fuel with
  | zero => rfl
  | succ fuel => exact if_neg h

theorem runBlock_of_runs {e : Extent} (h : e.Runs p) (runLine : LineRunner) (fuel : Nat)
    (scope : Scope) : runBlock p runLine (fuel + 1) e scope =
      runLine (runBlock p runLine fuel) (p.nextStatement e.start e.depth) scope >>= fun r =>
        r.2.andThen (runBlock p runLine fuel { e with start := r.1 }) :=
  if_pos h

variable (h : SameCode f p p') (hf : dialect = .braced → f = id) (hplace : Carries place p p')
include h hf hplace

/-- Blocks of the same code do the same, with fuel for the code that is left. -/
theorem runBlock_sameCode (H : (relocation place limits).Hosts host host') :
    ∀ (fuel fuel' : Nat) {e e' : Extent}, SameExtent f p p' e e' → e.stop ≤ p.size →
      e'.stop ≤ p'.size → p.code.length ≤ p.rank e.start + fuel →
      p'.code.length ≤ p'.rank e'.start + fuel' → ∀ scope : Scope,
        Shadows place Eq (runBlock p (semanticsOf dialect host p) fuel e scope)
          (runBlock p' (semanticsOf dialect host' p') fuel' e' scope) := by
  rw [semanticsOf_eq, semanticsOf_eq]
  intro fuel
  induction fuel with
  | zero =>
    intro fuel' e e' he hs hs' hfuel _ scope
    rcases he.runs_or h hs hs' with ⟨-, hr, -⟩ | ⟨hr, hr'⟩
    · have := hr.rank_start_lt_length hs
      omega
    · rw [runBlock_of_not_runs hr, runBlock_of_not_runs hr']
      exact .pure rfl
  | succ fuel ih =>
    intro fuel' e e' he hs hs' hfuel hfuel' scope
    rcases he.runs_or h hs hs' with ⟨hd, hr, hr', t⟩ | ⟨hr, hr'⟩
    · have hlt := hr'.rank_start_lt_length hs'
      obtain ⟨fuel', rfl⟩ : ∃ k, fuel' = k + 1 := ⟨fuel' - 1, by omega⟩
      rw [runBlock_of_runs hr, runBlock_of_runs hr']
      have hless : ∀ {j : Nat}, p.nextStatement e.start e.depth < j →
          p.code.length ≤ p.rank j + fuel :=
        fun hj => t.here.length_le (p.le_nextStatement _ _) hj hfuel
      have hless' : ∀ {j : Nat}, p'.nextStatement e'.start e'.depth < j →
          p'.code.length ≤ p'.rank j + fuel' :=
        fun hj => t.there.length_le (p'.le_nextStatement _ _) hj hfuel'
      have hbelow : SameBlocks f p p' place _ _ _ _ := fun he' hlt hstop hlt' hstop' =>
        ih fuel' he' hstop hstop' (hless hlt) (hless' hlt')
      refine (runLineBy_sameCode hplace H h hf (Likeness.loops_run H rfl) hbelow t scope).bind ?_
      -- The lines where the programs go on have one rank, and both stand further down.
      rintro ⟨next, flow⟩ ⟨next', flow'⟩ ⟨hnext, rfl⟩ hret hret'
      have hprogress := runLineBy_progress p t.here.lt_size hret
      have hprogress' := runLineBy_progress p' t.there.lt_size hret'
      have hrest : SameExtent f p p' { e with start := next } { e' with start := next' } :=
        ⟨hnext, he.stop, .inl hd⟩
      exact Likeness.andThen (A := relocation place limits) flow'
        (ih fuel' hrest hs hs' (hless hprogress.1) (hless' hprogress'.1))
    · rw [runBlock_of_not_runs hr, runBlock_of_not_runs hr']
      exact .pure rfl

theorem runBlock_size_sameCode (H : (relocation place limits).Hosts host host') {e e' : Extent}
    (he : SameExtent f p p' e e') (hs : e.stop ≤ p.size) (hs' : e'.stop ≤ p'.size)
    (scope : Scope) :
    Shadows place Eq (runBlock p (semanticsOf dialect host p) p.size e scope)
      (runBlock p' (semanticsOf dialect host' p') p'.size e' scope) := by
  have hlen (q : Program) (i : Nat) : q.code.length ≤ q.rank i + q.size :=
    Nat.le_trans (List.length_filter_le _ _) (Nat.le_add_left _ _)
  exact runBlock_sameCode h hf hplace H _ _ he hs hs' (hlen p _) (hlen p' _) scope

end Blocks

section Programs

variable {dialect : Dialect} (h : SameCode f p p') (hf : dialect = .braced → f = id)
  (hplace : Carries place p p')
include h hf hplace

/-- Calling a function by its name does the same in both programs. -/
theorem enterFunction_sameCode {body body' : FunctionDef → Scope → Run Value}
    (hbody : ∀ {d d' : FunctionDef}, SameFunction f p p' d d' → d.body.stop ≤ p.size →
      d'.body.stop ≤ p'.size → ∀ scope, Shadows place Eq (body d scope) (body' d' scope))
    (name : String) (args : List Value) :
    Shadows place Eq (enterFunction dialect (functionTable dialect p) limits body name args)
      (enterFunction dialect (functionTable dialect p') limits body' name args) := by
  have hfound := sameCode_functionTable h hf name
  unfold enterFunction
  rcases hd : (functionTable dialect p).get? name with _ | d <;>
    rcases hd' : (functionTable dialect p').get? name with _ | d' <;> rw [hd, hd'] at hfound
  · exact .of_unaware (.throw _)
  · cases hfound
  · cases hfound
  · have hsame := Option.rel_some_some.1 hfound
    have hs := functionTable_stop_le h.numbered hd
    have hs' := functionTable_stop_le h.numbered' hd'
    have H : (relocation place limits).Hosts ⟨dialect, limits, fun _ _ => throw .undefined⟩
        ⟨dialect, limits, fun _ _ => throw .undefined⟩ :=
      ⟨rfl, rfl, rfl, rfl, fun _ _ => (relocation place limits).fault _⟩
    refine (Likeness.describeAll H args).bindEq fun shown => ?_
    rw [hsame.name, hsame.params]
    exact .enter (hplace hsame.line) _ _ _ _ (hbody hsame hs hs')

/-- A call does the same in both programs. -/
theorem callFunction_sameCode : ∀ (room : Nat) (name : String) (args : List Value),
    Shadows place Eq
      (callFunction dialect (semanticsOf dialect) p (functionTable dialect p) limits room name args)
      (callFunction dialect (semanticsOf dialect) p' (functionTable dialect p') limits room name
        args)
  | 0, name, args => by
    refine enterFunction_sameCode h hf hplace (fun hsame _ _ _ => ?_) name args
    rw [hsame.name]
    exact .of_unaware (.throw _)
  | room + 1, name, args => by
    refine enterFunction_sameCode h hf hplace (fun hsame hs hs' scope => ?_) name args
    have H : (relocation place limits).Hosts
        ⟨dialect, limits, callFunction dialect (semanticsOf dialect) p _ limits room⟩
        ⟨dialect, limits, callFunction dialect (semanticsOf dialect) p' _ limits room⟩ :=
      ⟨rfl, rfl, rfl, rfl, callFunction_sameCode room⟩
    exact (runBlock_size_sameCode h hf hplace H hsame.body hs hs' scope).bindEq fun _ => .pure rfl

/-- Programs with the same code do the same, each on its own lines. -/
theorem runProgram_sameCode :
    Shadows place Eq (runProgram dialect limits p) (runProgram dialect limits p') := by
  have H : (relocation place limits).Hosts (hostOf dialect (semanticsOf dialect) p limits)
      (hostOf dialect (semanticsOf dialect) p' limits) :=
    ⟨rfl, rfl, rfl, rfl, callFunction_sameCode h hf hplace _⟩
  have hblock := @runBlock_size_sameCode f p p' place limits _ _ dialect h hf hplace H
  have hsize : SameRank p p' p.size p'.size := by
    rw [SameRank, p.rank_size, p'.rank_size, h.code.length_eq]
  have hzero : SameRank p p' 0 0 := rfl
  rw [runProgram_eq, runProgram_eq]
  cases dialect with
  | indented =>
    have hall : SameExtent f p p' ⟨p.nextCodeLine 0, p.size, (p.line (p.nextCodeLine 0)).depth⟩
        ⟨p'.nextCodeLine 0, p'.size, (p'.line (p'.nextCodeLine 0)).depth⟩ := by
      refine ⟨h.nextCodeLine hzero, hsize, ?_⟩
      by_cases hlt : p.nextCodeLine 0 < p.size
      · exact .inl (h.lines_eq (h.twins_nextCodeLine hzero hlt)).2
      · exact .inr (p.rank_mono (Nat.le_of_not_lt hlt))
    exact (hblock hall (Nat.le_refl _) (Nat.le_refl _) _).bindEq fun _ => .pure rfl
  | braced =>
    obtain rfl := hf rfl
    have hall : SameExtent id p p' ⟨0, p.size, 0⟩ ⟨0, p'.size, 0⟩ := ⟨hzero, hsize, .inl rfl⟩
    refine (hblock hall (Nat.le_refl _) (Nat.le_refl _) _).bindEq fun flow => ?_
    have hfound := sameCode_functionTable h hf "main"
    rcases hd : (functionTable .braced p).get? "main" with _ | d <;>
      rcases hd' : (functionTable .braced p').get? "main" with _ | d' <;> rw [hd, hd'] at hfound
    · exact .pure rfl
    · cases hfound
    · cases hfound
    · have hsame := Option.rel_some_some.1 hfound
      exact Shadows.bindEq (Likeness.andThen (A := relocation place limits) flow (hblock hsame.body
        (functionTable_stop_le h.numbered hd) (functionTable_stop_le h.numbered' hd')))
        fun _ => .pure rfl

theorem outcome_sameCode (limits : Limits) : ∃ (result : Except Fault Unit) (m : Machine),
    (runProgram dialect limits p).outcome {} = (result, m) ∧
      (runProgram dialect limits p').outcome {} = (result, m.relocate place) := by
  rcases @runProgram_sameCode f p p' place limits dialect h hf hplace {} with
    ⟨_, _, m, hx, hy, rfl⟩ | ⟨_, m, hx, hy⟩
  · exact ⟨_, m, hx, hy⟩
  · exact ⟨_, m, hx, hy⟩

end Programs

section Traces

variable {dialect : Dialect} {source source' : String}
  (h : SameCode f (layout dialect source.toList) (layout dialect source'.toList))
  (hf : dialect = .braced → f = id)
include h hf

/-- Sources with the same code have the same steps, on other lines. -/
theorem traceSteps_sameCode
    (hplace : Carries place (layout dialect source.toList) (layout dialect source'.toList))
    (limits : Limits) : (traceSteps dialect limits source').result =
      (traceSteps dialect limits source).result.map (List.map (Step.relocate place)) := by
  obtain ⟨result, m, hx, hy⟩ := outcome_sameCode h hf hplace limits
  rw [traceSteps_eq, traceSteps_eq, hx, hy]
  cases result with
  | error fault => rfl
  | ok _ => exact congrArg Except.ok List.map_reverse.symm

/-- Sources with the same code on the same lines have the same run. -/
theorem traceSteps_sameLines
    (hplace : Carries id (layout dialect source.toList) (layout dialect source'.toList))
    (limits : Limits) : traceSteps dialect limits source' = traceSteps dialect limits source := by
  obtain ⟨result, m, hx, hy⟩ := outcome_sameCode h hf hplace limits
  rw [traceSteps_eq, traceSteps_eq, hx, hy, Machine.relocate_id]

end Traces

end Stepwise
