import Stepwise.Proofs.Layouts
import Stepwise.Proofs.RegimeRuns

/-!
# Function bodies run only through calls

In the indented dialect the body of a definition is found twice: by the scan that fills the function
table, and by the run when it passes over the definition. A run outside of all calls never enters a
body, and the run of a call never leaves the body of its function, however the lines are indented.

The lines that a block of statements leads to, its own lines further down and the lines of bodies
and branches in it, all stand below one of its lines with nothing less deep in between (`Follows`).
So a set of lines that is closed under this relation is a region (`Region.following`). The lines
outside of all bodies are such a set, and so are the lines of one body.
-/

namespace Stepwise

open Source Run

namespace Source.Program

variable {p : Program} {i j k start depth : Nat}

theorem depth_lt_bodyDepth (hu : 0 < p.indentUnit) (i : Nat) :
    (p.line i).depth < p.bodyDepth i := by
  unfold bodyDepth
  dsimp only
  split_ifs
  · assumption
  · omega

theorem HasCode.depth_le (hj : p.HasCode j) (hij : i ≤ j) (h : j < p.blockEnd i depth) :
    depth ≤ (p.line j).depth :=
  of_decide_eq_true (hj.of_lt_skip hij h)

theorem lt_blockEnd (hj : j < p.size)
    (h : ∀ k, i ≤ k → k ≤ j → p.HasCode k → depth ≤ (p.line k).depth) :
    j < p.blockEnd i depth :=
  lt_skip hj fun k hik hkj hk => decide_eq_true (h k hik hkj hk)

/-- A block inside another one ends no later. -/
theorem blockEnd_le_blockEnd {depth' : Nat} (hs : start ≤ p.size)
    (hle : start ≤ p.blockEnd i depth) (hd : depth ≤ depth') :
    p.blockEnd start depth' ≤ p.blockEnd i depth := by
  by_cases hb : p.blockEnd i depth < p.size
  · obtain ⟨hcode, hshallow⟩ := stop_skip hb
    have hlt := of_decide_eq_false hshallow
    exact hcode.skip_le hle (decide_eq_false (by rw [← blockEnd_eq_skip] at hlt ⊢; omega))
  · exact Nat.le_trans (p.blockEnd_le _ hs) (Nat.le_of_not_lt hb)

theorem nextCodeLine_le_blockEnd (hs : start ≤ p.size) (hle : start ≤ p.blockEnd i depth) :
    p.nextCodeLine start ≤ p.blockEnd i depth := by
  by_cases hb : p.blockEnd i depth < p.size
  · rw [nextCodeLine_eq_skip]
    exact (stop_skip hb).1.skip_le hle rfl
  · exact Nat.le_trans (p.nextCodeLine_le hs) (Nat.le_of_not_lt hb)

/-- The line at `j` stands below the one at `i` and is no less deep, and all code between them is no
less deep than it. -/
structure Follows (p : Program) (i j : Nat) : Prop where
  lt : i < j
  code : p.HasCode j
  deep : (p.line i).depth ≤ (p.line j).depth
  between : ∀ k, i < k → k < j → p.HasCode k → (p.line j).depth ≤ (p.line k).depth

section Follows

variable (hu : 0 < p.indentUnit)
include hu

theorem body_stop_le_blockEnd (hi : i < p.size) (hlt : i < p.blockEnd start depth)
    (hd : depth ≤ (p.line i).depth) : (p.body i).stop ≤ p.blockEnd start depth := by
  have := p.depth_lt_bodyDepth hu i
  exact blockEnd_le_blockEnd hi hlt (by omega)

theorem follows_body (hj : p.HasCode j) (hij : i < j) (hlt : j < (p.body i).stop)
    (hd : (p.line j).depth = p.bodyDepth i) : p.Follows i j := by
  refine ⟨hij, hj, ?_, fun k hik hkj hk => ?_⟩
  · rw [hd]
    exact Nat.le_of_lt (p.depth_lt_bodyDepth hu i)
  · rw [hd]
    exact hk.depth_le hik (Nat.lt_trans hkj hlt)

/-- A branch behind the body of another one. -/
theorem follows_branch (h : Indented.codeLineAt? p (p.line i).depth (p.body i).stop = some j) :
    p.Follows i j := by
  obtain ⟨hle, hlt, hnext, hd⟩ := Indented.codeLineAt?_eq_some p _ h
  have hbody := p.body_stop i
  refine ⟨by omega, ?_, Nat.le_of_eq hd.symm, fun k hik hkj hk => ?_⟩
  · rw [hnext] at hlt ⊢
    exact hasCode_nextCodeLine hlt
  · rw [hd]
    by_cases hinside : k < (p.body i).stop
    · have hdeep := p.depth_lt_bodyDepth hu i
      have := hk.depth_le hik hinside
      omega
    · rw [hnext, nextCodeLine_eq_skip] at hkj
      cases hk.of_lt_skip (Nat.le_of_not_lt hinside) hkj

end Follows

/-- What follows a line of a block is in the block. -/
theorem Follows.lt_blockEnd (h : p.Follows i j) (hi : p.HasCode i) (hle : start ≤ i)
    (hlt : i < p.blockEnd start depth) : j < p.blockEnd start depth := by
  have hd := hi.depth_le hle hlt
  have hdeep := h.deep
  refine Program.lt_blockEnd h.code.lt_size fun k hsk hkj hk => ?_
  rcases Nat.lt_or_ge i k with hik | hki
  · rcases Nat.lt_or_eq_of_le hkj with hkj | rfl
    · have := h.between k hik hkj hk
      omega
    · omega
  · exact hk.depth_le hsk (Nat.lt_of_le_of_lt hki hlt)

end Source.Program

namespace Indented

variable {p : Program} (hu : 0 < p.indentUnit) {i j : Nat}
include hu

/-- A branch of the chain at `i`, seen from the block of lines as deep as `i`. -/
theorem branch_lt_blockEnd {start stop depth : Nat} (hle : stop ≤ p.blockEnd start depth)
    (h : codeLineAt? p depth stop = some j) (hs : stop ≤ p.size) :
    j < p.blockEnd start depth ∧ (p.body j).stop ≤ p.blockEnd start depth := by
  obtain ⟨hstop, hlt, hnext, hd⟩ := codeLineAt?_eq_some p depth h
  have hjle : j ≤ p.blockEnd start depth := hnext ▸ p.nextCodeLine_le_blockEnd hs hle
  have hne : j ≠ p.blockEnd start depth := by
    rintro rfl
    have hshallow := of_decide_eq_false (Program.stop_skip hlt).2
    exact hshallow (Nat.le_of_eq hd.symm)
  have hjlt := Nat.lt_of_le_of_ne hjle hne
  have := p.depth_lt_bodyDepth hu j
  exact ⟨hjlt, Program.blockEnd_le_blockEnd hlt hjlt (by omega)⟩

theorem skipBranches_le {start depth : Nat} : ∀ (fuel : Nat) {stop : Nat}, stop ≤ p.size →
    stop ≤ p.blockEnd start depth → skipBranches p depth fuel stop ≤ p.blockEnd start depth
  | 0, _, hs, hle => p.nextCodeLine_le_blockEnd hs hle
  | fuel + 1, stop, hs, hle => by
    rw [skipBranches]
    split
    · rename_i j hj
      obtain ⟨hjlt, hbody⟩ := branch_lt_blockEnd hu hle hj hs
      split_ifs
      · exact skipBranches_le fuel (p.body_stop_le (codeLineAt?_eq_some p depth hj).2.1) hbody
      · exact Nat.le_of_lt hjlt
    · exact p.nextCodeLine_le_blockEnd hs hle

/-- A chain in a block goes on in that block, or at its end. -/
theorem chainFrom_resume_le {start depth : Nat} : ∀ (fuel : Nat) {i : Nat}, i < p.size →
    (p.line i).depth = depth → i < p.blockEnd start depth →
      (chainFrom p depth fuel i).All (fun _ => True) (· ≤ p.blockEnd start depth)
  | 0, _, _, _, hlt => Nat.le_of_lt hlt
  | fuel + 1, i, hi, hd, hlt => by
    have hbody := p.body_stop_le_blockEnd hu hi hlt (Nat.le_of_eq hd.symm)
    have hstop := p.body_stop_le hi
    rw [chainFrom]
    split
    · exact hlt
    · refine ⟨trivial, skipBranches_le hu p.size hstop hbody, ?_⟩
      split
      · rename_i j hj
        obtain ⟨-, hjlt, -, hjd⟩ := codeLineAt?_eq_some p depth hj
        obtain ⟨hjend, hjbody⟩ := branch_lt_blockEnd hu hbody hj hstop
        split_ifs
        · exact chainFrom_resume_le fuel hjlt hjd hjend
        · exact ⟨trivial, hjbody⟩
        · exact hbody
      · exact hbody

/-- A line leads to a later one, with nothing less deep in between. -/
theorem leadsTo_bounds (hi : p.HasCode i) {next : Nat} (h : LeadsTo .indented p i next) :
    i < next ∧ next ≤ p.blockEnd i (p.line i).depth := by
  obtain ⟨host, runBlock, scope, flow, h⟩ := h
  rw [semanticsOf_eq] at h
  have hlt : i < p.blockEnd i (p.line i).depth := Program.lt_blockEnd hi.lt_size
    fun k hik hki _ => by rw [Nat.le_antisymm hki hik]
  refine ⟨(runLineBy_progress p hi.lt_size h).1, ?_⟩
  exact Indented.runLineBy_next p (Q := (· ≤ p.blockEnd i (p.line i).depth))
    (p.body_stop_le_blockEnd hu hi.lt_size hlt (Nat.le_refl _)) hlt
    (chainFrom_resume_le hu p.size hi.lt_size rfl hlt) h

end Indented

namespace Source.Program.RunsNext

variable {p : Program} {e : Extent} {i j : Nat} (h : p.RunsNext e i) (hs : e.stop ≤ p.size)
include h hs

/-- A block goes on at its first line that is as deep as the block. -/
theorem at_depth : p.HasCode i ∧ (p.line i).depth = e.depth := by
  obtain ⟨rfl, hlt, hd⟩ := h
  obtain ⟨hcode, hq⟩ := stop_skip (Nat.lt_of_lt_of_le hlt hs)
  have hdeep := of_decide_eq_false hq
  exact ⟨hcode, Nat.le_antisymm (Nat.le_of_not_lt hdeep) hd⟩

omit hs in
theorem passed (hj : p.HasCode j) (hstart : e.start ≤ j) (hji : j < i) :
    e.depth < (p.line j).depth := by
  obtain ⟨rfl, -, -⟩ := h
  exact of_decide_eq_true (hj.of_lt_skip hstart hji)

/-- What is in the block from some later line on is in the whole block. -/
theorem lt_blockEnd_of {next : Nat} (hnext : next ≤ p.blockEnd i (p.line i).depth)
    (hj : j < p.size) (hlt : ∀ k, next ≤ k → k ≤ j → p.HasCode k → e.depth ≤ (p.line k).depth) :
    j < p.blockEnd e.start e.depth := by
  obtain ⟨-, hd⟩ := h.at_depth hs
  refine lt_blockEnd hj fun k hstart hkj hk => ?_
  rcases Nat.lt_or_ge k i with hki | hik
  · exact Nat.le_of_lt (h.passed hk hstart hki)
  · rcases Nat.lt_or_ge k next with hkn | hnk
    · rw [← hd]
      exact hk.depth_le hik (Nat.lt_of_lt_of_le hkn hnext)
    · exact hlt k hnk hkj hk

end Source.Program.RunsNext

/-- A set of lines that contains what follows its lines, other than definitions. A block keeps to it
if its lines that are as deep as the block do. -/
def Region.following {p : Program} (hu : 0 < p.indentUnit) (S : Nat → Prop)
    (hS : ∀ {i j}, p.HasCode i → Indented.definition? (p.line i).text = none → S i →
      p.Follows i j → S j) : Region .indented p where
  Line := fun i => p.HasCode i ∧ S i
  Block := fun e => e.stop ≤ p.size ∧ ∀ j, e.start ≤ j → j < e.stop →
    j < p.blockEnd e.start e.depth → p.HasCode j → (p.line j).depth = e.depth → S j
  line := fun ⟨hstop, hlines⟩ hi => by
    obtain ⟨hcode, hd⟩ := hi.at_depth hstop
    have hin := hi.lt_blockEnd_of hstop (Program.le_blockEnd _ _ _) hcode.lt_size
      fun k hik hki _ => by rw [Nat.le_antisymm hki hik, hd]
    exact ⟨hcode, hlines _ (hi.1 ▸ p.le_nextStatement _ _) hi.2.1 hin hcode hd⟩
  next := fun ⟨hstop, hlines⟩ hi hnext => by
    obtain ⟨hcode, hd⟩ := hi.at_depth hstop
    obtain ⟨hlt, hle⟩ := Indented.leadsTo_bounds hu hcode hnext
    have hstart := hi.1 ▸ p.le_nextStatement _ _
    have hfrom := Nat.le_trans hstart (Nat.le_of_lt hlt)
    refine ⟨hstop, fun j hnj hj hin hjc hjd => hlines j (Nat.le_trans hfrom hnj) hj ?_ hjc hjd⟩
    exact hi.lt_blockEnd_of hstop hle hjc.lt_size
      fun k hnk hkj hk => hk.depth_le hnk (Nat.lt_of_le_of_lt hkj hin)
  indentedBody := fun _ ⟨hi, hs⟩ hshape => by
    have hdef := Indented.shape_ne_define_iff.1 hshape
    exact ⟨p.body_stop_le hi.lt_size, fun j hij hlt _ hj hd =>
      hS hi hdef hs (Program.follows_body hu hj hij hlt hd)⟩
  indentedChain := fun _ hi hshape => by
    refine Indented.chainFrom_each (fun ⟨hi, hs⟩ hdef => ?_) (fun ⟨hi, hs⟩ hd hdef hj => ?_)
      p.size hi rfl (Indented.definition?_of_branch hshape)
    · exact ⟨p.body_stop_le hi.lt_size, fun j hij hlt _ hj hd =>
        hS hi hdef hs (Program.follows_body hu hj hij hlt hd)⟩
    · have hfollows := Program.follows_branch hu (hd.symm ▸ hj)
      exact ⟨hfollows.code, hS hi hdef hs hfollows⟩
  bracedBody := fun h => by cases h
  bracedChain := fun h => by cases h

section Bodies

variable {p : Program}

/-- A line that is not in the body of any definition. -/
def Outside (p : Program) (j : Nat) : Prop :=
  ∀ k, p.HasCode k → Indented.definition? (p.line k).text ≠ none → k < j → (p.body k).stop ≤ j

/-- A line in the body of the function of that name. -/
def InBody (p : Program) (name : String) (j : Nat) : Prop :=
  ∃ f, (functionTable .indented p).get? name = some f ∧ f.bodyStart ≤ j ∧ j < f.bodyEnd

/-- What follows a line outside of all bodies is outside too, unless the line is a definition. -/
theorem Outside.follows (hu : 0 < p.indentUnit) {i j : Nat}
    (hdef : Indented.definition? (p.line i).text = none) (h : Outside p i) (hij : p.Follows i j) :
    Outside p j := by
  intro k hk hkdef hkj
  refine Nat.le_of_not_lt fun hlt => ?_
  have hdeep := hij.code.depth_le hkj hlt
  have hheader := p.depth_lt_bodyDepth hu k
  -- a body that contains `j` and not `i` has its header in between, where it is not shallow enough
  rcases Nat.lt_trichotomy k i with hki | rfl | hik
  · have := h k hk hkdef hki
    have := hij.lt
    omega
  · exact hkdef hdef
  · have := hij.between k hik hkj hk
    omega

theorem InBody.follows (hp : p.Numbered) {name : String} {i j : Nat} (hi : p.HasCode i)
    (h : InBody p name i) (hij : p.Follows i j) : InBody p name j := by
  obtain ⟨f, hf, hstart, hlt⟩ := h
  obtain ⟨-, k, -, -, hk, hend⟩ := functionTable_spec hp hf
  rw [hend, ← hk] at hlt
  refine ⟨f, hf, Nat.le_trans hstart (Nat.le_of_lt hij.lt), ?_⟩
  rw [hend, ← hk]
  exact hij.lt_blockEnd hi hstart hlt

/-- Outside of all calls no line of a body is reached, and in a call only lines of its body. -/
def Region.ofCalls (hu : 0 < p.indentUnit) (hp : p.Numbered) : List Frame → Region .indented p
  | [] => .following hu (Outside p) fun _ hdef => Outside.follows hu hdef
  | frame :: _ => .following hu (InBody p frame.function) fun hi _ => InBody.follows hp hi

/-- A step outside of all bodies or in the body of its call. -/
structure Step.InPlace (p : Program) (s : Step) : Prop where
  outside : s.callStack = [] → ∃ i : Nat, s.line = i ∧ Outside p i
  inside : ∀ frame, s.callStack.getLast? = some frame →
    ∃ f, (functionTable .indented p).get? frame.function = some f ∧
      ((s.kind = .functionCall ∧ s.line = f.headerLine) ∨
        (f.bodyStart ≤ s.line ∧ s.line < f.bodyEnd))

theorem Step.inPlace_of_line {hu : 0 < p.indentUnit} {hp : p.Numbered} {s : Step}
    {frames : List Frame} {line : Nat} (hs : s.callStack = frames.reverse) (hline : s.line = line)
    (h : (Region.ofCalls hu hp frames).Line line) : s.InPlace p := by
  cases frames with
  | nil =>
    refine ⟨fun _ => ⟨line, hline, h.2⟩, fun frame hframe => ?_⟩
    rw [hs] at hframe
    cases hframe
  | cons top frames =>
    rw [List.reverse_cons] at hs
    refine ⟨fun hnil => ?_, fun frame hframe => ?_⟩
    · rw [hs] at hnil
      simp at hnil
    · rw [hs, List.getLast?_concat] at hframe
      cases hframe
      obtain ⟨-, f, hf, hstart, hlt⟩ := h
      exact ⟨f, hf, .inr (by rw [hline]; omega)⟩

theorem Step.inPlace_of_call (hp : p.Numbered) {s : Step} {name : String} {f : FunctionDef}
    (hf : (functionTable .indented p).get? name = some f) {frame : Frame} {frames : List Frame}
    (hframe : frame.function = f.name) (hs : s.callStack = (frame :: frames).reverse)
    (hkind : s.kind = .functionCall) (hline : s.line = f.headerLine) : s.InPlace p := by
  rw [List.reverse_cons] at hs
  refine ⟨fun hnil => ?_, fun top htop => ?_⟩
  · rw [hs] at hnil
    simp at hnil
  · rw [hs, List.getLast?_concat] at htop
    cases htop
    rw [hframe, (functionTable_spec hp hf).1]
    exact ⟨f, hf, .inl ⟨hkind, hline⟩⟩

/-- Steps in place are a regime. -/
def Regime.inPlace (hu : 0 < p.indentUnit) (hp : p.Numbered) (limits : Limits) :
    Regime .indented p limits where
  values := .any .indented
  region := Region.ofCalls hu hp
  Busy := fun r => ∀ s ∈ r.log, s.InPlace p
  Calm := fun r => ∀ s ∈ r.log, s.InPlace p
  Over := fun r => ∀ s ∈ r.log, s.InPlace p
  Wrecked := fun r => ∀ s ∈ r.log, s.InPlace p
  busy_of_calm := id
  wrecked_of_busy := id
  write := fun _ _ => id
  warn := fun _ => id
  count := id
  calm_step := fun _ _ h _ hl _ _ => List.forall_mem_cons.2 ⟨Step.inPlace_of_line rfl rfl hl, h⟩
  over_return := fun _ h hl _ _ => List.forall_mem_cons.2 ⟨Step.inPlace_of_line rfl rfl hl, h⟩
  calm_call := fun _ h hf _ _ _ =>
    List.forall_mem_cons.2 ⟨Step.inPlace_of_call hp hf rfl rfl rfl rfl, h⟩
  call_block := fun shown hf => by
    have hname := (functionTable_spec hp hf).1
    exact ⟨functionTable_stop_le hp hf, fun j hstart hlt _ _ _ => ⟨_, hname ▸ hf, hstart, hlt⟩⟩
  busy_pop := fun _ h => h
  over_pop := fun _ h => h
  wrecked_pop := fun _ h => h

theorem Regime.inPlace_starts (hu : 0 < p.indentUnit) (hp : p.Numbered) (limits : Limits) :
    (inPlace hu hp limits).Starts [] := by
  refine ⟨Nat.le_refl p.size, fun j hfirst _ hin hj hd k hk hdef hkj => ?_⟩
  refine Nat.le_of_not_lt fun hlt => ?_
  -- the header would be less deep than the first line with code, which is above it
  have hfirst : p.nextCodeLine 0 ≤ k := by
    rw [Program.nextCodeLine_eq_skip]
    exact hk.skip_le (Nat.zero_le k) rfl
  have hk' := hk.depth_le hfirst (Nat.lt_trans hkj hin)
  have hdeep := hj.depth_le hkj hlt
  have hheader := p.depth_lt_bodyDepth hu k
  dsimp only at hd hk'
  omega

end Bodies

namespace Indented

variable {p : Program}

/-- The body of a function that a line defines, as the run finds it. -/
theorem functionAt?_body {l : Line} {f : FunctionDef} (h : functionAt? p l = some f) :
    definition? l.text ≠ none ∧ f.body = p.body l.number := by
  unfold functionAt? at h
  split_ifs at h
  obtain ⟨d, hd, rfl⟩ := Option.map_eq_some_iff.1 h
  exact ⟨by rw [hd]; exact Option.some_ne_none d, rfl⟩

theorem leadsTo_define {i next : Nat} (hdef : definition? (p.line i).text ≠ none)
    (h : LeadsTo .indented p i next) : next = (p.body i).stop := by
  obtain ⟨host, runBlock, scope, flow, h⟩ := h
  change Returns (runLine host p runBlock i scope) (next, flow) at h
  obtain ⟨name, hshape⟩ : ∃ name, shape (p.line i).text = .define name := by
    by_contra hno
    exact hdef (shape_ne_define_iff.1 fun name hname => hno ⟨name, hname⟩)
  unfold runLine at h
  simp only [hshape] at h
  obtain ⟨_, -, h⟩ := h.of_bind
  cases h.of_pure
  rfl

end Indented

/-- Function bodies run only through calls, and only the bodies in the table. -/
structure BodiesKept (p : Program) (steps : List Step) : Prop where
  outside : ∀ s ∈ steps, s.callStack = [] → ∀ name f,
    (functionTable .indented p).get? name = some f → ¬ (f.bodyStart ≤ s.line ∧ s.line < f.bodyEnd)
  inside : ∀ s ∈ steps, ∀ frame, s.callStack.getLast? = some frame →
    ∃ f, (functionTable .indented p).get? frame.function = some f ∧
      ((s.kind = .functionCall ∧ s.line = f.headerLine) ∨
        (f.bodyStart ≤ s.line ∧ s.line < f.bodyEnd))
  /-- Nor does the body of a definition run that a later one replaces. -/
  replaced : ∀ s ∈ steps, s.callStack = [] → ∀ l ∈ p.lines, ∀ f,
    Indented.functionAt? p l = some f → ¬ (f.bodyStart ≤ s.line ∧ s.line < f.bodyEnd)
  /-- A run passes over the very lines that were found to be the body. -/
  skipped : ∀ l ∈ p.lines, ∀ f, Indented.functionAt? p l = some f →
    ∀ next, LeadsTo .indented p f.headerLine next → next = f.bodyEnd

/-- If every step is in place, function bodies run only through calls. -/
theorem bodiesKept_of_inPlace {p : Program} (hp : p.Numbered) {steps : List Step}
    (h : ∀ s ∈ steps, s.InPlace p) : BodiesKept p steps := by
  have scanned : ∀ l ∈ p.lines, ∀ f, Indented.functionAt? p l = some f →
      ∃ i, p.HasCode i ∧ Indented.definition? (p.line i).text ≠ none ∧ f.headerLine = i ∧
        f.body = p.body i := by
    intro l hl f hf
    obtain ⟨i, hi⟩ := List.mem_iff_getElem?.1 hl
    have hlt : i < p.size := (List.getElem?_eq_some_iff.1 hi).1
    have hline : p.line i = l := Option.some.inj ((Program.getElem?_line hlt).symm.trans hi)
    have hspec := @functionAt?_spec .indented p l f hf
    obtain ⟨hdef, hbody⟩ := Indented.functionAt?_body hf
    rw [hp i l hi] at hspec hbody
    exact ⟨i, ⟨hlt, hline ▸ hspec.1⟩, hline ▸ hdef, hspec.2.1, hbody⟩
  have replaced : ∀ s ∈ steps, s.callStack = [] → ∀ l ∈ p.lines, ∀ f,
      Indented.functionAt? p l = some f → ¬ (f.bodyStart ≤ s.line ∧ s.line < f.bodyEnd) := by
    rintro s hs hstack l hl f hf ⟨hstart, hlt⟩
    obtain ⟨i, hi, hdef, -, hbody⟩ := scanned l hl f hf
    obtain ⟨j, hj, hout⟩ := (h s hs).outside hstack
    have hstart' : f.bodyStart = i + 1 := congrArg Extent.start hbody
    have hend : f.bodyEnd = (p.body i).stop := congrArg Extent.stop hbody
    have := hout i hi hdef (by omega)
    omega
  refine ⟨fun s hs hstack name f hf => ?_, fun s hs => (h s hs).inside, replaced, ?_⟩
  · obtain ⟨-, i, l, hi, hat⟩ := functionTable_source hf
    exact replaced s hs hstack l (List.mem_of_getElem? hi) f hat
  · intro l hl f hf next hnext
    obtain ⟨i, -, hdef, hheader, hbody⟩ := scanned l hl f hf
    rw [hheader] at hnext
    rw [Indented.leadsTo_define hdef hnext]
    exact (congrArg Extent.stop hbody).symm

/-- In every trace of the indented dialect function bodies run only through calls. -/
theorem traceSteps_bodiesKept (limits : Limits) (source : String) {steps : List Step}
    (h : (traceSteps .indented limits source).result = .ok steps) :
    BodiesKept (layout .indented source.toList) steps := by
  have hp := layout_numbered .indented source.toList
  have hu := indentUnit_pos .indented source.toList
  obtain ⟨m, -, rfl, -, hreturned⟩ := Regime.exists_end (.inl fun _ => id)
    (Regime.inPlace_starts hu hp limits) trivial (by simp [Regime.inPlace]) h
  have hlog : ∀ s ∈ m.recorder.log, s.InPlace (layout .indented source.toList) :=
    hreturned.elim id id
  exact bodiesKept_of_inPlace hp fun s hs => hlog s (List.mem_reverse.1 hs)

/-- A function that is defined twice: first with another function inside, then deeper than the code
around it. -/
theorem traceSteps_bodiesKept_nested :
    let source :=
      "if 1:\n  def f():\n      def g():\n            x = 1\n    def f():\n        y = 2\nf()\nf()"
    ∃ steps, (traceSteps .indented {} source).result = .ok steps ∧
      (∃ s ∈ steps, s.callStack ≠ [] ∧ s.kind ≠ .functionCall) ∧
        BodiesKept (layout .indented source.toList) steps := by
  intro source
  have hinside : (traceSteps .indented {} source).result.toOption.any
      (fun steps => steps.any fun s =>
        !s.callStack.isEmpty && !decide (s.kind = .functionCall)) = true := by decide +kernel
  obtain ⟨steps, hresult, hcall⟩ := exists_steps hinside
  exact ⟨steps, hresult, by simpa using hcall, traceSteps_bodiesKept {} source hresult⟩

end Stepwise
