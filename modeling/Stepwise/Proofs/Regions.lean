import Stepwise.Proofs.CodeLines
import Stepwise.Proofs.LineRuns

/-!
# Regions of a program

A `Region` is a set of lines that a run cannot leave by itself: the lines at which a block of the
region goes on are in it, and so are the lines and bodies of the branches and loops that stand there.
Only a call goes to another region. The lines with code are one (`Region.code`).
-/

namespace Stepwise

open Source Text

variable {dialect : Dialect} {p : Program}

/-- Every line where a chain records a step satisfies `L`, and every body satisfies `B`. -/
def Chain.Each {β : Type} (L : Nat → Prop) (B : β → Prop) : Chain β → Prop
  | guarded line _ body _ rest => L line ∧ B body ∧ rest.Each L B
  | otherwise body _ => B body
  | malformed line _ => L line
  | done _ => True

/-- A body is a block that satisfies `B`, or statements on a line that satisfies `L`. -/
def Braced.Body.Each (L : Nat → Prop) (B : Extent → Prop) : Body → Prop
  | lines extent => B extent
  | inline header _ => L header

/-- The line at which a block goes on. -/
def Source.Program.RunsNext (p : Program) (e : Extent) (i : Nat) : Prop :=
  i = p.nextStatement e.start e.depth ∧ i < e.stop ∧ e.depth ≤ (p.line i).depth

/-- A line can hand back another one as the place where its block goes on. -/
def LeadsTo (dialect : Dialect) (p : Program) (i next : Nat) : Prop :=
  ∃ host runBlock scope flow,
    Returns (semanticsOf dialect host p runBlock i scope) (next, flow)

/-- Lines and blocks that a run does not leave without a call. -/
structure Region (dialect : Dialect) (p : Program) where
  Line : Nat → Prop
  Block : Extent → Prop
  line : ∀ {e : Extent} {i : Nat}, Block e → p.RunsNext e i → Line i
  next : ∀ {e : Extent} {i next : Nat}, Block e → p.RunsNext e i → LeadsTo dialect p i next →
    Block { e with start := next }
  indentedBody : ∀ {i : Nat}, dialect = .indented → Line i →
    (∀ name, Indented.shape (p.line i).text ≠ .define name) → Block (p.body i)
  indentedChain : ∀ {i : Nat}, dialect = .indented → Line i →
    Indented.shape (p.line i).text = .branch → (Indented.chainAt p i).Each Line Block
  bracedBody : ∀ {i : Nat}, dialect = .braced → Line i → ∀ rest,
    (Braced.bodyAt p i rest).Each Line Block
  bracedChain : ∀ {i : Nat}, dialect = .braced → Line i →
    (Braced.chainAt p i).Each Line fun body => body.Each Line Block

theorem Chain.Each.of_all {β : Type} {L : Nat → Prop} {B : β → Prop} (hl : ∀ i, L i)
    (hb : ∀ b, B b) : ∀ c : Chain β, c.Each L B
  | guarded line _ body _ rest => ⟨hl line, hb body, of_all hl hb rest⟩
  | otherwise body _ => hb body
  | malformed line _ => hl line
  | done _ => trivial

theorem Braced.Body.Each.trivial : ∀ body : Body, body.Each (fun _ => True) fun _ => True
  | lines _ => True.intro
  | inline _ _ => True.intro

/-- All lines. -/
def Region.everywhere (dialect : Dialect) (p : Program) : Region dialect p where
  Line := fun _ => True
  Block := fun _ => True
  line := fun _ _ => trivial
  next := fun _ _ _ => trivial
  indentedBody := fun _ _ _ => trivial
  indentedChain := fun _ _ _ => .of_all (fun _ => trivial) (fun _ => trivial) _
  bracedBody := fun _ _ _ => .trivial _
  bracedChain := fun _ _ => .of_all (fun _ => trivial) .trivial _

namespace Indented

theorem definition?_of_ne {c : Char} (hc : 'd' ≠ c) (rest : List Char) :
    definition? (c :: rest) = none := by
  have hword : dropWord? "def" (c :: rest) = none := if_neg (by simp [hc])
  simp [definition?, hword]

theorem definition?_of_elif {text : List Char} (h : isElif text = true) :
    definition? text = none := by
  rcases text with _ | ⟨c, rest⟩
  · rfl
  · exact definition?_of_ne (by rintro rfl; cases h) rest

theorem definition?_of_else {text : List Char} (h : isElse text = true) :
    definition? text = none := by
  rcases text with _ | ⟨c, rest⟩
  · rfl
  · exact definition?_of_ne (by rintro rfl; cases h) rest

theorem shape_ne_define_iff {text : List Char} :
    (∀ name, shape text ≠ .define name) ↔ definition? text = none := by
  unfold shape
  cases definition? text with
  | some d => simp
  | none =>
    refine iff_of_true (fun name => ?_) rfl
    dsimp only
    repeat' split
    all_goals simp

theorem definition?_of_branch {text : List Char} (h : shape text = .branch) :
    definition? text = none :=
  shape_ne_define_iff.1 fun name hd => by rw [h] at hd; cases hd

/-- A chain stays among lines that satisfy `L` if the branch behind each of its bodies does. -/
theorem chainFrom_each {L : Nat → Prop} {B : Extent → Prop} {depth : Nat}
    (hbody : ∀ {i}, L i → definition? (p.line i).text = none → B (p.body i))
    (hnext : ∀ {i j}, L i → (p.line i).depth = depth → definition? (p.line i).text = none →
      codeLineAt? p depth (p.body i).stop = some j → L j) :
    ∀ (fuel : Nat) {i : Nat}, L i → (p.line i).depth = depth →
      definition? (p.line i).text = none → (chainFrom p depth fuel i).Each L B
  | 0, _, _, _, _ => trivial
  | fuel + 1, i, hi, hdepth, hdef => by
    rw [chainFrom]
    split
    · exact hi
    · refine ⟨hi, hbody hi hdef, ?_⟩
      split
      · rename_i j hj
        have hj' := hnext hi hdepth hdef hj
        split_ifs with helif helse
        · exact chainFrom_each hbody hnext fuel hj' (codeLineAt?_eq_some p depth hj).2.2.2
            (definition?_of_elif helif)
        · exact hbody hj' (definition?_of_else helse)
        · trivial
      · trivial

end Indented

namespace Braced

variable {i : Nat}

theorem bodyAt_hasCode (hi : p.HasCode i) (rest : List Char) :
    (bodyAt p i rest).Each p.HasCode (·.stop ≤ p.size) := by
  have hresume := (bodyAt_resume p hi.lt_size rest).2
  unfold bodyAt bodyWith at hresume ⊢
  dsimp only at hresume ⊢
  split_ifs at hresume ⊢
  all_goals first | exact hi | exact hresume

theorem chainWith_hasCode {depth : Nat} {later : Nat → Chain Body}
    (hlater : ∀ j, p.HasCode j →
      (later j).Each p.HasCode fun body => body.Each p.HasCode (·.stop ≤ p.size))
    (hi : p.HasCode i) : ∀ line : BranchLine, (chainWith p depth later i line).Each p.HasCode
      fun body => body.Each p.HasCode (·.stop ≤ p.size)
  | .malformed _ => hi
  | .last _ rest => by
    refine ⟨hi, bodyAt_hasCode hi rest, ?_⟩
    dsimp only
    split_ifs with hc hif
    all_goals try trivial
    all_goals
      simp only [Bool.and_eq_true, decide_eq_true_eq] at hc
      have hnext := Program.hasCode_nextCodeLine hc.1.1
    · exact hlater _ hnext
    · exact bodyAt_hasCode hnext _
  | .otherwise _ rest elseRest => ⟨hi, bodyAt_hasCode hi rest, bodyAt_hasCode hi elseRest⟩
  | .elseIf _ rest more => ⟨hi, bodyAt_hasCode hi rest, chainWith_hasCode hlater hi more⟩

theorem chainFrom_hasCode {depth : Nat} : ∀ (fuel : Nat) {i : Nat}, p.HasCode i →
    (chainFrom p depth fuel i).Each p.HasCode fun body => body.Each p.HasCode (·.stop ≤ p.size)
  | 0, _, _ => trivial
  | fuel + 1, _, hi => chainWith_hasCode (fun _ => chainFrom_hasCode fuel) hi _

end Braced

/-- The lines with code. -/
def Region.code (dialect : Dialect) (p : Program) : Region dialect p where
  Line := p.HasCode
  Block := fun e => e.stop ≤ p.size
  line := fun he hi => by
    obtain ⟨rfl, hlt, -⟩ := hi
    exact Program.hasCode_skip (Nat.lt_of_lt_of_le hlt he)
  next := fun he _ _ => he
  indentedBody := fun _ hi _ => p.body_stop_le hi.lt_size
  indentedChain := fun _ hi hshape => Indented.chainFrom_each
    (fun hi _ => p.body_stop_le hi.lt_size)
    (fun _ _ _ hj => by
      obtain ⟨-, hlt, hnext, -⟩ := Indented.codeLineAt?_eq_some p _ hj
      rw [hnext] at hlt ⊢
      exact Program.hasCode_nextCodeLine hlt)
    p.size hi rfl (Indented.definition?_of_branch hshape)
  bracedBody := fun _ hi => Braced.bodyAt_hasCode hi
  bracedChain := fun _ hi => Braced.chainFrom_hasCode p.size hi

end Stepwise
