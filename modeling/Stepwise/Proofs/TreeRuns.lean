import Stepwise.Proofs.LineRuns
import Stepwise.Proofs.Tree

/-!
# Trees in programs

The rows of a tree stand somewhere in the lines of a program (`Placed`), with other lines below
them. If the lines of single statements do what the statements do, so do whole blocks
(`runsBlocks`), calls (`callFunction_eq`) and the host that programs are run with (`hostOf_eq`).
-/

namespace Stepwise

open Source Text

variable {G : Grammar}

section Heights

mutual

theorem Stmt.length_rows : ∀ (s : Stmt G) (d : Nat), (s.rows d).length = s.height
  | .simple _, _ => rfl
  | .branch _ body rest, d => by
    simp only [Stmt.rows, Stmt.height, List.length_cons, List.length_append, body.length_rows,
      rest.length_rows]
    omega
  | .compound _ body, d => by
    simp only [Stmt.rows, Stmt.height, List.length_cons, List.length_append, body.length_rows,
      List.length_map]
    omega

theorem Branches.length_rows : ∀ (b : Branches G) (d : Nat), (b.rows d).length = b.height
  | .done, _ => by simp only [Branches.rows, Branches.height, List.length_map]
  | .otherwise body, d => by
    simp only [Branches.rows, Branches.height, List.length_cons, List.length_append,
      body.length_rows, List.length_map]
    omega
  | .elseIf _ body rest, d => by
    simp only [Branches.rows, Branches.height, List.length_cons, List.length_append,
      body.length_rows, rest.length_rows]
    omega

theorem Stmts.length_rows : ∀ (ss : Stmts G) (d : Nat), (ss.rows d).length = ss.height
  | .nil, _ => rfl
  | .cons s rest, d => by
    simp only [Stmts.rows, Stmts.height, List.length_append, s.length_rows, rest.length_rows]

end

theorem Stmt.height_pos (s : Stmt G) : 0 < s.height := by
  cases s <;> rw [Stmt.height] <;> omega

end Heights

section Lines

variable {p : Program}

/-- The line that a row makes at a depth and an index. -/
def Row.line (r : Row) (depth number : Nat) : Line := ⟨r.code, depth, number, r.code.isEmpty⟩

/-- The lines that rows make from an index on. -/
def linesFrom : Nat → List (Nat × Row) → List Line
  | _, [] => []
  | i, (depth, row) :: rest => row.line depth i :: linesFrom (i + 1) rest

theorem length_linesFrom : ∀ (i : Nat) (rows : List (Nat × Row)),
    (linesFrom i rows).length = rows.length
  | _, [] => rfl
  | i, _ :: rows => congrArg (· + 1) (length_linesFrom (i + 1) rows)

theorem linesFrom_append : ∀ (i : Nat) (rows rows' : List (Nat × Row)),
    linesFrom i (rows ++ rows') = linesFrom i rows ++ linesFrom (i + rows.length) rows'
  | _, [], _ => rfl
  | i, (depth, row) :: rows, rows' => by
    rw [List.cons_append, linesFrom, linesFrom, linesFrom_append (i + 1) rows rows',
      List.cons_append, List.length_cons, Nat.add_assoc, Nat.add_comm 1]

/-- Rows stand at an index of a program, with `rest` below them. -/
def Placed (p : Program) (i : Nat) (rows : List (Nat × Row)) (rest : List Line) : Prop :=
  p.lines.drop i = linesFrom i rows ++ rest

namespace Placed

variable {i d : Nat} {r : Row} {rows rows' : List (Nat × Row)} {rest : List Line}

theorem left (h : Placed p i (rows ++ rows') rest) :
    Placed p i rows (linesFrom (i + rows.length) rows' ++ rest) := by
  rw [Placed, ← List.append_assoc, ← linesFrom_append]
  exact h

theorem right (h : Placed p i (rows ++ rows') rest) : Placed p (i + rows.length) rows' rest := by
  rw [Placed, ← List.drop_drop, h.left, List.drop_left' (length_linesFrom i rows)]

theorem tail (h : Placed p i ((d, r) :: rows) rest) : Placed p (i + 1) rows rest := by
  rw [Placed, ← List.drop_drop, h]
  rfl

theorem line (h : Placed p i ((d, r) :: rows) rest) :
    p.line i = r.line d i := by
  have hi : p.lines[i]? = some (r.line d i) := by
    rw [← Nat.add_zero i, ← List.getElem?_drop, h]
    rfl
  rw [Program.line, List.getD_eq_getElem?_getD, hi, Option.getD_some]

theorem lt_size (h : Placed p i ((d, r) :: rows) rest) : i < p.size := by
  have hl := congrArg List.length h
  rw [List.length_drop] at hl
  simp only [linesFrom, List.cons_append, List.length_cons] at hl
  unfold Program.size
  omega

theorem le_size (h : Placed p i rows rest) (hi : i ≤ p.size) : i + rows.length ≤ p.size := by
  have hl := congrArg List.length h
  rw [List.length_drop, List.length_append, length_linesFrom] at hl
  unfold Program.size at hi ⊢
  omega

end Placed

end Lines

namespace Source.Program

variable (p : Program) {i : Nat} {l : Line} {ls : List Line}

theorem nextCodeLine_of_code (h : p.lines.drop i = l :: ls) (hb : l.blank = false) :
    p.nextCodeLine i = i := by
  rw [nextCodeLine, h, List.takeWhile_cons_of_neg (by rw [hb]; exact Bool.false_ne_true)]
  rfl

theorem nextCodeLine_of_blank (h : p.lines.drop i = l :: ls) (hb : l.blank = true) :
    p.nextCodeLine i = p.nextCodeLine (i + 1) := by
  have h' : p.lines.drop (i + 1) = ls := by
    rw [← List.drop_drop, h]
    rfl
  have ht : (l :: ls).takeWhile (·.blank) = l :: ls.takeWhile (·.blank) :=
    List.takeWhile_cons_of_pos hb
  rw [nextCodeLine, nextCodeLine, h, h', ht, List.length_cons]
  omega

theorem length_takeWhile_drop {q q' : Line → Bool} (hq : ∀ l, q' l = true → q l = true) :
    ∀ ls : List Line, (ls.takeWhile q').length
      + ((ls.drop (ls.takeWhile q').length).takeWhile q).length = (ls.takeWhile q).length
  | [] => rfl
  | l :: ls => by
    by_cases hl : q' l = true
    · rw [List.takeWhile_cons_of_pos hl, List.takeWhile_cons_of_pos (hq l hl), List.length_cons,
        List.drop_succ_cons, List.length_cons, ← length_takeWhile_drop hq ls]
      omega
    · rw [List.takeWhile_cons_of_neg hl]
      exact Nat.zero_add _

theorem nextCodeLine_nextCodeLine (start : Nat) :
    p.nextCodeLine (p.nextCodeLine start) = p.nextCodeLine start := by
  unfold nextCodeLine
  rw [Nat.add_assoc, ← List.drop_drop, length_takeWhile_drop fun _ hl => hl]

/-- The next line with code is the first one with code among the lines below. -/
theorem find?_code {start : Nat} (h : p.nextCodeLine start < p.size) :
    (p.lines.drop start).find? (!·.blank) = some (p.line (p.nextCodeLine start)) := by
  have hlist : ∀ ls : List Line, (ls.takeWhile (·.blank)).length < ls.length →
      ls.find? (!·.blank) = ls[(ls.takeWhile (·.blank)).length]? := by
    intro ls
    induction ls with
    | nil => exact fun h => by cases h
    | cons l ls ih =>
      intro h
      by_cases hb : l.blank = true
      · have ht : (l :: ls).takeWhile (·.blank) = l :: ls.takeWhile (·.blank) :=
          List.takeWhile_cons_of_pos hb
        rw [ht, List.length_cons, List.length_cons] at h
        rw [ht, List.find?_cons_of_neg (by simp [hb]), List.length_cons, List.getElem?_cons_succ]
        exact ih (Nat.lt_of_succ_lt_succ h)
      · have ht : (l :: ls).takeWhile (·.blank) = [] := List.takeWhile_cons_of_neg hb
        rw [ht, List.find?_cons_of_pos (by simp [hb])]
        rfl
  unfold nextCodeLine size at h
  rw [hlist _ (by rw [List.length_drop]; omega), List.getElem?_drop]
  rw [line, List.getD_eq_getElem?_getD, nextCodeLine, List.getElem?_eq_getElem h]
  rfl

theorem nextStatement_nextCodeLine (start d : Nat) :
    p.nextStatement (p.nextCodeLine start) d = p.nextStatement start d := by
  unfold nextStatement nextCodeLine
  rw [Nat.add_assoc, ← List.drop_drop, length_takeWhile_drop]
  intro l hl
  rw [hl, Bool.true_or]

end Source.Program

/-- The first line with code is less deep than `d`, so it leaves a block of that depth. -/
def Leaves (d : Nat) (rest : List Line) : Prop :=
  ∀ l, rest.find? (!·.blank) = some l → l.depth < d

/-- The text of a line that goes on with a chain of branches. -/
def continuesChain : Dialect → List Char → Bool
  | .indented, text => Indented.isElif text || Indented.isElse text
  | .braced, text => Braced.isElse text

/-- The first line with code is no deeper than `d` and does not go on with a chain there. -/
def EndsStatement (dialect : Dialect) (d : Nat) (rest : List Line) : Prop :=
  ∀ l, rest.find? (!·.blank) = some l →
    l.depth ≤ d ∧ (l.depth = d → continuesChain dialect l.text = false)

/-- The next statement at a depth that is left is none of the block. -/
theorem Leaves.nextStatement {p : Program} {d start : Nat} (h : Leaves d (p.lines.drop start)) :
    p.size ≤ p.nextStatement start d ∨ (p.line (p.nextStatement start d)).depth < d := by
  have hlist : ∀ ls : List Line, Leaves d ls →
      (ls.takeWhile fun l => l.blank || d < l.depth).length = ls.length ∨
        ∃ l, ls[(ls.takeWhile fun l => l.blank || d < l.depth).length]? = some l ∧ l.depth < d := by
    intro ls
    induction ls with
    | nil => exact fun _ => .inl rfl
    | cons l ls ih =>
      intro hl
      by_cases hb : l.blank = true
      · rw [List.takeWhile_cons_of_pos (by rw [hb, Bool.true_or]), List.length_cons,
          List.length_cons, List.getElem?_cons_succ, Nat.add_right_cancel_iff]
        exact ih fun l' hl' => hl l' (by rw [List.find?_cons_of_neg (by simp [hb]), hl'])
      · have hd := hl l (List.find?_cons_of_pos (by simp [hb]))
        rw [List.takeWhile_cons_of_neg (by simp [hb]; omega)]
        exact .inr ⟨l, rfl, hd⟩
  unfold Program.nextStatement
  rcases hlist _ h with hk | ⟨l, hk, hd⟩
  · left
    rw [hk, List.length_drop]
    unfold Program.size
    omega
  · right
    rw [List.getElem?_drop] at hk
    rw [Program.line, List.getD_eq_getElem?_getD, hk]
    exact hd

/-- A block of rows ends at the first line with code below it. -/
theorem Placed.blockEnd {p : Program} {i d : Nat} {rows : List (Nat × Row)} {rest : List Line}
    (hp : Placed p i rows rest) (hd : ∀ x ∈ rows, d ≤ x.1) (hl : Leaves d rest) :
    p.blockEnd i d = p.nextCodeLine (i + rows.length) := by
  have hrows : ∀ (rows : List (Nat × Row)) (i : Nat), (∀ x ∈ rows, d ≤ x.1) →
      (linesFrom i rows ++ rest).takeWhile (fun l => l.blank || d ≤ l.depth) =
        linesFrom i rows ++ rest.takeWhile (fun l => l.blank || d ≤ l.depth) := by
    intro rows
    induction rows with
    | nil => exact fun _ _ => rfl
    | cons x rows ih =>
      intro i hd
      have hx : d ≤ x.1 := hd x List.mem_cons_self
      rw [linesFrom, List.cons_append, List.takeWhile_cons_of_pos (by simp [Row.line, hx]),
        ih (i + 1) fun y hy => hd y (List.mem_cons_of_mem x hy), List.cons_append]
  have hrest : ∀ ls : List Line, Leaves d ls →
      ls.takeWhile (fun l => l.blank || d ≤ l.depth) = ls.takeWhile (·.blank) := by
    intro ls
    induction ls with
    | nil => exact fun _ => rfl
    | cons l ls ih =>
      intro hl
      by_cases hb : l.blank = true
      · rw [List.takeWhile_cons_of_pos (by rw [hb, Bool.true_or]),
          List.takeWhile_cons_of_pos hb, ih]
        exact fun l' hl' => hl l' (by rw [List.find?_cons_of_neg (by simp [hb]), hl'])
      · have hd := hl l (List.find?_cons_of_pos (by simp [hb]))
        rw [List.takeWhile_cons_of_neg (by simp [hb]; omega), List.takeWhile_cons_of_neg hb]
  have hdrop : p.lines.drop (i + rows.length) = rest := by
    rw [← List.append_nil rows] at hp
    rw [hp.right]
    rfl
  rw [Program.blockEnd, hp, hrows rows i hd, hrest rest hl, Program.nextCodeLine, hdrop,
    List.length_append, length_linesFrom, Nat.add_assoc]

theorem Leaves.endsStatement {dialect : Dialect} {d : Nat} {rest : List Line} (h : Leaves d rest) :
    EndsStatement dialect d rest := by
  intro l hl
  have hd := h l hl
  exact ⟨Nat.le_of_lt hd, fun he => by omega⟩

/-- The line with code below, if there is any, is not deeper than a statement that is left. -/
theorem Leaves.depth_le {p : Program} {d start : Nat} (h : Leaves (d + 1) (p.lines.drop start)) :
    (p.line (p.nextCodeLine start)).depth ≤ d := by
  by_cases hs : p.nextCodeLine start < p.size
  · exact Nat.le_of_lt_succ (h _ (p.find?_code hs))
  · rw [Program.line, List.getD_eq_getElem?_getD, List.getElem?_eq_none (Nat.le_of_not_lt hs)]
    exact Nat.zero_le d

theorem leaves_of_blank {d : Nat} {rest : List Line} (h : ∀ l ∈ rest, l.blank = true) :
    Leaves d rest := by
  intro l hl
  have hb := List.find?_some hl
  rw [h l (List.mem_of_find?_eq_some hl)] at hb
  cases hb

theorem Placed.nextCodeLine {p : Program} {i d : Nat} {r : Row} {rows : List (Nat × Row)}
    {rest : List Line} (hp : Placed p i ((d, r) :: rows) rest) (hr : r.code ≠ []) :
    p.nextCodeLine i = i :=
  p.nextCodeLine_of_code hp (by simpa [Row.line] using hr)

theorem Leaves.mono {d d' : Nat} {rest : List Line} (h : Leaves d rest) (hd : d ≤ d') :
    Leaves d' rest :=
  fun l hl => Nat.lt_of_lt_of_le (h l hl) hd

/-- The rows of a grammar: those of statements hold code and do not go on with a chain, apart from
simple statements that do nothing, and those below a last body hold none. -/
structure Grammar.Lawful (G : Grammar) : Prop where
  step_pos : 0 < G.step
  simple : ∀ s, ((G.rowOfSimple s).code ≠ [] ∧
      continuesChain G.dialect (G.rowOfSimple s).code = false) ∨
    ((G.rowOfSimple s).code = [] ∧
      ∀ host line scope, G.runSimple host line s scope = pure { scope })
  branch : ∀ g, (G.rowOfIf g).code ≠ [] ∧ continuesChain G.dialect (G.rowOfIf g).code = false
  head : ∀ h, (G.rowOfHead h).code ≠ [] ∧ continuesChain G.dialect (G.rowOfHead h).code = false
  elseIf : ∀ g, (G.rowOfElseIf g).code ≠ [] ∧ continuesChain G.dialect (G.rowOfElseIf g).code = true
  otherwise : G.rowOfElse.code ≠ [] ∧ continuesChain G.dialect G.rowOfElse.code = true
  closing : ∀ r ∈ G.closing, r.code = []

section Blocks

variable (hG : G.Lawful)

include hG in
/-- A statement starts with a row of its depth that holds code, or does nothing. -/
theorem Stmt.rows_eq (s : Stmt G) (d : Nat) :
    (∃ r rows, s.rows d = (d, r) :: rows ∧ r.code ≠ [] ∧
      continuesChain G.dialect r.code = false) ∨
    (∃ r, s.rows d = [(d, r)] ∧ r.code = [] ∧ s.height = 1 ∧
      ∀ host i scope, s.run host i scope = pure { scope }) := by
  cases s with
  | simple s =>
    rcases hG.simple s with h | ⟨hcode, hrun⟩
    · exact .inl ⟨_, _, by rw [Stmt.rows], h⟩
    · exact .inr ⟨_, by rw [Stmt.rows], hcode, by rw [Stmt.height], fun host i scope => by
        rw [Stmt.run, hrun]⟩
  | branch g _ _ => exact .inl ⟨_, _, by rw [Stmt.rows], hG.branch g⟩
  | compound h _ => exact .inl ⟨_, _, by rw [Stmt.rows], hG.head h⟩

/-- A property of all rows that a grammar writes. -/
structure Grammar.AllRows (G : Grammar) (P : Row → Prop) : Prop where
  simple : ∀ s, P (G.rowOfSimple s)
  branch : ∀ g, P (G.rowOfIf g)
  elseIf : ∀ g, P (G.rowOfElseIf g)
  otherwise : P G.rowOfElse
  head : ∀ h, P (G.rowOfHead h)
  closing : ∀ r ∈ G.closing, P r

theorem Grammar.AllRows.closing_map {P : Row → Prop} (hP : G.AllRows P) {d : Nat} {x : Nat × Row}
    (hx : x ∈ G.closing.map (d, ·)) : d ≤ x.1 ∧ P x.2 := by
  obtain ⟨r, hr, rfl⟩ := List.mem_map.1 hx
  exact ⟨Nat.le_refl d, hP.closing r hr⟩

mutual

/-- The rows of a tree are at least as deep as the tree, and have what all rows of the grammar
have. -/
theorem Stmt.mem_rows {P : Row → Prop} (hP : G.AllRows P) :
    ∀ (s : Stmt G) (d : Nat) {x : Nat × Row}, x ∈ s.rows d → d ≤ x.1 ∧ P x.2
  | .simple s, d, x, hx => by
    rw [Stmt.rows, List.mem_singleton] at hx
    subst hx
    exact ⟨Nat.le_refl d, hP.simple s⟩
  | .branch g body rest, d, x, hx => by
    rw [Stmt.rows, List.mem_cons, List.mem_append] at hx
    rcases hx with rfl | hx | hx
    · exact ⟨Nat.le_refl d, hP.branch g⟩
    · exact (body.mem_rows hP _ hx).imp_left (Nat.le_trans (Nat.le_add_right d _))
    · exact rest.mem_rows hP d hx
  | .compound h body, d, x, hx => by
    rw [Stmt.rows, List.mem_cons, List.mem_append] at hx
    rcases hx with rfl | hx | hx
    · exact ⟨Nat.le_refl d, hP.head h⟩
    · exact (body.mem_rows hP _ hx).imp_left (Nat.le_trans (Nat.le_add_right d _))
    · exact hP.closing_map hx

theorem Branches.mem_rows {P : Row → Prop} (hP : G.AllRows P) :
    ∀ (b : Branches G) (d : Nat) {x : Nat × Row}, x ∈ b.rows d → d ≤ x.1 ∧ P x.2
  | .done, d, x, hx => hP.closing_map (by rwa [Branches.rows] at hx)
  | .otherwise body, d, x, hx => by
    rw [Branches.rows, List.mem_cons, List.mem_append] at hx
    rcases hx with rfl | hx | hx
    · exact ⟨Nat.le_refl d, hP.otherwise⟩
    · exact (body.mem_rows hP _ hx).imp_left (Nat.le_trans (Nat.le_add_right d _))
    · exact hP.closing_map hx
  | .elseIf g body rest, d, x, hx => by
    rw [Branches.rows, List.mem_cons, List.mem_append] at hx
    rcases hx with rfl | hx | hx
    · exact ⟨Nat.le_refl d, hP.elseIf g⟩
    · exact (body.mem_rows hP _ hx).imp_left (Nat.le_trans (Nat.le_add_right d _))
    · exact rest.mem_rows hP d hx

theorem Stmts.mem_rows {P : Row → Prop} (hP : G.AllRows P) :
    ∀ (ss : Stmts G) (d : Nat) {x : Nat × Row}, x ∈ ss.rows d → d ≤ x.1 ∧ P x.2
  | .nil, d, x, hx => by
    rw [Stmts.rows] at hx
    cases hx
  | .cons s rest, d, x, hx => by
    rw [Stmts.rows, List.mem_append] at hx
    rcases hx with hx | hx
    · exact s.mem_rows hP d hx
    · exact rest.mem_rows hP d hx

end

theorem Stmts.le_depth (ss : Stmts G) (d : Nat) : ∀ x ∈ ss.rows d, d ≤ x.1 := fun _ hx =>
  (ss.mem_rows (P := fun _ => True)
    ⟨fun _ => trivial, fun _ => trivial, fun _ => trivial, trivial, fun _ => trivial,
      fun _ _ => trivial⟩ d hx).1

section Lines

variable {p : Program} {below : Nat} {x : Run (Nat × Flow)} {y : Run Flow}

/-- A line that runs as `x` does what `y` does, and goes on in front of the code below a line. -/
structure GoesOn (p : Program) (below : Nat) (x : Run (Nat × Flow)) (y : Run Flow) : Prop where
  flow : Prod.snd <$> x = y
  next : ∀ {next flow}, Returns x (next, flow) → p.nextCodeLine next = p.nextCodeLine below

theorem GoesOn.of_eq {next : Nat} (hn : p.nextCodeLine next = p.nextCodeLine below)
    (hx : x = do pure (next, ← y)) : GoesOn p below x y where
  flow := by
    rw [hx, map_bind]
    simp only [map_pure, bind_pure]
  next {next' flow} h := by
    rw [hx] at h
    obtain ⟨_, -, hpure⟩ := h.of_bind
    cases hpure.of_pure
    exact hn

/-- What runs below a line may be given for the place where the code below it is found. -/
theorem GoesOn.bind_eq (h : GoesOn p below x y) {block : Nat → Block} {rest : Block}
    (hblock : ∀ next, p.nextCodeLine next = p.nextCodeLine below → block next = rest) :
    (x >>= fun r => r.2.andThen (block r.1)) = y >>= fun flow => flow.andThen rest := by
  rw [← h.flow, bind_map_left]
  exact Run.ext_outcome fun m => Run.outcome_bind_congr fun r m' hr => by
    rw [hblock r.1 (h.next ⟨m, m', hr⟩)]

end Lines

variable (G) (p : Program) (host : Host)

/-- The blocks of a program that hold the rows of statements do what the statements do. -/
def RunsBlocks (fuel : Nat) : Prop :=
  ∀ (ss : Stmts G) {d i start stop : Nat} {rest : List Line}, Placed p i (ss.rows d) rest →
    Leaves d rest → p.nextCodeLine start = p.nextCodeLine i → i + ss.height ≤ stop →
    stop ≤ p.size → ss.height ≤ fuel →
      runBlock p (semanticsOf G.dialect host p) fuel ⟨start, stop, d⟩ = ss.run host i

/-- The lines of a program that hold the rows of a statement do what the statement does, and go on
below it. -/
def RunsLines (fuel : Nat) : Prop :=
  ∀ (s : Stmt G) {d i : Nat} {rest : List Line}, Placed p i (s.rows d) rest →
    EndsStatement G.dialect d rest → s.height ≤ fuel + 1 → ∀ scope,
      GoesOn p (i + s.height)
        (semanticsOf G.dialect host p (runBlock p (semanticsOf G.dialect host p) fuel) i scope)
        (s.run host i scope)

variable {G p host}

/-- A block ends where its next statement is not deep enough. -/
theorem runBlock_leaves {d start stop fuel : Nat}
    (hl : p.size ≤ p.nextStatement start d ∨ (p.line (p.nextStatement start d)).depth < d)
    (hs : stop ≤ p.size) (runLine : LineRunner) (scope : Scope) :
    runBlock p runLine fuel ⟨start, stop, d⟩ scope = pure { scope } := by
  cases fuel with
  | zero => rfl
  | succ fuel =>
    rw [runBlock]
    refine if_neg ?_
    rintro ⟨hlt, hdepth⟩
    rcases hl with hj | hj
    · exact absurd hlt (Nat.not_lt.2 (Nat.le_trans hs hj))
    · exact absurd hdepth (Nat.not_le.2 hj)

include hG

/-- A statement does not go on with a chain that ends in front of it. -/
theorem endsStatement_rows {d : Nat} {rest : List Line} (hl : Leaves d rest) :
    ∀ (ss : Stmts G) (i : Nat), EndsStatement G.dialect d (linesFrom i (ss.rows d) ++ rest)
  | .nil, _ => hl.endsStatement
  | .cons s ss, i => by
    intro l hfirst
    rcases s.rows_eq hG d with ⟨r, rows, hrows, hcode, hc⟩ | ⟨r, hrows, hcode, -⟩
    · rw [Stmts.rows, hrows, List.cons_append, linesFrom, List.cons_append,
        List.find?_cons_of_pos (by simpa [Row.line] using hcode)] at hfirst
      cases hfirst
      exact ⟨Nat.le_refl _, fun _ => hc⟩
    · rw [Stmts.rows, hrows, List.cons_append, linesFrom, List.cons_append,
        List.find?_cons_of_neg (by simp [Row.line, hcode])] at hfirst
      exact endsStatement_rows hl ss (i + 1) l hfirst

theorem leaves_closing {d i : Nat} {rest : List Line} (hr : EndsStatement G.dialect d rest) :
    Leaves (d + 1) (linesFrom i (G.closing.map (d, ·)) ++ rest) := by
  have hfind : ∀ (closing : List Row) (i : Nat), (∀ r ∈ closing, r.code = []) →
      (linesFrom i (closing.map (d, ·)) ++ rest).find? (!·.blank) = rest.find? (!·.blank) := by
    intro closing
    induction closing with
    | nil => exact fun _ _ => rfl
    | cons r closing ih =>
      intro i hc
      rw [List.map_cons, linesFrom, List.cons_append,
        List.find?_cons_of_neg (by simp [Row.line, hc r List.mem_cons_self])]
      exact ih (i + 1) fun r' hr' => hc r' (List.mem_cons_of_mem r hr')
  intro l hl
  rw [hfind G.closing i hG.closing] at hl
  exact Nat.lt_succ_of_le (hr l hl).1

omit hG in
theorem leaves_row {d i : Nat} {r : Row} (hr : r.code ≠ []) (rows : List (Nat × Row))
    (rest : List Line) : Leaves (d + 1) (linesFrom i ((d, r) :: rows) ++ rest) := by
  intro l hl
  rw [linesFrom, List.cons_append, List.find?_cons_of_pos (by simpa [Row.line] using hr)] at hl
  cases hl
  exact Nat.lt_succ_self d

theorem leaves_branches {d i : Nat} {rest : List Line} (hr : EndsStatement G.dialect d rest)
    (b : Branches G) : Leaves (d + 1) (linesFrom i (b.rows d) ++ rest) := by
  cases b with
  | done => exact leaves_closing hG hr
  | otherwise body => exact leaves_row hG.otherwise.1 _ rest
  | elseIf g body more => exact leaves_row (hG.elseIf g).1 _ rest

omit hG in
theorem runBlock_nil {d i start stop fuel : Nat} (hl : Leaves d (p.lines.drop i))
    (hstart : p.nextCodeLine start = p.nextCodeLine i) (hs : stop ≤ p.size) (runLine : LineRunner) :
    runBlock p runLine fuel ⟨start, stop, d⟩ = (Stmts.nil : Stmts G).run host i := by
  funext scope
  refine runBlock_leaves ?_ hs runLine scope
  rw [← p.nextStatement_nextCodeLine start, hstart, p.nextStatement_nextCodeLine]
  exact hl.nextStatement

/-- A block runs its first statement and then the others. -/
theorem runBlock_cons {s : Stmt G} {ss : Stmts G} {d i start stop fuel : Nat} {r : Row}
    {rows : List (Nat × Row)} {rest : List Line} (ih : RunsBlocks G p host fuel)
    (hlines : RunsLines G p host fuel) (hp : Placed p i ((Stmts.cons s ss).rows d) rest)
    (hl : Leaves d rest) (hrows : s.rows d = (d, r) :: rows) (hcode : r.code ≠ [])
    (hstart : p.nextCodeLine start = p.nextCodeLine i) (hi : i + (s.height + ss.height) ≤ stop)
    (hs : stop ≤ p.size) (hf : s.height + ss.height ≤ fuel + 1) :
    runBlock p (semanticsOf G.dialect host p) (fuel + 1) ⟨start, stop, d⟩ =
      (Stmts.cons s ss).run host i := by
  have hpos := s.height_pos
  rw [Stmts.rows] at hp
  have hline := hlines s hp.left (endsStatement_rows hG hl ss _) (by omega)
  have hrest := hp.right
  rw [s.length_rows d] at hrest
  rw [hrows, List.cons_append] at hp
  have hat : p.nextStatement start d = i := by
    rw [← p.nextStatement_nextCodeLine start, hstart, p.nextStatement_nextCodeLine,
      Program.nextStatement, hp, linesFrom, List.cons_append,
      List.takeWhile_cons_of_neg (by simpa [Row.line] using hcode)]
    rfl
  have hdepth : (p.line i).depth = d := by rw [hp.line, Row.line]
  funext scope
  rw [runBlock]
  dsimp only
  rw [hat, if_pos ⟨by omega, Nat.le_of_eq hdepth.symm⟩, Stmts.run]
  exact (hline scope).bind_eq fun next hnext => ih ss hrest hl hnext (by omega) hs (by omega)

/-- Blocks do what their statements do if this holds with less fuel. Statements without code are
passed over. -/
theorem runBlock_rows {fuel : Nat}
    (ih : ∀ k, fuel = k + 1 → RunsBlocks G p host k ∧ RunsLines G p host k) :
    ∀ (ss : Stmts G) {d i start stop : Nat} {rest : List Line}, Placed p i (ss.rows d) rest →
      Leaves d rest → p.nextCodeLine start = p.nextCodeLine i → i + ss.height ≤ stop →
      stop ≤ p.size → ss.height ≤ fuel →
        runBlock p (semanticsOf G.dialect host p) fuel ⟨start, stop, d⟩ = ss.run host i
  | .nil, _, _, _, _, _, hp, hl, hstart, _, hs, _ => runBlock_nil (hp ▸ hl) hstart hs _
  | .cons s ss, d, i, start, stop, rest, hp, hl, hstart, hi, hs, hf => by
    have hpos := s.height_pos
    rw [Stmts.height] at hf hi
    rcases s.rows_eq hG d with ⟨r, rows, hrows, hcode, -⟩ | ⟨r, hrows, hcode, hheight, hrun⟩
    · obtain ⟨k, rfl⟩ : ∃ k, fuel = k + 1 := ⟨fuel - 1, by omega⟩
      obtain ⟨hblocks, hlines⟩ := ih k rfl
      exact runBlock_cons hG hblocks hlines hp hl hrows hcode hstart hi hs hf
    · rw [Stmts.rows, hrows, List.singleton_append] at hp
      have hnext : p.nextCodeLine i = p.nextCodeLine (i + 1) :=
        p.nextCodeLine_of_blank hp (by simp [Row.line, hcode])
      rw [runBlock_rows ih ss hp.tail hl (hstart.trans hnext) (by omega) hs (by omega)]
      funext scope
      rw [Stmts.run]
      dsimp only
      rw [hrun, pure_bind, hheight]
      rfl

/-- Blocks do what their statements do as soon as single lines do. -/
theorem runsBlocks (hlines : ∀ fuel, RunsBlocks G p host fuel → RunsLines G p host fuel) :
    ∀ fuel, RunsBlocks G p host fuel
  | 0 => runBlock_rows hG fun _ h => by cases h
  | fuel + 1 => runBlock_rows hG fun k h => by
    cases h
    exact ⟨runsBlocks hlines fuel, hlines fuel (runsBlocks hlines fuel)⟩

end Blocks

section Bodies

variable {p : Program} {host : Host} {d d' i fuel : Nat} {r : Row} {body : Stmts G}
  {more : List (Nat × Row)} {rest : List Line}
  (hp : Placed p i ((d, r) :: (body.rows d' ++ more)) rest)

include hp

theorem Placed.inside :
    Placed p (i + 1) (body.rows d') (linesFrom (i + 1 + body.height) more ++ rest) := by
  have h := hp.tail.left
  rwa [body.length_rows] at h

theorem Placed.below : Placed p (i + 1 + body.height) more rest := by
  have h := hp.tail.right
  rwa [body.length_rows] at h

theorem Placed.below_le_size : i + 1 + body.height ≤ p.size := by
  have h := hp.inside.le_size hp.lt_size
  rwa [body.length_rows] at h

variable (hl : Leaves d' (linesFrom (i + 1 + body.height) more ++ rest))

include hl

theorem Placed.blockEnd_body : p.blockEnd (i + 1) d' = p.nextCodeLine (i + 1 + body.height) := by
  rw [hp.inside.blockEnd (body.le_depth d') hl, body.length_rows]

/-- The block below a row does what the body of the tree does. -/
theorem RunsBlocks.runBody (hb : RunsBlocks G p host fuel) (hf : body.height ≤ fuel) :
    runBlock p (semanticsOf G.dialect host p) fuel
      ⟨i + 1, p.nextCodeLine (i + 1 + body.height), d'⟩ = body.run host (i + 1) :=
  hb body hp.inside hl rfl (p.le_nextCodeLine _) (p.nextCodeLine_le hp.below_le_size) hf

end Bodies

section Chains

open Chain

variable {β : Type} {host : Host} {runBody : β → Block} {runMalformed : Nat → List Char → Block}

/-- A branch of a chain does what the branch of a tree does if its parts do. All branches have to go
on at the same line. -/
theorem run_guarded {line next : Nat} {guard : List Char} {body : β} {resume : Thunk Nat}
    {rest : Chain β} {thenRun elseRun : Block} (hresume : resume.get = next)
    (hbody : runBody body = thenRun)
    (hrest : ∀ scope, rest.run host runBody runMalformed scope = do
      pure (next, ← elseRun scope)) (scope : Scope) :
    (guarded line guard body resume rest).run host runBody runMalformed scope =
      (do pure (next, ← runBranch host line guard thenRun elseRun scope)) := by
  rw [Chain.run, runBranch, hresume, hbody]
  simp only [bind_assoc]
  refine bind_congr fun v => bind_congr fun holds => ?_
  cases holds with
  | true => simp only [if_true, bind_assoc]
  | false =>
    simp only [Bool.false_eq_true, if_false, bind_assoc]
    exact bind_congr fun _ => hrest scope

/-- A branch without others does what the branch of a tree does, and goes on below whether or not
its guard holds. -/
theorem goesOn_guarded {p : Program} {line next below : Nat} {guard : List Char} {body : β}
    {resume : Thunk Nat} (hresume : p.nextCodeLine resume.get = p.nextCodeLine below)
    (hnext : p.nextCodeLine next = p.nextCodeLine below) (scope : Scope) :
    GoesOn p below
      ((Chain.guarded line guard body resume (.done next)).run host runBody runMalformed scope)
      (runBranch host line guard (runBody body) (fun scope => pure { scope }) scope) where
  flow := by
    rw [Chain.run, runBranch]
    simp only [map_bind, Chain.run]
    refine bind_congr fun v => bind_congr fun holds => ?_
    cases holds with
    | true => simp
    | false => simp
  next h := by
    have hall : (Chain.guarded line guard body resume (.done next)).All (fun _ => True)
        (fun n => p.nextCodeLine n = p.nextCodeLine below) := ⟨trivial, hresume, hnext⟩
    exact hall.resume h

end Chains

section Functions

/-- A function of the program is the one that a tree defines. -/
structure Matches (p : Program) (f : Definition G) (f' : FunctionDef) : Prop where
  name : f'.name = f.name
  params : f'.params = f.params
  line : f'.headerLine = f.line
  body : ∃ d stop rest, Placed p (f.line + 1) (f.body.rows d) rest ∧ Leaves d rest ∧
    f'.body = ⟨f.line + 1, stop, d⟩ ∧ f.line + 1 + f.body.height ≤ stop ∧ stop ≤ p.size

/-- The rows that define functions are the heads of functions. -/
structure FindsFunctions (G : Grammar) (p : Program) : Prop where
  simple : ∀ s d i, functionAt? G.dialect p ((G.rowOfSimple s).line d i) = none
  branch : ∀ g d i, functionAt? G.dialect p ((G.rowOfIf g).line d i) = none
  elseIf : ∀ g d i, functionAt? G.dialect p ((G.rowOfElseIf g).line d i) = none
  otherwise : ∀ d i, functionAt? G.dialect p (G.rowOfElse.line d i) = none
  head : ∀ {head : G.Head} {body : Stmts G} {d i : Nat} {rest : List Line},
    Placed p i ((Stmt.compound head body).rows d) rest → EndsStatement G.dialect d rest →
    ∃ stop, i + 1 + body.height ≤ stop ∧ stop ≤ p.size ∧
      functionAt? G.dialect p ((G.rowOfHead head).line d i) =
        (G.function? head).map fun (name, params) => ⟨name, params, i, i + 1, stop, d + G.step⟩

variable {p : Program}

theorem filterMap_closing (hG : G.Lawful) (d : Nat) : ∀ i : Nat,
    (linesFrom i (G.closing.map (d, ·))).filterMap (functionAt? G.dialect p) = [] := by
  have hlist : ∀ (closing : List Row) (i : Nat), (∀ r ∈ closing, r.code = []) →
      (linesFrom i (closing.map (d, ·))).filterMap (functionAt? G.dialect p) = [] := by
    intro closing
    induction closing with
    | nil => exact fun _ _ => rfl
    | cons r closing ih =>
      intro i hc
      have hb : (r.line d i).blank = true := by
        rw [Row.line, hc r List.mem_cons_self]
        rfl
      rw [List.map_cons, linesFrom, List.filterMap_cons_none (functionAt?_blank hb)]
      exact ih (i + 1) fun r' hr' => hc r' (List.mem_cons_of_mem r hr')
  exact fun i => hlist G.closing i hG.closing

mutual

theorem Stmt.functions_match (hG : G.Lawful) (hF : FindsFunctions G p) :
    ∀ (s : Stmt G) {d i : Nat} {rest : List Line}, Placed p i (s.rows d) rest →
      EndsStatement G.dialect d rest →
      List.Forall₂ (Matches p) (s.functions i)
        ((linesFrom i (s.rows d)).filterMap (functionAt? G.dialect p))
  | .simple s, d, i, rest, _, _ => by
    rw [Stmt.rows, Stmt.functions, linesFrom, List.filterMap_cons_none (hF.simple s d i)]
    exact .nil
  | .branch g body more, d, i, rest, hp, hr => by
    rw [Stmt.rows] at hp ⊢
    rw [Stmt.functions, linesFrom, List.filterMap_cons_none (hF.branch g d i), linesFrom_append,
      List.filterMap_append, body.length_rows]
    have hle := Nat.add_le_add_left hG.step_pos d
    have hmore := hp.tail.right
    rw [body.length_rows] at hmore
    exact List.rel_append
      (body.functions_match hG hF hp.tail.left ((leaves_branches hG hr more).mono hle))
      (more.functions_match hG hF hmore hr)
  | .compound head body, d, i, rest, hp, hr => by
    obtain ⟨stop, hle, hs, hat⟩ := hF.head hp hr
    rw [Stmt.rows] at hp ⊢
    have hl := (leaves_closing (i := i + 1 + (body.rows (d + G.step)).length) hG hr).mono
      (Nat.add_le_add_left hG.step_pos d)
    have hbody := body.functions_match hG hF hp.tail.left hl
    have hrows : (linesFrom (i + 1) (body.rows (d + G.step) ++ G.closing.map (d, ·))).filterMap
        (functionAt? G.dialect p) =
          (linesFrom (i + 1) (body.rows (d + G.step))).filterMap (functionAt? G.dialect p) := by
      rw [linesFrom_append, List.filterMap_append, filterMap_closing hG, List.append_nil]
    cases hfun : G.function? head with
    | none =>
      rw [hfun] at hat
      rw [Stmt.functions, hfun, linesFrom, List.filterMap_cons_none hat, hrows]
      exact hbody
    | some f =>
      rw [hfun] at hat
      rw [Stmt.functions, hfun, linesFrom, List.filterMap_cons_some hat, hrows]
      exact .cons ⟨rfl, rfl, rfl, d + G.step, stop, _, hp.tail.left, hl, rfl, hle, hs⟩ hbody

theorem Branches.functions_match (hG : G.Lawful) (hF : FindsFunctions G p) :
    ∀ (b : Branches G) {d i : Nat} {rest : List Line}, Placed p i (b.rows d) rest →
      EndsStatement G.dialect d rest →
      List.Forall₂ (Matches p) (b.functions i)
        ((linesFrom i (b.rows d)).filterMap (functionAt? G.dialect p))
  | .done, d, i, rest, _, _ => by
    rw [Branches.rows, Branches.functions, filterMap_closing hG]
    exact .nil
  | .otherwise body, d, i, rest, hp, hr => by
    rw [Branches.rows] at hp ⊢
    rw [Branches.functions, linesFrom, List.filterMap_cons_none (hF.otherwise d i),
      linesFrom_append, List.filterMap_append, filterMap_closing hG, List.append_nil]
    exact body.functions_match hG hF hp.tail.left
      ((leaves_closing hG hr).mono (Nat.add_le_add_left hG.step_pos d))
  | .elseIf g body more, d, i, rest, hp, hr => by
    rw [Branches.rows] at hp ⊢
    rw [Branches.functions, linesFrom, List.filterMap_cons_none (hF.elseIf g d i), linesFrom_append,
      List.filterMap_append, body.length_rows]
    have hle := Nat.add_le_add_left hG.step_pos d
    have hmore := hp.tail.right
    rw [body.length_rows] at hmore
    exact List.rel_append
      (body.functions_match hG hF hp.tail.left ((leaves_branches hG hr more).mono hle))
      (more.functions_match hG hF hmore hr)

theorem Stmts.functions_match (hG : G.Lawful) (hF : FindsFunctions G p) :
    ∀ (ss : Stmts G) {d i : Nat} {rest : List Line}, Placed p i (ss.rows d) rest → Leaves d rest →
      List.Forall₂ (Matches p) (ss.functions i)
        ((linesFrom i (ss.rows d)).filterMap (functionAt? G.dialect p))
  | .nil, _, _, _, _, _ => .nil
  | .cons s ss, d, i, rest, hp, hl => by
    rw [Stmts.rows] at hp ⊢
    rw [Stmts.functions, linesFrom_append, List.filterMap_append, s.length_rows]
    have hrest := hp.right
    rw [s.length_rows] at hrest
    exact List.rel_append (s.functions_match hG hF hp.left (endsStatement_rows hG hl ss _))
      (ss.functions_match hG hF hrest hl)

end

/-- Matching functions are found by the same names. -/
theorem lastDefinition?_match {definitions : List (Definition G)} {functions : List FunctionDef}
    (h : List.Forall₂ (Matches p) definitions functions) (name : String) :
    Option.Rel (Matches p) (lastDefinition? definitions name)
      ((functions.map fun f => (f.name, f)).reverse.lookup name) := by
  have hlist : ∀ {definitions : List (Definition G)} {functions : List FunctionDef},
      List.Forall₂ (Matches p) definitions functions →
      Option.Rel (Matches p) (definitions.find? (·.name == name))
        ((functions.map fun f => (f.name, f)).lookup name) := by
    intro definitions functions h
    induction h with
    | nil => exact .none
    | @cons f f' fs fs' hf _ ih =>
      rw [List.map_cons, List.lookup_cons, List.find?_cons, hf.name]
      by_cases hn : name = f.name
      · rw [hn, beq_self_eq_true]
        exact .some hf
      · rw [beq_false_of_ne hn, beq_false_of_ne (Ne.symm hn)]
        exact ih
  rw [lastDefinition?, ← List.map_reverse]
  exact hlist (List.rel_reverse h)

end Functions

section Programs

variable {p : Program} (hG : G.Lawful) (hF : FindsFunctions G p)
  (hlines : ∀ host fuel, RunsBlocks G p host fuel → RunsLines G p host fuel)
  {t : Stmts G} {rest : List Line} (hp : Placed p 0 (t.rows 0) rest) (hl : Leaves 0 rest)

include hG hF hp hl in
theorem function_match (hrest : ∀ l ∈ rest, l.blank = true) (name : String) :
    Option.Rel (Matches p) (lastDefinition? (t.functions 0) name)
      ((functionTable G.dialect p).get? name) := by
  have hlines : p.lines.filterMap (functionAt? G.dialect p) =
      (linesFrom 0 (t.rows 0)).filterMap (functionAt? G.dialect p) := by
    rw [← List.drop_zero (l := p.lines), hp, List.filterMap_append,
      List.filterMap_eq_nil_iff.2 fun l hl => functionAt?_blank (hrest l hl), List.append_nil]
  rw [functionTable_eq, Table.get?_ofList, hlines]
  exact lastDefinition?_match (t.functions_match hG hF hp hl) name

include hG hlines in
/-- The body of a function of the program does what the tree's function does. -/
theorem Matches.runBody {f : Definition G} {f' : FunctionDef} (h : Matches p f f') (host : Host) :
    runBlock p (semanticsOf G.dialect host p) p.size f'.body = f.body.run host (f.line + 1) := by
  obtain ⟨d, stop, rest, hbody, hl, hb, hle, hs⟩ := h.body
  rw [hb]
  exact runsBlocks hG (hlines host) p.size f.body hbody hl rfl hle hs (by omega)

/-- Calling a function of the program calls the one that the tree defines. -/
theorem enterFunction_eq {definitions : List (Definition G)}
    (hm : ∀ name, Option.Rel (Matches p) (lastDefinition? definitions name)
      ((functionTable G.dialect p).get? name)) (limits : Limits)
    {body : FunctionDef → Scope → Run Value} {body' : Definition G → Scope → Run Value}
    (hb : ∀ f f', Matches p f f' → body f' = body' f) :
    enterFunction G.dialect (functionTable G.dialect p) limits body =
      enterDefinition limits definitions body' := by
  funext name args
  have h := hm name
  rw [enterFunction, enterDefinition]
  generalize lastDefinition? definitions name = found at h ⊢
  generalize (functionTable G.dialect p).get? name = found' at h ⊢
  cases h with
  | none => rfl
  | some h => simp only [h.name, h.params, h.line, hb _ _ h]

include hG hlines in
/-- A call of the program is the call of the tree. -/
theorem callFunction_eq {definitions : List (Definition G)}
    (hm : ∀ name, Option.Rel (Matches p) (lastDefinition? definitions name)
      ((functionTable G.dialect p).get? name)) (limits : Limits) : ∀ room : Nat,
    callFunction G.dialect (semanticsOf G.dialect) p (functionTable G.dialect p) limits room =
      callDefinition limits definitions room
  | 0 => by
    rw [callFunction, callDefinition]
    exact enterFunction_eq hm limits fun f f' h => by rw [h.name]
  | room + 1 => by
    rw [callFunction, callDefinition, callFunction_eq hm limits room]
    exact enterFunction_eq hm limits fun f f' h => by
      funext scope
      dsimp only
      rw [h.runBody hG hlines]

include hG hF hlines hp hl in
/-- The host of the program is the host of the tree. -/
theorem hostOf_eq (hrest : ∀ l ∈ rest, l.blank = true) (limits : Limits) :
    hostOf G.dialect (semanticsOf G.dialect) p limits = t.host limits := by
  rw [hostOf, Stmts.host, callFunction_eq hG hlines (function_match hG hF hp hl hrest)]

end Programs

end Stepwise
