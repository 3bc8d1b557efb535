import Stepwise.Proofs.BracedTree
import Stepwise.Proofs.Layouts
import Stepwise.Proofs.Unbraced

/-!
# The place of opening braces

The brace that opens a body may stand at the end of its head or on a line of its own below it. The
run is the same one, on other lines (`traceSteps_lowered`): a line with only a brace is blank, and a
head without its mark opens the block below it if the next line with code is deeper. So a body of a
branch or loop has to hold code. Otherwise the next statement is taken for it
(`traceSteps_lowered_emptied`).
-/

namespace Stepwise

open Source Text

section Lowering

variable {G : Grammar}

/-- Something of the statement is code. -/
def Stmt.holdsCode : Stmt G → Bool
  | .simple s => !(G.rowOfSimple s).code.isEmpty
  | .branch .. => true
  | .compound .. => true

/-- Some statement of a body is code. -/
def Stmts.holdsCode : Stmts G → Bool
  | .nil => false
  | .cons s rest => s.holdsCode || rest.holdsCode

variable (moved : Nat → Bool)

mutual

/-- The rows that `moved` names in a statement from a row on are heads, and the bodies of those that
are no functions hold code. -/
def Stmt.Lowerable : Nat → Stmt G → Prop
  | k, .simple _ => moved k = false
  | k, .branch _ body rest => (moved k = true → body.holdsCode = true) ∧
      body.Lowerable (k + 1) ∧ rest.Lowerable (k + 1 + body.height)
  | k, .compound head body =>
    (moved k = true → (G.function? head).isSome = true ∨ body.holdsCode = true) ∧
      body.Lowerable (k + 1) ∧ ∀ j < G.closing.length, moved (k + 1 + body.height + j) = false

/-- The same for the branches from a row on. -/
def Branches.Lowerable : Nat → Branches G → Prop
  | k, .done => ∀ j < G.closing.length, moved (k + j) = false
  | k, .otherwise body => (moved k = true → body.holdsCode = true) ∧
      body.Lowerable (k + 1) ∧ ∀ j < G.closing.length, moved (k + 1 + body.height + j) = false
  | k, .elseIf _ body rest => (moved k = true → body.holdsCode = true) ∧
      body.Lowerable (k + 1) ∧ rest.Lowerable (k + 1 + body.height)

/-- The same for the statements of a body. -/
def Stmts.Lowerable : Nat → Stmts G → Prop
  | _, .nil => True
  | k, .cons s rest => s.Lowerable k ∧ rest.Lowerable (k + s.height)

end

/-- The first line with code of a body is one of its own statements. -/
theorem Stmts.nextCodeLine_of_holdsCode (hG : G.Lawful) {p : Program} {rest : List Line} :
    ∀ (ss : Stmts G) {d i : Nat} {more : List (Nat × Row)}, ss.holdsCode = true →
      Placed p i (ss.rows d ++ more) rest →
        p.nextCodeLine i < p.size ∧ (p.line (p.nextCodeLine i)).depth = d
  | .cons s ss, d, i, more, h, hp => by
    rw [Stmts.rows] at hp
    have hhead {r : Row} {rows : List (Nat × Row)} (hp : Placed p i ((d, r) :: rows) rest)
        (hr : r.code ≠ []) : p.nextCodeLine i < p.size ∧ (p.line (p.nextCodeLine i)).depth = d := by
      rw [hp.nextCodeLine hr, hp.line]
      exact ⟨hp.lt_size, rfl⟩
    cases s with
    | simple s =>
      rw [Stmt.rows] at hp
      by_cases hs : (G.rowOfSimple s).code = []
      · rw [p.nextCodeLine_of_blank hp (by rw [Row.line, hs]; rfl)]
        refine ss.nextCodeLine_of_holdsCode hG ?_ hp.tail
        rwa [Stmts.holdsCode, Stmt.holdsCode, hs] at h
      · exact hhead hp hs
    | branch guard body more =>
      rw [Stmt.rows] at hp
      exact hhead hp (hG.branch guard).1
    | compound head body =>
      rw [Stmt.rows] at hp
      exact hhead hp (hG.head head).1

end Lowering

/-- A row without the mark at its end. -/
def Row.unmarked (r : Row) : Row := ⟨r.raw.dropLast.dropLast, r.code.dropLast.dropLast⟩

namespace Braced

variable {moved : Nat → Bool}

section Rows

/-- The rows from a number on, with the marks of some of them on lines of their own. -/
def lowered (moved : Nat → Bool) : Nat → List (Nat × Row) → List (Nat × Row)
  | _, [] => []
  | k, (d, r) :: rows =>
    if moved k then (d, r.unmarked) :: (d, ⟨['\x7b'], []⟩) :: lowered moved (k + 1) rows
    else (d, r) :: lowered moved (k + 1) rows

/-- The rows from a number on, some of them without their marks. -/
def unmarkedRows (moved : Nat → Bool) : Nat → List (Nat × Row) → List (Nat × Row)
  | _, [] => []
  | k, (d, r) :: rows => (d, if moved k then r.unmarked else r) :: unmarkedRows moved (k + 1) rows

theorem lowered_append (moved : Nat → Bool) : ∀ (k : Nat) (rows rows' : List (Nat × Row)),
    lowered moved k (rows ++ rows') =
      lowered moved k rows ++ lowered moved (k + rows.length) rows'
  | _, [], _ => rfl
  | k, (d, r) :: rows, rows' => by
    have ih := lowered_append moved (k + 1) rows rows'
    have hk : k + 1 + rows.length = k + (rows.length + 1) := by omega
    rw [hk] at ih
    rw [List.cons_append, lowered, lowered, ih, List.length_cons]
    split <;> rfl

theorem lowered_cons (k d : Nat) (r : Row) (rows : List (Nat × Row)) :
    lowered moved k ((d, r) :: rows) = lowered moved k [(d, r)] ++ lowered moved (k + 1) rows :=
  lowered_append moved k [(d, r)] rows

theorem unmarkedRows_append (moved : Nat → Bool) : ∀ (k : Nat) (rows rows' : List (Nat × Row)),
    unmarkedRows moved k (rows ++ rows') =
      unmarkedRows moved k rows ++ unmarkedRows moved (k + rows.length) rows'
  | _, [], _ => rfl
  | k, (d, r) :: rows, rows' => by
    have ih := unmarkedRows_append moved (k + 1) rows rows'
    have hk : k + 1 + rows.length = k + (rows.length + 1) := by omega
    rw [hk] at ih
    rw [List.cons_append, unmarkedRows, unmarkedRows, ih, List.length_cons]
    rfl

theorem length_unmarkedRows (moved : Nat → Bool) : ∀ (k : Nat) (rows : List (Nat × Row)),
    (unmarkedRows moved k rows).length = rows.length
  | _, [] => rfl
  | k, _ :: rows => congrArg (· + 1) (length_unmarkedRows moved (k + 1) rows)

end Rows

section Heads

theorem dropLast_mark (text : List Char) : (text ++ openingMark).dropLast.dropLast = text := by
  have hmark : text ++ openingMark = text ++ [' '] ++ ['\x7b'] := by simp [openingMark]
  rw [hmark, List.dropLast_concat, List.dropLast_concat]

theorem unmarked_plain (text : List Char) :
    (Row.plain (text ++ openingMark)).unmarked = .plain text := by
  rw [Row.unmarked, Row.plain, dropLast_mark, Row.plain]

/-- A head with a guard, from its opening to its parenthesis. -/
def closed (opening : String) (guard : List Char) : List Char :=
  opening.toList ++ (guard ++ [')'])

theorem headed_eq (opening : String) (guard : List Char) :
    headed opening guard = closed opening guard ++ openingMark := by
  simp [headed, closed, openingMark]

theorem legible_closed (g : Guard) {c : Char} (front : List Char) {balance : Int}
    (hc : isBlank c = false) (hplain : ∀ x ∈ c :: front, isPlain '/' x = true)
    (hb : braceBalance (c :: front) = balance) :
    Legible (c :: front ++ (g.text ++ [')'])) balance := by
  have htrim : trim (c :: front ++ (g.text ++ [')'])) = c :: front ++ (g.text ++ [')']) := by
    have happend : c :: front ++ (g.text ++ [')']) = c :: (front ++ g.text) ++ [')'] := by simp
    rw [happend]
    exact trim_cons_concat hc rfl
  have h := g.between (c :: front) hplain (List.all_eq_true.1 rfl) (by decide) htrim
  rwa [hb, show braceBalance [')'] = 0 from rfl, Int.add_zero] at h

/-- A row that opens a body and closes some braces in front of its code, with and without the mark
at its end. -/
structure Opens (r : Row) (closers : Nat) : Prop where
  legible : ∃ balance, Legible r.raw balance
  legible' : ∃ balance, Legible r.unmarked.raw balance
  reads : Reads r closers (1 - closers)
  reads' : Reads r.unmarked closers (-closers)
  unbraced : ∀ {p : Program} {i : Nat}, DeeperBelow p i → Unbraced p i r.code r.unmarked.code

theorem Opens.of_texts (closers : List Char) (c : Char) (rest : List Char) {n : Nat}
    (h : Legible (closers ++ (c :: rest ++ openingMark)) (1 - n))
    (h' : Legible (closers ++ c :: rest) (-n)) (hn : closers.count '\x7d' = n)
    (hclosers : ∀ x ∈ closers, (isBlank x || x == '\x7d') = true) (hc : isBlank c = false)
    (hdirective : c ≠ '#') (hcode : isPunctuation [c] = false)
    (hun : ∀ {p : Program} {i : Nat}, DeeperBelow p i →
      Unbraced p i (c :: rest ++ openingMark) (c :: rest)) :
    Opens ⟨closers ++ (c :: rest ++ openingMark), c :: rest ++ openingMark⟩ n := by
  have hcodeOf (rest : List Char) : codeOf (c :: rest) = c :: rest := by
    rw [isPunctuation, List.all_cons, List.all_nil, Bool.and_true] at hcode
    rw [codeOf, isPunctuation, List.all_cons, hcode]
    rfl
  have hclosing : c ≠ '\x7d' := by
    rintro rfl
    cases hcode
  have hrow : (⟨closers ++ (c :: rest ++ openingMark), c :: rest ++ openingMark⟩ : Row).unmarked =
      ⟨closers ++ c :: rest, c :: rest⟩ := by
    rw [Row.unmarked, ← List.append_assoc, dropLast_mark, dropLast_mark]
  have hreads := reads_legible closers h hclosers hc hclosing hdirective
  have hreads' := reads_legible closers h' hclosers hc hclosing hdirective
  rw [hcodeOf, hn] at hreads
  rw [hcodeOf, hn] at hreads'
  refine ⟨⟨_, h⟩, ?_, hreads, ?_, ?_⟩ <;> rw [hrow]
  · exact ⟨_, h'⟩
  · exact hreads'
  · exact hun

variable {p : Program} {i : Nat}

/-- A head with a guard opens the block below it without its mark too. -/
theorem unbraced_headed (g : Guard) {opening : String} (keyword : List Char)
    (hopening : opening.toList = keyword ++ ['(']) (hkeyword : '(' ∉ keyword)
    (hfunction : functionHeader? (closed opening g.text) = none)
    (hfor : isFor (headed opening g.text) = true →
      ∃ init test step, splitSemicolons g.text = [init, test, step])
    (htail : isElse (headed opening g.text) = true → isElseIf (headed opening g.text) = true ∧
      isIf (afterElse (headed opening g.text)) = true ∧
        Reopens p i (afterElse (headed opening g.text)) (afterElse (closed opening g.text)))
    (hshaped : (isIf (headed opening g.text) || (isElse (headed opening g.text) ||
      (isWhile (headed opening g.text) || isFor (headed opening g.text)))) = true)
    (hdeeper : DeeperBelow p i) :
    Unbraced p i (headed opening g.text) (closed opening g.text) := by
  have hheader : header? (headed opening g.text) = some (g.text, ['\x7b']) := by
    rw [headed, hopening, List.append_assoc]
    exact header?_guard g keyword hkeyword
  have hheader' : header? (closed opening g.text) = some (g.text, []) := by
    rw [closed, hopening, List.append_assoc]
    exact header?_tail g hkeyword []
  exact {
    marked := headed_eq _ _
    opened := fun _ => ⟨hdeeper, g.text, hheader, hheader'⟩
    function := fun _ => hfunction
    clauses := fun h => by
      obtain ⟨init, test, step, hsplit⟩ := hfor h
      exact ⟨g.text, init, test, step, hheader, hsplit⟩
    tail := fun h => .inl (htail h)
    shaped := .inr hshaped }

theorem unbraced_if (g : Guard) (h : DeeperBelow p i) :
    Unbraced p i (headed "if (" g.text) (closed "if (" g.text) := by
  have hfor : isFor (headed "if (" g.text) = false := rfl
  have helse : isElse (headed "if (" g.text) = false := rfl
  exact unbraced_headed g "if ".toList rfl (by decide) rfl
    (fun hc => absurd (hfor.symm.trans hc) Bool.false_ne_true)
    (fun hc => absurd (helse.symm.trans hc) Bool.false_ne_true) rfl h

theorem unbraced_while (g : Guard) (h : DeeperBelow p i) :
    Unbraced p i (headed "while (" g.text) (closed "while (" g.text) := by
  have hfor : isFor (headed "while (" g.text) = false := rfl
  have helse : isElse (headed "while (" g.text) = false := rfl
  exact unbraced_headed g "while ".toList rfl (by decide) rfl
    (fun hc => absurd (hfor.symm.trans hc) Bool.false_ne_true)
    (fun hc => absurd (helse.symm.trans hc) Bool.false_ne_true) rfl h

theorem unbraced_for (c : Clauses) (h : DeeperBelow p i) :
    Unbraced p i (headed "for (" c.text) (closed "for (" c.text) := by
  have helse : isElse (headed "for (" c.text) = false := rfl
  exact unbraced_headed c.toGuard "for ".toList rfl (by decide) rfl
    (fun _ => ⟨c.init, c.test, c.step, c.clauses⟩)
    (fun hc => absurd (helse.symm.trans hc) Bool.false_ne_true) rfl h

theorem legible_closed_if (g : Guard) : Legible (closed "if (" g.text) 0 :=
  legible_closed g "f (".toList rfl (List.all_eq_true.1 rfl) rfl

theorem unbraced_elseIf (g : Guard) (h : DeeperBelow p i) :
    Unbraced p i (headed "else if (" g.text) (closed "else if (" g.text) := by
  have hfor : isFor (headed "else if (" g.text) = false := rfl
  have hdrop : (closed "else if (" g.text).drop 4 = ' ' :: closed "if (" g.text := rfl
  have hafter : afterElse (closed "else if (" g.text) = closed "if (" g.text := by
    rw [afterElse, hdrop, trim_cons_blank rfl, (legible_closed_if g).trimmed]
  refine unbraced_headed g "else if ".toList rfl (by decide) rfl
    (fun hc => absurd (hfor.symm.trans hc) Bool.false_ne_true) ?_ rfl h
  rw [afterElse_if, hafter]
  exact fun _ => ⟨rfl, rfl, (unbraced_if g h).toReopens⟩

theorem unbraced_else (h : DeeperBelow p i) :
    Unbraced p i "else \x7b".toList "else".toList where
  marked := rfl
  opened hc := absurd hc Bool.false_ne_true
  function _ := rfl
  clauses hc := absurd hc Bool.false_ne_true
  tail _ := .inr ⟨rfl, h, by decide, by decide⟩
  shaped := .inr rfl

/-- A function does not start with a word that no function starts with. -/
theorem dropWord?_of_function {text : List Char} {header : FunctionHeader} {word : String}
    (hword : ∀ rest, functionHeader? (word.toList ++ rest) = none)
    (h : functionHeader? text = some header) : dropWord? word text = none := by
  rw [dropWord?, if_neg]
  intro hp
  obtain ⟨rest, rfl⟩ := List.isPrefixOf_iff_prefix.1 hp
  rw [hword] at h
  cases h

theorem unbraced_signature (s : Signature) : Unbraced p i (s.text ++ openingMark) s.text := by
  have h : functionHeader? (s.text ++ openingMark) = some ⟨s.name, s.params, some '\x7b'⟩ :=
    s.isHeader
  have hwhile : isWhile (s.text ++ openingMark) = false := by
    rw [isWhile, opensWith, dropWord?_of_function (fun _ => rfl) h]
    rfl
  have hfor : isFor (s.text ++ openingMark) = false := by
    rw [isFor, opensWith, dropWord?_of_function (fun _ => rfl) h]
    rfl
  have hif : isIf (s.text ++ openingMark) = false := by
    rw [isIf, isElseIf, opensWith, dropWord?_of_function (fun _ => rfl) h,
      dropWord?_of_function (fun _ => rfl) h]
    rfl
  have helse : isElse (s.text ++ openingMark) = false := s.notElse
  exact {
    marked := rfl
    opened := by
      rw [hif, hwhile, hfor]
      exact fun hc => absurd hc Bool.false_ne_true
    function := fun hnone => absurd (h.symm.trans hnone) (Option.some_ne_none _)
    clauses := fun hc => absurd (hfor.symm.trans hc) Bool.false_ne_true
    tail := fun hc => absurd (helse.symm.trans hc) Bool.false_ne_true
    shaped := .inl fun hnone => absurd (h.symm.trans hnone) (Option.some_ne_none _) }

/-- A head with a guard opens a body. -/
theorem opens_headed (g : Guard) (closers : List Char) (opening : String) (n : Nat) {c : Char}
    {front : List Char} (hopening : opening.toList = c :: front)
    (h : Legible (closers ++ headed opening g.text) (1 - n))
    (h' : Legible (closers ++ closed opening g.text) (-n)) (hn : closers.count '\x7d' = n)
    (hclosers : ∀ x ∈ closers, (isBlank x || x == '\x7d') = true) (hc : isBlank c = false)
    (hdirective : c ≠ '#') (hcode : isPunctuation [c] = false)
    (hun : ∀ {p : Program} {i : Nat}, DeeperBelow p i →
      Unbraced p i (headed opening g.text) (closed opening g.text)) :
    Opens ⟨closers ++ headed opening g.text, headed opening g.text⟩ n := by
  have hclosed : closed opening g.text = c :: (front ++ (g.text ++ [')'])) := by
    rw [closed, hopening, List.cons_append]
  rw [headed_eq, hclosed] at h hun ⊢
  rw [hclosed] at h'
  exact .of_texts closers c _ h h' hn hclosers hc hdirective hcode hun

theorem opens_if (g : Guard) : Opens (grammar.rowOfIf g) 0 :=
  opens_headed g [] "if (" 0 rfl (legible_if g) (legible_closed_if g) rfl (by simp) rfl
    (by decide) rfl (unbraced_if g)

theorem opens_elseIf (g : Guard) : Opens (grammar.rowOfElseIf g) 1 :=
  opens_headed g ['\x7d', ' '] "else if (" 1 rfl (legible_elseIf g)
    (legible_closed g " else if (".toList rfl (List.all_eq_true.1 rfl) rfl) rfl
    (List.all_eq_true.1 rfl) rfl (by decide) rfl (unbraced_elseIf g)

theorem opens_else : Opens grammar.rowOfElse 1 :=
  .of_texts ['\x7d', ' '] 'e' "lse".toList (n := 1) legible_else
    ⟨by decide, by decide, by decide, by decide, by decide⟩ rfl (List.all_eq_true.1 rfl) rfl
    (by decide) rfl unbraced_else

theorem opens_head (h : Head) : Opens (grammar.rowOfHead h) 0 := by
  cases h with
  | whileLoop g =>
    exact opens_headed g [] "while (" 0 rfl (legible_while g)
      (legible_closed (c := 'w') g "hile (".toList rfl (List.all_eq_true.1 rfl) rfl) rfl (by simp)
      rfl (by decide) rfl (unbraced_while g)
  | forLoop c =>
    exact opens_headed c.toGuard [] "for (" 0 rfl (legible_for c.toGuard)
      (legible_closed (c := 'f') c.toGuard "or (".toList rfl (List.all_eq_true.1 rfl) rfl) rfl
      (by simp) rfl (by decide) rfl (unbraced_for c)
  | define s =>
    obtain ⟨c, rest, hs, hc, hdirective, -, hpunctuation⟩ := s.exists_cons
    have hlegible : Legible ([] ++ (s.text ++ openingMark)) 1 := legible_signature s
    have hun {p : Program} {i : Nat} (_ : DeeperBelow p i) := unbraced_signature (p := p) (i := i) s
    show Opens ⟨[] ++ (s.text ++ openingMark), s.text ++ openingMark⟩ 0
    rw [hs] at hlegible hun ⊢
    exact .of_texts [] c rest hlegible (hs ▸ s.legible) rfl (by simp) hc hdirective hpunctuation hun

/-- The body of a function need not hold code. -/
theorem unbraced_function {head : Head} (h : (grammar.function? head).isSome = true) :
    Unbraced p i (grammar.rowOfHead head).code (grammar.rowOfHead head).unmarked.code := by
  cases head with
  | whileLoop g => cases h
  | forLoop c => cases h
  | define s =>
    have hrow : (grammar.rowOfHead (.define s)).unmarked = .plain s.text := unmarked_plain s.text
    rw [hrow]
    exact unbraced_signature s

end Heads

section Layout

variable {indent before mid after d k : Nat} {r : Row} {rows rows' : List (Nat × Row)}

/-- Rows that can be read and are laid out as what they are. -/
structure Laid (indent before : Nat) (rows : List (Nat × Row)) (after : Nat) : Prop where
  lays : Lays indent before rows after
  legible : ∀ x ∈ rows, ∃ balance, Legible x.2.raw balance

theorem Laid.append (h : Laid indent before rows mid) (h' : Laid indent mid rows' after) :
    Laid indent before (rows ++ rows') after :=
  ⟨h.lays.append h'.lays, fun x hx => (List.mem_append.1 hx).elim (h.legible x) (h'.legible x)⟩

theorem laid_row {closers : Nat} {balance : Int} (h : Reads r closers balance)
    (hlegible : ∃ balance, Legible r.raw balance) (hd : before - closers = d)
    (hafter : (before + balance).toNat = after) : Laid indent before [(d, r)] after :=
  ⟨h.lays hd hafter, fun x hx => by rwa [List.mem_singleton.1 hx]⟩

/-- The brace of a head is open below it, wherever it stands. -/
theorem Opens.laid {closers : Nat} (h : Opens r closers) (indent d k : Nat) :
    Laid indent (d + closers) (lowered moved k [(d, r)]) (d + 1) := by
  rw [lowered]
  split
  · have hbrace : Laid indent d [(d, ⟨['\x7b'], []⟩)] (d + 1) :=
      laid_row (fun _ _ => rfl) ⟨1, by decide, by decide, by decide, by decide, by decide⟩ rfl rfl
    exact (laid_row h.reads' h.legible' (by omega) (by omega)).append hbrace
  · exact laid_row h.reads h.legible (by omega) (by omega)

theorem laid_closing (hk : ∀ j < grammar.closing.length, moved (k + j) = false) :
    Laid indent (d + 1) (lowered moved k (grammar.closing.map (d, ·))) d := by
  have hlowered : lowered moved k (grammar.closing.map (d, ·)) = [(d, ⟨['\x7d'], []⟩)] := by
    show lowered moved k [(d, ⟨['\x7d'], []⟩)] = _
    have hk : moved k = false := hk 0 (by decide)
    rw [lowered, hk]
    rfl
  rw [hlowered]
  exact laid_row reads_closing ⟨-1, legible_closing⟩ rfl (by omega)

mutual

theorem laid_stmt (indent : Nat) : ∀ (s : Stmt grammar) (d k : Nat), s.Lowerable moved k →
    Laid indent d (lowered moved k (s.rows d)) d
  | .simple s, d, k, h => by
    rw [Stmt.Lowerable] at h
    rw [Stmt.rows, lowered, h]
    exact laid_row (reads_simple s) ⟨0, s.legible⟩ rfl (by omega)
  | .branch g body more, d, k, h => by
    obtain ⟨-, hbody, hmore⟩ := h
    rw [Stmt.rows, lowered_cons, lowered_append, body.length_rows]
    exact ((opens_if g).laid indent d k).append
      ((laid_stmts indent body (d + 1) (k + 1) hbody).append (laid_branches indent more d _ hmore))
  | .compound head body, d, k, h => by
    obtain ⟨-, hbody, hclosing⟩ := h
    rw [Stmt.rows, lowered_cons, lowered_append, body.length_rows]
    exact ((opens_head head).laid indent d k).append
      ((laid_stmts indent body (d + 1) (k + 1) hbody).append (laid_closing hclosing))

theorem laid_branches (indent : Nat) : ∀ (b : Branches grammar) (d k : Nat), b.Lowerable moved k →
    Laid indent (d + 1) (lowered moved k (b.rows d)) d
  | .done, d, k, h => by
    rw [Branches.rows]
    exact laid_closing h
  | .otherwise body, d, k, h => by
    obtain ⟨-, hbody, hclosing⟩ := h
    rw [Branches.rows, lowered_cons, lowered_append, body.length_rows]
    exact (opens_else.laid indent d k).append
      ((laid_stmts indent body (d + 1) (k + 1) hbody).append (laid_closing hclosing))
  | .elseIf g body more, d, k, h => by
    obtain ⟨-, hbody, hmore⟩ := h
    rw [Branches.rows, lowered_cons, lowered_append, body.length_rows]
    exact ((opens_elseIf g).laid indent d k).append
      ((laid_stmts indent body (d + 1) (k + 1) hbody).append (laid_branches indent more d _ hmore))

theorem laid_stmts (indent : Nat) : ∀ (ss : Stmts grammar) (d k : Nat), ss.Lowerable moved k →
    Laid indent d (lowered moved k (ss.rows d)) d
  | .nil, d, k, _ => ⟨fun _ _ => rfl, fun _ hx => absurd hx List.not_mem_nil⟩
  | .cons s ss, d, k, ⟨hs, hss⟩ => by
    rw [Stmts.rows, lowered_append, s.length_rows]
    exact (laid_stmt indent s d k hs).append (laid_stmts indent ss d _ hss)

end

/-- The line that stands in a text without rows. -/
def blankBelow (rows : List (Nat × Row)) : List Line :=
  if rows.isEmpty then [⟨[], 0, 0, true⟩] else []

theorem layout_laid (h : Laid indent 0 rows 0) :
    layout .braced (['\n'].intercalate (rows.map (written indent))) =
      ⟨linesFrom 0 rows ++ blankBelow rows, 1⟩ := by
  by_cases hne : rows = []
  · subst hne
    rfl
  · have hlines := h.lays 0 []
    rw [List.append_nil] at hlines
    rw [layout, braceLayout, sourceLines_written indent h.legible hne, hlines, blankBelow,
      if_neg (by simpa using hne)]
    rfl

end Layout

section Counterparts

variable {p : Program} {i d k : Nat} {r : Row} {rows rows' : List (Nat × Row)} {rest : List Line}

theorem Unbraced.ne_nil {text text' : List Char} (h : Unbraced p i text text') : text' ≠ [] := by
  rintro rfl
  have hshaped := h.shaped
  rw [h.marked] at hshaped
  rcases hshaped with hne | hnot
  · exact hne rfl
  · cases hnot

/-- Rows with and without the marks of some of them make lines that belong together. -/
def Counterparts (p : Program) (moved : Nat → Bool) (k : Nat) (rows : List (Nat × Row)) : Prop :=
  List.Forall₂ (Counterpart p) (linesFrom k rows) (linesFrom k (unmarkedRows moved k rows))

theorem Counterparts.append (h : Counterparts p moved k rows)
    (h' : Counterparts p moved (k + rows.length) rows') :
    Counterparts p moved k (rows ++ rows') := by
  rw [Counterparts, unmarkedRows_append, linesFrom_append, linesFrom_append, length_unmarkedRows]
  exact List.rel_append h h'

theorem Counterparts.cons (hrow : moved k = true → Unbraced p k r.code r.unmarked.code)
    (h : Counterparts p moved (k + 1) rows) : Counterparts p moved k ((d, r) :: rows) := by
  refine List.Forall₂.cons ?_ h
  split
  · rename_i hk
    have hun := hrow hk
    have hblank : r.unmarked.code.isEmpty = r.code.isEmpty := by
      have hne : r.code ≠ [] := by
        rw [hun.marked]
        simp [openingMark]
      rw [List.isEmpty_eq_false_iff.2 hun.ne_nil, List.isEmpty_eq_false_iff.2 hne]
    exact ⟨hblank, rfl, rfl, .inr hun⟩
  · exact ⟨rfl, rfl, rfl, .inl rfl⟩

theorem counterparts_closing (hk : ∀ j < grammar.closing.length, moved (k + j) = false) :
    Counterparts p moved k (grammar.closing.map (d, ·)) := by
  refine .cons (fun hmoved => ?_) .nil
  rw [show moved k = false from hk 0 (by decide)] at hmoved
  cases hmoved

/-- Below a head whose body holds code, the next line with code is deeper. -/
theorem deeperBelow {body : Stmts grammar} (h : body.holdsCode = true)
    (hp : Placed p i ((d, r) :: (body.rows (d + 1) ++ rows)) rest) : DeeperBelow p i := by
  obtain ⟨hlt, hdepth⟩ := body.nextCodeLine_of_holdsCode (grammar_lawful plain) h hp.tail
  refine ⟨hlt, ?_⟩
  rw [hdepth, hp.line]
  exact Nat.lt_succ_self d

mutual

theorem counterparts_stmt : ∀ (s : Stmt grammar) {d k : Nat} {rest : List Line},
    Placed p k (s.rows d) rest → s.Lowerable moved k → Counterparts p moved k (s.rows d)
  | .simple s, d, k, _, _, h => by
    rw [Stmt.Lowerable] at h
    refine .cons (fun hmoved => ?_) .nil
    rw [h] at hmoved
    cases hmoved
  | .branch g body more, d, k, _, hp, ⟨hk, hbody, hmore⟩ => by
    rw [Stmt.rows] at hp ⊢
    refine .cons (fun hmoved => (opens_if g).unbraced (deeperBelow (hk hmoved) hp)) ?_
    refine (counterparts_stmts body hp.inside hbody).append ?_
    rw [body.length_rows]
    exact counterparts_branches more hp.below hmore
  | .compound head body, d, k, _, hp, ⟨hk, hbody, hclosing⟩ => by
    rw [Stmt.rows] at hp ⊢
    refine .cons (fun hmoved => ?_) ?_
    · rcases hk hmoved with hfunction | hcode
      · exact unbraced_function hfunction
      · exact (opens_head head).unbraced (deeperBelow hcode hp)
    · refine (counterparts_stmts body hp.inside hbody).append ?_
      rw [body.length_rows]
      exact counterparts_closing hclosing

theorem counterparts_branches : ∀ (b : Branches grammar) {d k : Nat} {rest : List Line},
    Placed p k (b.rows d) rest → b.Lowerable moved k → Counterparts p moved k (b.rows d)
  | .done, d, k, _, _, h => counterparts_closing h
  | .otherwise body, d, k, _, hp, ⟨hk, hbody, hclosing⟩ => by
    rw [Branches.rows] at hp ⊢
    refine .cons (fun hmoved => opens_else.unbraced (deeperBelow (hk hmoved) hp)) ?_
    refine (counterparts_stmts body hp.inside hbody).append ?_
    rw [body.length_rows]
    exact counterparts_closing hclosing
  | .elseIf g body more, d, k, _, hp, ⟨hk, hbody, hmore⟩ => by
    rw [Branches.rows] at hp ⊢
    refine .cons (fun hmoved => (opens_elseIf g).unbraced (deeperBelow (hk hmoved) hp)) ?_
    refine (counterparts_stmts body hp.inside hbody).append ?_
    rw [body.length_rows]
    exact counterparts_branches more hp.below hmore

theorem counterparts_stmts : ∀ (ss : Stmts grammar) {d k : Nat} {rest : List Line},
    Placed p k (ss.rows d) rest → ss.Lowerable moved k → Counterparts p moved k (ss.rows d)
  | .nil, d, k, _, _, _ => .nil
  | .cons s ss, d, k, _, hp, ⟨hs, hss⟩ => by
    rw [Stmts.rows] at hp ⊢
    refine (counterparts_stmt s hp.left hs).append ?_
    have hright := hp.right
    rw [s.length_rows] at hright ⊢
    exact counterparts_stmts ss hright hss

end

end Counterparts

section Positions

/-- The line where a line is found when the marks of some lines above it are on lines of their
own. -/
def loweredLine (moved : Nat → Bool) (line : Int) : Int :=
  line + (List.range line.toNat).countP moved

/-- The lines that are put in for the marks of rows from a number on. -/
def loweringEdits (moved : Nat → Bool) : Nat → List (Nat × Row) → List Edit
  | _, [] => []
  | k, _ :: rows =>
    if moved k then .keep [] :: .insert [] :: loweringEdits moved (k + 1) rows
    else .keep [] :: loweringEdits moved (k + 1) rows

/-- A row moves down by the number of marks that are moved above it. -/
theorem position_lowering (moved : Nat → Bool) : ∀ (rows : List (Nat × Row)) (k : Nat) {i : Nat},
    i < rows.length → Edit.position (loweringEdits moved k rows) i =
      i + (List.range i).countP fun j => moved (k + j)
  | _ :: rows, k, 0, _ => by
    rw [loweringEdits]
    split <;> rfl
  | _ :: rows, k, i + 1, hi => by
    have ih := position_lowering moved rows (k + 1) (Nat.lt_of_succ_lt_succ hi)
    have hshift : (fun j => moved (k + j)) ∘ Nat.succ = fun j => moved (k + 1 + j) := by
      funext j
      exact congrArg moved (by rw [Nat.succ_eq_add_one]; omega)
    rw [List.range_succ_eq_map, List.countP_cons, List.countP_map, hshift, loweringEdits]
    cases moved k <;> simp only [Nat.add_zero, if_true, Bool.false_eq_true, if_false,
      Edit.position, ih] <;> omega

theorem spread_lowered (moved : Nat → Bool) {rest : List Line} : ∀ (rows : List (Nat × Row))
    (k n n' : Nat), Spread id (loweringEdits moved k rows)
      (linesFrom n (unmarkedRows moved k rows) ++ rest)
      (linesFrom n' (lowered moved k rows) ++ rest)
  | [], _, _, _ => .nil (List.forall₂_same.2 fun _ _ => ⟨rfl, fun _ => ⟨rfl, rfl⟩⟩)
  | (d, r) :: rows, k, n, n' => by
    rw [loweringEdits, unmarkedRows, lowered]
    split
    · exact .keep ⟨rfl, fun _ => ⟨rfl, rfl⟩⟩
        (.insert rfl (spread_lowered moved rows (k + 1) (n + 1) (n' + 1 + 1)))
    · exact .keep ⟨rfl, fun _ => ⟨rfl, rfl⟩⟩ (spread_lowered moved rows (k + 1) (n + 1) (n' + 1))

end Positions

/-- A tree as a source text in which the braces that open bodies on some rows stand on lines of
their own. -/
def renderLowered (indent : Nat) (moved : Nat → Bool) (t : Stmts grammar) : String :=
  String.ofList (['\n'].intercalate ((lowered moved 0 (t.rows 0)).map (written indent)))

section Runs

/-- The program that rows make, with some lines below them. -/
def programOf (rows : List (Nat × Row)) (rest : List Line) : Program :=
  ⟨linesFrom 0 rows ++ rest, 1⟩

theorem isEmpty_lowered (k : Nat) (rows : List (Nat × Row)) :
    (lowered moved k rows).isEmpty = rows.isEmpty := by
  cases rows with
  | nil => rfl
  | cons x rows =>
    rw [lowered]
    split <;> rfl

/-- A line with code is found below the marks that were above it. -/
theorem carries_lowered (rows : List (Nat × Row)) :
    Carries (loweredLine moved) (programOf (unmarkedRows moved 0 rows) (blankBelow rows))
      (programOf (lowered moved 0 rows) (blankBelow rows)) := by
  intro i i' t
  have hi : i < rows.length := by
    have hlt := t.here.lt_size
    have hblank := t.here.not_blank
    rcases rows with _ | ⟨x, rows⟩
    · obtain rfl : i = 0 := Nat.lt_one_iff.1 hlt
      cases hblank
    · have hnil : blankBelow (x :: rows) = [] := rfl
      rwa [Program.size, programOf, hnil, List.append_nil, length_linesFrom,
        length_unmarkedRows] at hlt
  rw [← (spread_lowered moved rows 0 0 0).carries t, Edit.place, Int.toNat_natCast,
    position_lowering moved rows 0 hi, loweredLine, Int.toNat_natCast]
  simp

/-- A written tree does the same when marks of its heads are on lines of their own. -/
theorem outcome_lowered (indent : Nat) (t : Stmts grammar) (h : t.Lowerable moved 0)
    (limits : Limits) : ∃ (result : Except Fault Unit) (m : Machine),
      (Stepwise.runProgram .braced limits (layout .braced (render indent t).toList)).outcome {} =
        (result, m) ∧
      (Stepwise.runProgram .braced limits
        (layout .braced (renderLowered indent moved t).toList)).outcome {} =
          (result, m.relocate (loweredLine moved)) := by
  have hplain : Laid indent 0 (t.rows 0) 0 :=
    ⟨lays_stmts (S := plain) indent t 0,
      fun x hx => (t.mem_rows (allRows_legible (S := plain)) 0 hx).2⟩
  have hp : layout .braced (render indent t).toList =
      programOf (t.rows 0) (blankBelow (t.rows 0)) := by
    rw [render, String.toList_ofList, layout_laid hplain, programOf]
  have hp' : layout .braced (renderLowered indent moved t).toList =
      programOf (lowered moved 0 (t.rows 0)) (blankBelow (t.rows 0)) := by
    rw [renderLowered, String.toList_ofList, layout_laid (laid_stmts indent t 0 0 h), blankBelow,
      isEmpty_lowered, programOf, blankBelow]
  have hplaced : Placed (programOf (t.rows 0) (blankBelow (t.rows 0))) 0 (t.rows 0)
      (blankBelow (t.rows 0)) := rfl
  -- Between the two programs stands the one whose heads lack the marks that are moved.
  have hreopened : Reopened (programOf (t.rows 0) (blankBelow (t.rows 0)))
      (programOf (unmarkedRows moved 0 (t.rows 0)) (blankBelow (t.rows 0))) :=
    ⟨List.rel_append (counterparts_stmts t hplaced h)
      (List.forall₂_same.2 fun _ _ => ⟨rfl, rfl, rfl, .inl rfl⟩),
      hp ▸ layout_numbered .braced (render indent t).toList⟩
  have hsame : SameCode id (programOf (unmarkedRows moved 0 (t.rows 0)) (blankBelow (t.rows 0)))
      (programOf (lowered moved 0 (t.rows 0)) (blankBelow (t.rows 0))) :=
    ⟨strictMono_id, (spread_lowered moved (t.rows 0) 0 0 0).code, Nat.one_pos, Nat.one_pos,
      hreopened.numbered', hp' ▸ layout_numbered .braced (renderLowered indent moved t).toList⟩
  have hrun : Stepwise.runProgram .braced limits
      (programOf (unmarkedRows moved 0 (t.rows 0)) (blankBelow (t.rows 0))) =
        Stepwise.runProgram .braced limits (programOf (t.rows 0) (blankBelow (t.rows 0))) :=
    hreopened.runProgram_eq limits
  rw [hp, hp', ← hrun]
  exact outcome_sameCode hsame (fun _ => rfl) (carries_lowered (t.rows 0)) limits

end Runs

/-- The brace that opens a body may stand on the line of its head or on the one below: moving the
braces of any heads to lines of their own, where the bodies of the branches and loops among them
hold code, leaves the run as it was, with the same result, steps and warnings on other lines. -/
theorem traceSteps_lowered (indent : Nat) (t : Stmts grammar) {moved : Nat → Bool}
    (h : t.Lowerable moved 0) (limits : Limits) :
    let run := (Stepwise.runProgram .braced limits
      (layout .braced (render indent t).toList)).outcome {}
    (Stepwise.runProgram .braced limits
        (layout .braced (renderLowered indent moved t).toList)).outcome {} =
      (run.1, run.2.relocate (loweredLine moved)) ∧
    (traceSteps .braced limits (renderLowered indent moved t)).result =
      (traceSteps .braced limits (render indent t)).result.map
        (List.map (Step.relocate (loweredLine moved))) := by
  obtain ⟨result, m, hx, hy⟩ := outcome_lowered indent t h limits
  refine ⟨by rw [hx, hy], ?_⟩
  rw [traceSteps_eq, traceSteps_eq, hx, hy]
  cases result with
  | error fault => rfl
  | ok _ => exact congrArg Except.ok List.map_reverse.symm

section Examples

/-- The head of a `main` without parameters. -/
def mainHead : Signature where
  text := "int main(void)".toList
  legible := ⟨by decide, by decide, by decide, by decide, by decide⟩
  closed := by decide
  name := "main"
  params := "void".toList
  isHeader := rfl

/-- A function without code and a loop around a chain of branches. -/
def countdown : Stmts grammar :=
  let idle : Signature :=
    ⟨⟨"void idle()".toList, ⟨by decide, by decide, by decide, by decide, by decide⟩, by decide⟩,
      "idle", [], rfl⟩
  let clauses : Clauses :=
    ⟨⟨⟨"i = 2; i; i--".toList, ⟨by decide, by decide, by decide, by decide, by decide⟩,
      by decide⟩, by decide⟩, "i = 2".toList, "i".toList, "i--".toList, by decide⟩
  let guard : Guard :=
    ⟨⟨"i > 1".toList, ⟨by decide, by decide, by decide, by decide, by decide⟩, by decide⟩,
      by decide⟩
  let call : SimpleText :=
    ⟨"idle();".toList, ⟨by decide, by decide, by decide, by decide, by decide⟩, by decide,
      by decide, by decide, by decide, by decide, by decide, by decide, by decide⟩
  let reset : SimpleText :=
    ⟨"n = 0;".toList, ⟨by decide, by decide, by decide, by decide, by decide⟩, by decide,
      by decide, by decide, by decide, by decide, by decide, by decide, by decide⟩
  .cons (.compound (.define idle) .nil) (.cons (.compound (.define mainHead)
    (.cons (.compound (.forLoop clauses) (.cons (.branch guard (.cons (.simple call) .nil)
      (.elseIf guard .nil (.otherwise (.cons (.simple reset) .nil)))) .nil)) .nil)) .nil)

/-- Function heads, a loop and branches, some of them with the brace on the next line. -/
theorem traceSteps_lowered_countdown :
    let moved := fun k => decide (k ∈ [0, 2, 3, 4, 7])
    countdown.Lowerable moved 0 ∧
    renderLowered 0 moved countdown =
      "void idle()\n\x7b\n\x7d\nint main(void)\n\x7b\nfor (i = 2; i; i--)\n\x7b\nif (i > 1)\n" ++
      "\x7b\nidle();\n\x7d else if (i > 1) \x7b\n\x7d else\n\x7b\nn = 0;\n\x7d\n\x7d\n\x7d" ∧
    (traceSteps .braced {} (renderLowered 0 moved countdown)).result =
      (traceSteps .braced {} (render 0 countdown)).result.map
        (List.map (Step.relocate (loweredLine moved))) := by
  intro moved
  have h : countdown.Lowerable moved 0 := by
    refine ⟨⟨fun _ => .inl rfl, trivial, by decide⟩, ⟨fun _ => .inl rfl, ⟨⟨fun _ => .inr rfl,
      ⟨⟨fun _ => rfl, ⟨rfl, trivial⟩, ?_⟩, trivial⟩, by decide⟩, trivial⟩, by decide⟩,
      trivial⟩
    exact ⟨by decide, trivial, fun _ => rfl, ⟨rfl, trivial⟩, by decide⟩
  exact ⟨h, by decide, (traceSteps_lowered 0 countdown h {}).2⟩

/-- A branch without code and a statement behind it. -/
def emptiedBranch : Stmts grammar :=
  let guard : Guard :=
    ⟨⟨"0".toList, ⟨by decide, by decide, by decide, by decide, by decide⟩, by decide⟩, by decide⟩
  let next : SimpleText :=
    ⟨"y = 1;".toList, ⟨by decide, by decide, by decide, by decide, by decide⟩, by decide,
      by decide, by decide, by decide, by decide, by decide, by decide, by decide⟩
  .cons (.compound (.define mainHead)
    (.cons (.branch guard .nil .done) (.cons (.simple next) .nil))) .nil

/-- The body of a branch has to hold code: here the statement behind an empty one is taken for it,
and does not run because the guard does not hold. -/
theorem traceSteps_lowered_emptied :
    renderLowered 0 (· == 1) emptiedBranch =
      "int main(void) \x7b\nif (0)\n\x7b\n\x7d\ny = 1;\n\x7d" ∧
    (traceSteps .braced {} (renderLowered 0 (· == 1) emptiedBranch)).result ≠
      (traceSteps .braced {} (render 0 emptiedBranch)).result.map
        (List.map (Step.relocate (loweredLine (· == 1)))) := by
  refine ⟨by decide, fun h => ?_⟩
  have hkinds := congrArg (fun result => result.toOption.map (List.map Step.kind)) h
  revert hkinds
  decide +kernel

end Examples

end Braced

end Stepwise
