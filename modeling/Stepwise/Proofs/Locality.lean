import Stepwise.Proofs.TokenCuts

/-!
# Expressions in front of a bracket or a comma

What the parser reads of some tokens, it reads as well if a closing bracket or a comma and any more
tokens follow (`Persists`). This holds of each of its functions, with any fuel that was enough
before (`Local`). Hence a text between brackets is read as it is on its own (`parse_element`).
-/

namespace Stepwise

namespace Expr

open Token

variable {α β : Type} {dialect : Dialect} {ext : List Token}

/-- What the first reads, the second reads too, and leaves the tokens `ext` over as well. -/
def Persists (ext : List Token) (x x' : Except ParseError (α × List Token)) : Prop :=
  ∀ a rest, x = .ok (a, rest) → x' = .ok (a, rest ++ ext)

namespace Persists

theorem pure (a : α) (ts : List Token) :
    Persists ext (Pure.pure (a, ts)) (Pure.pure (a, ts ++ ext)) := by
  rintro _ _ ⟨⟩
  rfl

theorem throw (e : ParseError) (x : Except ParseError (α × List Token)) :
    Persists ext (MonadExcept.throw e) x := by
  intro a rest h
  cases h

theorem bind {x x' : Except ParseError (α × List Token)}
    {f f' : α × List Token → Except ParseError (β × List Token)} (hx : Persists ext x x')
    (hf : ∀ a rest, Persists ext (f (a, rest)) (f' (a, rest ++ ext))) :
    Persists ext (x >>= f) (x' >>= f') := by
  intro b rest h
  cases x with
  | error e => cases h
  | ok p =>
    rw [hx p.1 p.2 rfl]
    exact hf p.1 p.2 b rest h

theorem expect (kind : TokenKind) : ∀ ts, Persists ext (expect kind ts) (expect kind (ts ++ ext))
  | [] => throw _ _
  | t :: ts => by
    rw [List.cons_append, Expr.expect, Expr.expect]
    split_ifs
    · exact pure _ _
    · exact throw _ _

theorem close (kind : TokenKind) (a : α) (ts : List Token) :
    Persists ext (Expr.expect kind ts >>= fun p => Pure.pure (a, p.2))
      (Expr.expect kind (ts ++ ext) >>= fun p => Pure.pure (a, p.2)) :=
  (expect kind ts).bind fun _ rest => pure a rest

end Persists

/-- The tokens begin with a closing bracket or a comma. -/
def Closing (ext : List Token) : Prop :=
  ∃ t rest, ext = t :: rest ∧ t.kind ∈ [.rightParen, .rightBracket, .comma]

theorem Closing.noSuffix (h : Closing ext) :
    ∀ t ∈ ext.head?, t.kind ∉ [.leftParen, .leftBracket, .dot] := by
  obtain ⟨t, rest, rfl, ht⟩ := h
  exact (@stops_mark .indented 0 t ht rest).noSuffix

/-- A closing bracket or a comma behind the tokens does not make an operator. -/
theorem binaryOp?_append (hext : Closing ext) (ts : List Token) :
    binaryOp? dialect (ts ++ ext) = (binaryOp? dialect ts).map fun p => (p.1, p.2 ++ ext) := by
  obtain ⟨⟨kind', text'⟩, more, rfl, hkind⟩ := hext
  simp only [List.mem_cons, List.not_mem_nil, or_false] at hkind
  cases ts with
  | nil => rcases hkind with rfl | rfl | rfl <;> rfl
  | cons t ts =>
    obtain ⟨kind, text⟩ := t
    cases kind
    case op =>
      rw [List.cons_append, binaryOp?, binaryOp?, Option.map_map]
      rfl
    case name =>
      cases dialect with
      | braced => rfl
      | indented =>
        unfold binaryOp?
        dsimp only [List.cons_append]
        split_ifs
        iterate 3 rfl
        · cases ts with
          | nil => rcases hkind with rfl | rfl | rfl <;> rfl
          | cons u ts =>
            obtain ⟨kind, word⟩ := u
            cases kind
            case name =>
              dsimp only [List.cons_append]
              split_ifs <;> rfl
            all_goals rfl
        · rfl
    all_goals rfl

theorem unaryOp?_append (hext : Closing ext) (ts : List Token) :
    unaryOp? dialect (ts ++ ext) =
      (unaryOp? dialect ts).map fun p => (p.1, p.2.1, p.2.2 ++ ext) := by
  obtain ⟨⟨kind', text'⟩, more, rfl, hkind⟩ := hext
  simp only [List.mem_cons, List.not_mem_nil, or_false] at hkind
  cases ts with
  | nil => rcases hkind with rfl | rfl | rfl <;> rfl
  | cons t ts =>
    obtain ⟨kind, text⟩ := t
    cases kind
    case op | name =>
      rw [List.cons_append, unaryOp?, unaryOp?]
      split_ifs <;> rfl
    all_goals rfl

/-- With `k` more units of fuel, and a closing bracket or a comma behind them, tokens are read as
they are without. -/
structure Local (dialect : Dialect) (ext : List Token) (k n : Nat) : Prop where
  expression : ∀ least ts, Persists ext (expression dialect n least ts)
    (expression dialect (k + n) least (ts ++ ext))
  climb : ∀ least left ts, Persists ext (climb dialect n least left ts)
    (climb dialect (k + n) least left (ts ++ ext))
  operand : ∀ ts, Persists ext (operand dialect n ts) (operand dialect (k + n) (ts ++ ext))
  suffixes : ∀ node ts, Persists ext (suffixes dialect n node ts)
    (suffixes dialect (k + n) node (ts ++ ext))
  arguments : ∀ ts, Persists ext (arguments dialect n ts) (arguments dialect (k + n) (ts ++ ext))
  moreArguments : ∀ ts, Persists ext (moreArguments dialect n ts)
    (moreArguments dialect (k + n) (ts ++ ext))
  listItems : ∀ ts, Persists ext (listItems dialect n ts) (listItems dialect (k + n) (ts ++ ext))
  primary : ∀ ts, Persists ext (primary dialect n ts) (primary dialect (k + n) (ts ++ ext))

namespace Local

variable {k n : Nat}

/-- No tokens are no expression. -/
theorem persists_expression_nil (f : Expr × List Token → Except ParseError (α × List Token))
    (x : Except ParseError (α × List Token)) :
    Persists ext (Expr.expression dialect n 1 [] >>= f) x := by
  intro a rest h
  have hsound := (sound dialect n).expression 1 []
  cases hexpr : Expr.expression dialect n 1 [] with
  | error e =>
    rw [hexpr] at h
    cases h
  | ok p =>
    rw [hexpr] at hsound
    obtain ⟨used, hused, hphrase⟩ := hsound
    exact absurd (List.append_eq_nil_iff.1 hused.symm).1 hphrase.1

theorem zero : Local dialect ext k 0 where
  expression _ _ := .throw _ _
  climb _ _ _ := .throw _ _
  operand _ := .throw _ _
  suffixes _ _ := .throw _ _
  arguments _ := .throw _ _
  moreArguments _ := .throw _ _
  listItems _ := .throw _ _
  primary _ := .throw _ _

theorem expression_succ (h : Local dialect ext k n) (least : Nat) (ts : List Token) :
    Persists ext (Expr.expression dialect (n + 1) least ts)
      (Expr.expression dialect (k + n + 1) least (ts ++ ext)) := by
  rw [Expr.expression, Expr.expression]
  exact (h.operand ts).bind fun left rest => h.climb least left rest

theorem climb_succ (h : Local dialect ext k n) (hext : Closing ext) (least : Nat)
    (left : Expr) (ts : List Token) :
    Persists ext (Expr.climb dialect (n + 1) least left ts)
      (Expr.climb dialect (k + n + 1) least left (ts ++ ext)) := by
  rw [Expr.climb, Expr.climb, binaryOp?_append hext]
  cases binaryOp? dialect ts with
  | none => exact .pure _ _
  | some p =>
    obtain ⟨op, rest⟩ := p
    dsimp only [Option.map_some]
    split_ifs
    · exact .pure _ _
    · exact (h.expression _ rest).bind fun right rest => h.climb least _ rest

theorem operand_succ (h : Local dialect ext k n) (hext : Closing ext)
    (ts : List Token) :
    Persists ext (Expr.operand dialect (n + 1) ts)
      (Expr.operand dialect (k + n + 1) (ts ++ ext)) := by
  rw [Expr.operand, Expr.operand, unaryOp?_append hext]
  cases unaryOp? dialect ts with
  | none => exact (h.primary ts).bind fun node rest => h.suffixes node rest
  | some p =>
    obtain ⟨op, least, rest⟩ := p
    exact (h.expression least rest).bind fun inner rest => .pure _ _

theorem suffixes_succ (h : Local dialect ext k n) (hext : Closing ext) (node : Expr)
    (ts : List Token) :
    Persists ext (Expr.suffixes dialect (n + 1) node ts)
      (Expr.suffixes dialect (k + n + 1) node (ts ++ ext)) := by
  cases ts with
  | nil =>
    rw [List.nil_append, suffixes_eq (Nat.succ_pos _) hext.noSuffix,
      suffixes_eq (Nat.succ_pos _) (by simp)]
    exact .pure _ []
  | cons t ts =>
    obtain ⟨kind, text⟩ := t
    unfold Expr.suffixes
    cases kind
    case leftBracket =>
      refine (h.expression 1 ts).bind fun position rest => ?_
      exact (Persists.expect _ rest).bind fun _ rest => h.suffixes _ rest
    case dot =>
      refine (Persists.expect .name ts).bind fun name rest => ?_
      exact (h.arguments rest).bind fun args rest => h.suffixes _ rest
    all_goals exact .pure _ _

theorem arguments_succ (h : Local dialect ext k n) (ts : List Token) :
    Persists ext (Expr.arguments dialect (n + 1) ts)
      (Expr.arguments dialect (k + n + 1) (ts ++ ext)) := by
  unfold Expr.arguments
  refine (Persists.expect .leftParen ts).bind fun _ rest => ?_
  cases rest with
  | nil => exact persists_expression_nil _ _
  | cons t rest =>
    have hsome : Persists ext (someArguments dialect n (t :: rest))
        (someArguments dialect (k + n) (t :: rest ++ ext)) := by
      refine (h.expression 1 (t :: rest)).bind fun head rest => ?_
      exact (h.moreArguments rest).bind fun tail rest => .pure _ _
    obtain ⟨kind, text⟩ := t
    cases kind
    case rightParen => exact .pure _ _
    all_goals exact hsome

theorem moreArguments_succ (h : Local dialect ext k n) (ts : List Token) :
    Persists ext (Expr.moreArguments dialect (n + 1) ts)
      (Expr.moreArguments dialect (k + n + 1) (ts ++ ext)) := by
  unfold Expr.moreArguments
  cases ts with
  | nil => exact .throw _ _
  | cons t ts =>
    obtain ⟨kind, text⟩ := t
    cases kind
    case comma =>
      refine (h.expression 1 ts).bind fun head rest => ?_
      exact (h.moreArguments rest).bind fun tail rest => .pure _ _
    all_goals exact .close .rightParen [] (_ :: ts)

theorem listItems_succ (h : Local dialect ext k n) (ts : List Token) :
    Persists ext (Expr.listItems dialect (n + 1) ts)
      (Expr.listItems dialect (k + n + 1) (ts ++ ext)) := by
  unfold Expr.listItems
  cases ts with
  | nil => exact persists_expression_nil _ _
  | cons t ts =>
    obtain ⟨kind, text⟩ := t
    cases kind
    case rightBracket => exact .pure _ _
    all_goals
      refine (h.expression 1 (_ :: ts)).bind fun head rest => ?_
      cases rest with
      | nil => exact .throw _ _
      | cons t rest =>
        obtain ⟨kind, text⟩ := t
        cases kind
        case comma => exact (h.listItems rest).bind fun tail rest => .pure _ _
        all_goals exact .close .rightBracket [head] (_ :: rest)

theorem primary_succ (h : Local dialect ext k n) (hext : Closing ext)
    (ts : List Token) :
    Persists ext (Expr.primary dialect (n + 1) ts)
      (Expr.primary dialect (k + n + 1) (ts ++ ext)) := by
  cases ts with
  | nil => exact .throw _ _
  | cons t ts =>
    obtain ⟨kind, text⟩ := t
    cases kind
    case name =>
      by_cases hparen : ∀ t ∈ ts.head?, t.kind ≠ .leftParen
      · have hbehind : ∀ t ∈ (ts ++ ext).head?, t.kind ≠ .leftParen := by
          cases ts with
          | nil => exact fun t ht hkind => hext.noSuffix t ht (by simp [hkind])
          | cons t ts => exact hparen
        rw [List.cons_append, primary_name hparen, primary_name hbehind]
        exact .pure _ _
      · obtain ⟨⟨kind, text⟩, ht, hkind⟩ := by simpa using hparen
        obtain ⟨ts, rfl⟩ := List.head?_eq_some_iff.1 ht
        cases hkind
        unfold Expr.primary
        exact (h.arguments (_ :: ts)).bind fun args rest => .pure _ _
    all_goals unfold Expr.primary
    case number =>
      intro e rest heq
      cases hnumber : numberLiteral text with
      | error _ =>
        simp only [hnumber] at heq
        cases heq
      | ok v =>
        simp only [hnumber, List.cons_append] at heq ⊢
        exact Persists.pure _ ts e rest heq
    case leftParen =>
      exact (h.expression 1 ts).bind fun inner rest => .close .rightParen inner rest
    case leftBracket =>
      cases dialect with
      | indented => exact (h.listItems ts).bind fun items rest => .pure _ _
      | braced => exact .throw _ _
    case string | char => exact .pure _ _
    all_goals exact .throw _ _

theorem succ (h : Local dialect ext k n) (hext : Closing ext) : Local dialect ext k (n + 1) where
  expression := h.expression_succ
  climb := h.climb_succ hext
  operand := h.operand_succ hext
  suffixes := h.suffixes_succ hext
  arguments := h.arguments_succ
  moreArguments := h.moreArguments_succ
  listItems := h.listItems_succ
  primary := h.primary_succ hext

end Local

theorem local_of_closing (dialect : Dialect) (hext : Closing ext) (k n : Nat) :
    Local dialect ext k n := by
  induction n with
  | zero => exact .zero
  | succ n ih => exact ih.succ hext

/-- The tokens of an expression are read as that expression in front of a closing bracket or a
comma. -/
theorem expression_append {e : Expr} {ts : List Token} (h : ofTokens dialect ts = .ok e)
    (hext : Closing ext) {fuel : Nat} (hfuel : 4 * (ts.length + 2) ≤ fuel) :
    expression dialect fuel 1 (ts ++ ext) = .ok (e, ext) := by
  have hexpression : expression dialect (4 * (ts.length + 2)) 1 ts = .ok (e, []) := by
    unfold ofTokens at h
    split_ifs at h
    · cases h
    · cases hx : expression dialect (4 * (ts.length + 2)) 1 ts with
      | error err =>
        rw [hx] at h
        cases h
      | ok p =>
        obtain ⟨e', _ | ⟨t, rest⟩⟩ := p <;> rw [hx] at h <;> cases h
        rfl
  obtain ⟨k, rfl⟩ := Nat.exists_eq_add_of_le' hfuel
  exact (local_of_closing dialect hext k _).expression 1 ts e [] hexpression

/-- An element of the list in a variable, with an expression for its index. -/
theorem parse_element {name : String} {text : List Char} {e : Expr}
    (hname : isName name.toList = true) (hkey : name ∉ keywords .indented)
    (hconstant : (constants .indented).lookup name = none) (h : parse .indented text = .ok e) :
    parse .indented (name.toList ++ '[' :: (text ++ [']'])) = .ok (.index (.var name) e) := by
  obtain ⟨ts, htext, hts⟩ := exists_tokens_of_parse h
  have hinner : CutInto .indented (text ++ [']']) (ts ++ [closeBracket]) :=
    (tokenize_eq_ok_iff.1 htext).append (separates_mark (by decide))
      (.mark (t := closeBracket) (by decide) .nil)
  have htokens : CutInto .indented (name.toList ++ '[' :: (text ++ [']']))
      ([ofName name] ++ openBracket :: (ts ++ [closeBracket])) :=
    (cutInto_name hname).append (separates_mark (by decide))
      (.mark (t := openBracket) (by decide) hinner)
  have hparses : ParsesOperand .indented (.index (.var name) e)
      ([ofName name] ++ openBracket :: (ts ++ [closeBracket])) :=
    parsesOperand_index (parsesOperand_var hkey hconstant) fun rest fuel hfuel =>
      expression_append hts ⟨_, _, rfl, by simp [closeBracket]⟩ (by simp at hfuel; omega)
  rw [parse, tokenize_eq_ok_iff.2 htokens]
  exact (parses_operand hparses).ofTokens ⟨_, _, rfl, by simp [ofName]⟩

end Expr

end Stepwise
