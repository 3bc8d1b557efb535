import Mathlib.Tactic.SplitIfs
import Stepwise.Proofs.Numerals

/-!
# Parsing follows the grammar

`Derives` is the grammar of expressions over tokens. It says nothing about precedence, so a list of
tokens may have several trees. The parser takes tokens off the front of a list, and what it takes
derives the tree it returns (`Sound`); the fuel it is given is always enough. Hence `ofTokens`
accounts for every token or gives a syntax error, and never runs out of fuel
(`ofTokens_derives`).
-/

namespace Stepwise

open Text

/-- The digits of a number token, without the letters behind them. -/
def Token.numeral (text : List Char) : List Char :=
  (text.reverse.dropWhile Token.isNumberSuffix).reverse

/-- A number with a point or an exponent. -/
def Token.isFraction (text : List Char) : Bool :=
  (Token.numeral text).any fun c => c == '.' || c == 'e' || c == 'E'

/-- What a literal token stands for. -/
inductive Token.Denotes : Token → Literal → Prop
  | int {text : List Char} {n : Int} : Token.isFraction text = false →
    Number.readInt (Token.numeral text) = .ok n → Token.Denotes ⟨.number, text⟩ (.int n)
  | float {text : List Char} {x : Float} : Token.isFraction text = true →
    Number.readFloat? (Token.numeral text) = some x → Token.Denotes ⟨.number, text⟩ (.float x)
  | string {text : List Char} :
    Token.Denotes ⟨.string, text⟩ (.str (String.ofList (unescape (Expr.literalBody text))))
  | char {text : List Char} {c : Char} : unescape (Expr.literalBody text) = [c] →
    Token.Denotes ⟨.char, text⟩ (.int c.toNat)

/-- A number token of too many digits. -/
def Token.IsLong (t : Token) : Prop :=
  t.kind = .number ∧ Number.readInt (Token.numeral t.text) = .error .tooManyDigits

/-- The prefix operators of a dialect. -/
def UnaryOp.ofDialect : Dialect → List UnaryOp
  | .indented => [.neg, .pos, .not]
  | .braced => [.neg, .pos, .bang]

def UnaryOp.token (op : UnaryOp) : Token :=
  ⟨if op = .not then .name else .op, op.symbol.toList⟩

/-- The infix operators of a dialect. -/
def BinaryOp.ofDialect : Dialect → List BinaryOp
  | .indented => BinaryOp.symbolic .indented ++ [.and, .or, .mem, .notMem]
  | .braced => BinaryOp.symbolic .braced

/-- An operator is one token, apart from `not in`. -/
def BinaryOp.tokens (op : BinaryOp) : List Token :=
  if op = .notMem then [⟨.name, "not".toList⟩, ⟨.name, "in".toList⟩]
  else [⟨if op ∈ [.and, .or, .mem] then .name else .op, op.symbol.toList⟩]

mutual

/-- The tokens make up the expression, in one of the ways the grammar allows. -/
inductive Derives (dialect : Dialect) : Expr → List Token → Prop
  | literal {t : Token} {v : Literal} : t.Denotes v → Derives dialect (.lit v) [t]
  | constant {name : List Char} {v : Literal} :
    (constants dialect).lookup (String.ofList name) = some v →
    Derives dialect (.lit v) [⟨.name, name⟩]
  | var {name : List Char} : (constants dialect).lookup (String.ofList name) = none →
    Derives dialect (.var (String.ofList name)) [⟨.name, name⟩]
  | paren {e : Expr} {l r : Token} {ts : List Token} : l.kind = .leftParen →
    r.kind = .rightParen → Derives dialect e ts → Derives dialect e (l :: (ts ++ [r]))
  | unary {op : UnaryOp} {e : Expr} {ts : List Token} : op ∈ UnaryOp.ofDialect dialect →
    Derives dialect e ts → Derives dialect (.unary op e) (op.token :: ts)
  | binary {op : BinaryOp} {left right : Expr} {ts us : List Token} :
    op ∈ BinaryOp.ofDialect dialect → Derives dialect left ts → Derives dialect right us →
    Derives dialect (.binary op left right) (ts ++ (op.tokens ++ us))
  | index {target position : Expr} {l r : Token} {ts us : List Token} : l.kind = .leftBracket →
    r.kind = .rightBracket → Derives dialect target ts → Derives dialect position us →
    Derives dialect (.index target position) (ts ++ l :: (us ++ [r]))
  | call {name : List Char} {args : List Expr} {l r : Token} {ts : List Token} :
    l.kind = .leftParen → r.kind = .rightParen → DerivesAll dialect args ts →
    Derives dialect (.call (String.ofList name) args) (⟨.name, name⟩ :: l :: (ts ++ [r]))
  | method {receiver : Expr} {name : List Char} {args : List Expr} {d l r : Token}
      {ts us : List Token} :
    d.kind = .dot → l.kind = .leftParen → r.kind = .rightParen → Derives dialect receiver ts →
    DerivesAll dialect args us →
    Derives dialect (.method receiver (String.ofList name) args)
      (ts ++ d :: ⟨.name, name⟩ :: l :: (us ++ [r]))
  | list {items : List Expr} {l r : Token} {ts : List Token} : dialect = .indented →
    l.kind = .leftBracket → r.kind = .rightBracket → DerivesAll dialect items ts →
    Derives dialect (.list items) (l :: (ts ++ [r]))
  /-- A comma may follow the last item of a list. -/
  | listComma {items : List Expr} {l c r : Token} {ts : List Token} : dialect = .indented →
    l.kind = .leftBracket → c.kind = .comma → r.kind = .rightBracket → items ≠ [] →
    DerivesAll dialect items ts → Derives dialect (.list items) (l :: (ts ++ [c, r]))

/-- The tokens make up the expressions, with commas between them. -/
inductive DerivesAll (dialect : Dialect) : List Expr → List Token → Prop
  | nil : DerivesAll dialect [] []
  | single {e : Expr} {ts : List Token} : Derives dialect e ts → DerivesAll dialect [e] ts
  | cons {e : Expr} {es : List Expr} {c : Token} {ts us : List Token} : c.kind = .comma →
    es ≠ [] → Derives dialect e ts → DerivesAll dialect es us →
    DerivesAll dialect (e :: es) (ts ++ c :: us)

end

/-- A literal that the dialect can write. -/
def Literal.OfDialect (dialect : Dialect) : Literal → Prop
  | .none | .bool _ => dialect = .indented
  | .int _ | .float _ | .str _ => True

mutual

/-- Every literal, operator and form in the expression belongs to the dialect. -/
def Expr.OfDialect (dialect : Dialect) : Expr → Prop
  | .lit v => v.OfDialect dialect
  | .var _ => True
  | .list items => dialect = .indented ∧ Expr.OfDialectAll dialect items
  | .unary op e => op ∈ UnaryOp.ofDialect dialect ∧ e.OfDialect dialect
  | .binary op left right =>
    op ∈ BinaryOp.ofDialect dialect ∧ left.OfDialect dialect ∧ right.OfDialect dialect
  | .index target position => target.OfDialect dialect ∧ position.OfDialect dialect
  | .call _ args => Expr.OfDialectAll dialect args
  | .method receiver _ args =>
    dialect = .indented ∧ receiver.OfDialect dialect ∧ Expr.OfDialectAll dialect args

/-- All of several expressions are of the dialect. -/
def Expr.OfDialectAll (dialect : Dialect) : List Expr → Prop
  | [] => True
  | e :: es => e.OfDialect dialect ∧ Expr.OfDialectAll dialect es

end

namespace Token

variable {dialect : Dialect} {kind : TokenKind} {text lexeme rest : List Char}

/-- The token can be cut off the front of a text. -/
def Lexed (dialect : Dialect) (t : Token) : Prop :=
  ∃ text rest, first? dialect text = some (t.kind, t.text, rest)

theorem scan_lexed : ∀ {fuel : Nat} {text : List Char} {ts : List Token},
    scan dialect fuel text = .ok ts → ∀ t ∈ ts, t.Lexed dialect
  | 0, text, ts, h => by
    cases h
    exact List.forall_mem_nil _
  | _ + 1, [], ts, h => by
    cases h
    exact List.forall_mem_nil _
  | fuel + 1, c :: rest, ts, h => by
    rw [scan] at h
    split at h
    · rename_i kind lexeme rest' hfirst
      cases hscan : scan dialect fuel rest' with
      | error e =>
        rw [hscan] at h
        cases h
      | ok more =>
        rw [hscan] at h
        cases h
        exact List.forall_mem_cons.2 ⟨⟨_, _, hfirst⟩, scan_lexed hscan⟩
    · split_ifs at h
      exact scan_lexed h

/-- How a token of each kind was cut. -/
def CutAs (dialect : Dialect) (text : List Char) (cut : Cut) : TokenKind → Prop
  | .number => number? dialect text = some cut
  | .string => string? dialect text = some cut
  | .char => char? dialect text = some cut
  | .name => name? text = some cut
  | .op => operator? dialect text = some cut
  | .dot => dialect = .indented
  | _ => True

theorem first?_cutAs {cut : Cut} (h : first? dialect text = some (kind, cut)) :
    CutAs dialect text cut kind := by
  simp only [first?, Option.orElse_eq_orElse, Option.orElse_eq_or, Option.or_eq_some_iff,
    Option.map_eq_some_iff] at h
  rcases h with ⟨_, h, hk⟩ | ⟨-, ⟨_, h, hk⟩ | ⟨-, ⟨_, h, hk⟩ | ⟨-, ⟨_, h, hk⟩ |
    ⟨-, ⟨_, h, hk⟩ | h⟩⟩⟩⟩
  iterate 5
    · cases hk
      exact h
  · obtain ⟨-, h⟩ := h
    unfold mark? at h
    split at h
    · split_ifs at h with _ _ _ _ _ h6 <;> cases h <;> simp_all [CutAs]
    · cases h

theorem isNumberSuffix_of_isNumeric {c : Char} (h : Number.isNumeric c = true) :
    isNumberSuffix c = false := by
  rw [← Bool.not_eq_true]
  intro hs
  have hmem : c ∈ "fFlLuU".toList := by simpa [isNumberSuffix] using hs
  have hnot : "fFlLuU".toList.all (fun d => !Number.isNumeric d) = true := by decide +kernel
  have hc := List.all_eq_true.1 hnot c hmem
  rw [h] at hc
  cases hc

/-- The letters behind a number are all that its numeral leaves out. -/
theorem numeral_eq {digits suffix : List Char} (hd : ∀ c ∈ digits, Number.isNumeric c = true)
    (hs : ∀ c ∈ suffix, isNumberSuffix c = true) : numeral (digits ++ suffix) = digits := by
  have hrest : ∀ c ∈ digits.reverse, isNumberSuffix c = false := fun c hc =>
    isNumberSuffix_of_isNumeric (hd c (List.mem_reverse.1 hc))
  rw [numeral, List.reverse_append,
    List.dropWhile_append_of_pos fun c hc => hs c (List.mem_reverse.1 hc),
    Number.dropWhile_eq_self hrest, List.reverse_reverse]

/-- The numeral of a number token, with what it is made of. -/
theorem Lexed.numeral (h : Lexed dialect ⟨.number, lexeme⟩) :
    ∃ m e, Token.numeral lexeme = m ++ e ∧ Number.Mantissa m ∧ Number.Exponent e := by
  obtain ⟨text, rest, h⟩ := h
  obtain ⟨m, e, suffix, rfl, hm, he, hs⟩ := number?_shape (first?_cutAs h)
  refine ⟨m, e, numeral_eq (fun c hc => ?_) hs, hm, he⟩
  exact (List.mem_append.1 hc).elim (hm.isNumeric c) (he.isNumeric c)

/-- Without a point and an exponent there are only digits. -/
theorem isDecimal_of_not_fraction {m e : List Char} (hm : Number.Mantissa m)
    (he : Number.Exponent e)
    (h : ((m ++ e).any fun c => c == '.' || c == 'e' || c == 'E') = false) :
    m ++ e ≠ [] ∧ ∀ c ∈ m ++ e, isDecimal c = true := by
  cases he with
  | none =>
    cases hm with
    | whole hne hd => simpa using ⟨hne, hd⟩
    | point => simp at h
  | scaled hmark => rcases hmark with rfl | rfl <;> simp at h

theorem Lexed.numberLiteral_ok {v : Literal} (ht : Lexed dialect ⟨.number, lexeme⟩)
    (h : Expr.numberLiteral lexeme = .ok v) : Denotes ⟨.number, lexeme⟩ v := by
  obtain ⟨m, e, hn, hm, he⟩ := ht.numeral
  unfold Expr.numberLiteral at h
  dsimp only at h
  split_ifs at h with hf
  · obtain ⟨x, hx⟩ := Option.isSome_iff_exists.1 (Number.readFloat?_isSome hm he)
    rw [← hn] at hx
    cases h
    change Denotes _ (.float ((Number.readFloat? (Token.numeral lexeme)).getD 0))
    rw [hx]
    exact .float hf hx
  · split at h
    · rename_i n hint
      cases h
      exact .int (Bool.eq_false_of_not_eq_true hf) hint
    · cases h

/-- A number token that is no literal has too many digits. -/
theorem Lexed.isLong {e : ParseError} (ht : Lexed dialect ⟨.number, lexeme⟩)
    (h : Expr.numberLiteral lexeme = .error e) : IsLong ⟨.number, lexeme⟩ := by
  obtain ⟨m, ex, hn, hm, he⟩ := ht.numeral
  unfold Expr.numberLiteral at h
  dsimp only at h
  split_ifs at h with hf
  · cases h
  · split at h
    · cases h
    · rename_i fault hint
      change Number.readInt (Token.numeral lexeme) = _ at hint
      change ¬ (Token.numeral lexeme).any _ = true at hf
      rw [hn] at hf hint
      obtain ⟨hne, hd⟩ := isDecimal_of_not_fraction hm he (Bool.eq_false_of_not_eq_true hf)
      refine ⟨rfl, ?_⟩
      rw [hn]
      rw [Number.readInt_decimals hne hd] at hint ⊢
      split_ifs at hint ⊢
      rfl

/-- A character token holds one character, written plainly or as an escape. -/
theorem Lexed.char_body (h : Lexed dialect ⟨.char, lexeme⟩) :
    ∃ c, unescape (Expr.literalBody lexeme) = [c] := by
  obtain ⟨text, rest, h⟩ := h
  have h : char? dialect text = some (lexeme, rest) := first?_cutAs h
  unfold char? at h
  split at h
  · split_ifs at h
    cases h
    exact ⟨_, rfl⟩
  · split_ifs at h
    cases h
    rename_i c _ _
    exact ⟨c, by simp [Expr.literalBody, unescape]⟩
  · cases h

theorem Lexed.charLiteral (h : Lexed dialect ⟨.char, lexeme⟩) :
    Denotes ⟨.char, lexeme⟩ (Expr.charLiteral lexeme) := by
  obtain ⟨c, hc⟩ := h.char_body
  rw [Expr.charLiteral, hc]
  exact .char hc

end Token

/-- The error says that the tokens make up no expression. -/
def ParseError.IsSyntax : ParseError → Prop
  | .longNumeral | .tooDeep => False
  | _ => True

namespace Expr

variable {dialect : Dialect} {α β : Type} {starved : Prop} {ts : List Token}

/-- What parsing may come to: a value made of the tokens taken off the front, or an error. Fuel may
run out only if the parser is `starved`. -/
def Reads (dialect : Dialect) (starved : Prop) (P : α → List Token → Prop) (ts : List Token) :
    Except ParseError (α × List Token) → Prop
  | .ok (a, rest) => ∃ used, ts = used ++ rest ∧ P a used
  | .error e => e.IsSyntax ∨
      (e = .longNumeral ∧ ∃ t ∈ ts, t.Lexed dialect → t.IsLong) ∨ (e = .tooDeep ∧ starved)

namespace Reads

variable {P : α → List Token → Prop} {Q : β → List Token → Prop}

theorem refuse {e : ParseError} (h : e.IsSyntax) : Reads dialect starved P ts (throw e) := .inl h

theorem starve (h : starved) : Reads dialect starved P ts (throw .tooDeep) :=
  .inr (.inr ⟨rfl, h⟩)

theorem done {a : α} (h : P a []) : Reads dialect starved P ts (pure (a, ts)) := ⟨[], rfl, h⟩

theorem one {a : α} {t : Token} {rest : List Token} (h : P a [t]) :
    Reads dialect starved P (t :: rest) (pure (a, rest)) := ⟨[t], rfl, h⟩

theorem mono {starved' : Prop} {P' : α → List Token → Prop}
    {x : Except ParseError (α × List Token)} (h : Reads dialect starved P ts x)
    (hs : starved → starved') (hP : ∀ a used, P a used → P' a used) :
    Reads dialect starved' P' ts x := by
  cases x with
  | ok r =>
    obtain ⟨used, hts, ha⟩ := h
    exact ⟨used, hts, hP _ _ ha⟩
  | error e =>
    rcases h with h | h | ⟨rfl, h⟩
    · exact .inl h
    · exact .inr (.inl h)
    · exact .inr (.inr ⟨rfl, hs h⟩)

/-- Tokens that stand in front of those left to read. -/
theorem after {front rest : List Token} {x : Except ParseError (α × List Token)}
    (hts : ts = front ++ rest)
    (h : Reads dialect starved (fun a used => P a (front ++ used)) rest x) :
    Reads dialect starved P ts x := by
  subst hts
  cases x with
  | ok r =>
    obtain ⟨used, hrest, ha⟩ := h
    exact ⟨front ++ used, by rw [hrest, List.append_assoc], ha⟩
  | error e =>
    rcases h with h | ⟨rfl, t, ht, hlong⟩ | h
    · exact .inl h
    · exact .inr (.inl ⟨rfl, t, List.mem_append_right _ ht, hlong⟩)
    · exact .inr (.inr h)

/-- What the second parser takes follows what the first one takes. -/
theorem bind {x : Except ParseError (α × List Token)}
    {f : α × List Token → Except ParseError (β × List Token)}
    (hx : Reads dialect starved P ts x)
    (hf : ∀ a used rest, ts = used ++ rest → P a used →
      Reads dialect starved (fun b more => Q b (used ++ more)) rest (f (a, rest))) :
    Reads dialect starved Q ts (x >>= f) := by
  cases x with
  | error e => exact hx
  | ok r =>
    obtain ⟨used, hts, ha⟩ := hx
    exact (hf _ used _ hts ha).after hts

theorem expect (kind : TokenKind) (ts : List Token) :
    Reads dialect starved (fun t used => used = [t] ∧ t.kind = kind) ts (Expr.expect kind ts) := by
  unfold Expr.expect
  split
  · split_ifs with h
    · exact one ⟨rfl, h⟩
    · exact refuse trivial
  · exact refuse trivial

end Reads

theorem length_lt {used rest : List Token} (hts : ts = used ++ rest) (hne : used ≠ []) :
    rest.length < ts.length := by
  have := List.length_pos_of_ne_nil hne
  rw [hts, List.length_append]
  omega

/-- The tokens can be cut off texts. -/
def AllLexed (dialect : Dialect) (ts : List Token) : Prop := ∀ t ∈ ts, t.Lexed dialect

theorem allLexed_append {us : List Token} :
    AllLexed dialect (ts ++ us) ↔ AllLexed dialect ts ∧ AllLexed dialect us :=
  List.forall_mem_append

theorem allLexed_cons {t : Token} :
    AllLexed dialect (t :: ts) ↔ t.Lexed dialect ∧ AllLexed dialect ts :=
  List.forall_mem_cons

/-- There are tokens, and if they can be cut off texts then they make up the expression. -/
def Phrase (dialect : Dialect) (e : Expr) (used : List Token) : Prop :=
  used ≠ [] ∧ (AllLexed dialect used → Derives dialect e used)

/-- The tokens go on from any phrase of one expression to a phrase of another. -/
def Extends (dialect : Dialect) (left e : Expr) (more : List Token) : Prop :=
  ∀ front, Phrase dialect left front → Phrase dialect e (front ++ more)

/-- The tokens are arguments in parentheses. -/
def Arguments (dialect : Dialect) (args : List Expr) (used : List Token) : Prop :=
  ∃ l inner r, used = l :: (inner ++ [r]) ∧ l.kind = .leftParen ∧ r.kind = .rightParen ∧
    (AllLexed dialect inner → DerivesAll dialect args inner)

/-- The tokens are what follows a first argument. -/
def MoreArguments (dialect : Dialect) (args : List Expr) (used : List Token) : Prop :=
  ∃ inner r, used = inner ++ [r] ∧ r.kind = .rightParen ∧
    ∀ e front, Phrase dialect e front → AllLexed dialect (front ++ inner) →
      DerivesAll dialect (e :: args) (front ++ inner)

/-- The tokens are the items of a list, perhaps with a comma behind the last. -/
def Items (dialect : Dialect) (items : List Expr) (ts : List Token) : Prop :=
  DerivesAll dialect items ts ∨
    ∃ us c, ts = us ++ [c] ∧ c.kind = .comma ∧ items ≠ [] ∧ DerivesAll dialect items us

/-- A comma after the first item is behind the last one or between two. -/
theorem Items.cons {e : Expr} {items : List Expr} {c : Token} {us : List Token}
    (h : Items dialect items us) (hc : c.kind = .comma) (he : Derives dialect e ts) :
    Items dialect (e :: items) (ts ++ c :: us) := by
  cases items with
  | nil =>
    rcases h with h | ⟨_, _, _, _, hne, _⟩
    · cases h
      exact .inr ⟨ts, c, rfl, hc, List.cons_ne_nil _ _, .single he⟩
    · exact absurd rfl hne
  | cons a items =>
    have hne : a :: items ≠ [] := List.cons_ne_nil _ _
    rcases h with h | ⟨us, d, rfl, hd, _, h⟩
    · exact .inl (.cons hc hne he h)
    · exact .inr ⟨ts ++ c :: us, d, by simp, hd, List.cons_ne_nil _ _, .cons hc hne he h⟩

theorem Arguments.ne_nil {args : List Expr} (h : Arguments dialect args ts) : ts ≠ [] := by
  obtain ⟨l, inner, r, rfl, -⟩ := h
  exact List.cons_ne_nil _ _

/-- The tokens are the items of a list and its closing bracket. -/
def ListItems (dialect : Dialect) (items : List Expr) (used : List Token) : Prop :=
  ∃ inner r, used = inner ++ [r] ∧ r.kind = .rightBracket ∧
    (AllLexed dialect inner → Items dialect items inner)

namespace Phrase

variable {e position : Expr} {args : List Expr} {us : List Token} {t l r : Token}

theorem literal {v : Literal} (h : t.Lexed dialect → t.Denotes v) :
    Phrase dialect (.lit v) [t] :=
  ⟨List.cons_ne_nil _ _, fun ht => .literal (h (ht t List.mem_cons_self))⟩

theorem paren (hl : l.kind = .leftParen) (hr : r.kind = .rightParen) (h : Phrase dialect e ts) :
    Phrase dialect e (l :: (ts ++ [r])) := by
  refine ⟨List.cons_ne_nil _ _, fun ht => .paren hl hr (h.2 ?_)⟩
  exact (allLexed_append.1 (allLexed_cons.1 ht).2).1

theorem unary {op : UnaryOp} (hop : op ∈ UnaryOp.ofDialect dialect) (h : Phrase dialect e ts) :
    Phrase dialect (.unary op e) (op.token :: ts) :=
  ⟨List.cons_ne_nil _ _, fun ht => .unary hop (h.2 (allLexed_cons.1 ht).2)⟩

theorem call {name : List Char} (h : Arguments dialect args ts) :
    Phrase dialect (.call (String.ofList name) args) (⟨.name, name⟩ :: ts) := by
  obtain ⟨l, inner, r, rfl, hl, hr, hargs⟩ := h
  refine ⟨List.cons_ne_nil _ _, fun ht => .call hl hr (hargs ?_)⟩
  exact (allLexed_append.1 (allLexed_cons.1 (allLexed_cons.1 ht).2).2).1

theorem list {items : List Expr} (hd : dialect = .indented) (hl : l.kind = .leftBracket)
    (h : ListItems dialect items ts) : Phrase dialect (.list items) (l :: ts) := by
  obtain ⟨inner, r, rfl, hr, hitems⟩ := h
  refine ⟨List.cons_ne_nil _ _, fun ht => ?_⟩
  rcases hitems (allLexed_append.1 (allLexed_cons.1 ht).2).1 with h | ⟨us, c, rfl, hc, hne, h⟩
  · exact .list hd hl hr h
  · rw [List.append_assoc]
    exact .listComma hd hl hc hr hne h

theorem binary {op : BinaryOp} {right : Expr} (hop : op ∈ BinaryOp.ofDialect dialect)
    (hright : Phrase dialect right us) :
    Extends dialect e (.binary op e right) (op.tokens ++ us) := by
  intro front hleft
  refine ⟨by simp [hleft.1], fun ht => ?_⟩
  rw [allLexed_append, allLexed_append] at ht
  exact .binary hop (hleft.2 ht.1) (hright.2 ht.2.2)

theorem index (hl : l.kind = .leftBracket) (hr : r.kind = .rightBracket)
    (hpos : Phrase dialect position us) :
    Extends dialect e (.index e position) (l :: (us ++ [r])) := by
  intro front htarget
  refine ⟨by simp, fun ht => ?_⟩
  rw [allLexed_append, allLexed_cons, allLexed_append] at ht
  exact .index hl hr (htarget.2 ht.1) (hpos.2 ht.2.2.1)

theorem method {name : List Char} {d : Token} (hd : d.kind = .dot)
    (h : Arguments dialect args us) :
    Extends dialect e (.method e (String.ofList name) args) (d :: ⟨.name, name⟩ :: us) := by
  obtain ⟨l, inner, r, rfl, hl, hr, hargs⟩ := h
  intro front hreceiver
  refine ⟨by simp, fun ht => ?_⟩
  rw [allLexed_append, allLexed_cons, allLexed_cons, allLexed_cons, allLexed_append] at ht
  exact .method hd hl hr (hreceiver.2 ht.1) (hargs ht.2.2.2.2.1)

end Phrase

theorem Extends.trans {a b c : Expr} {us : List Token} (h : Extends dialect a b ts)
    (h' : Extends dialect b c us) : Extends dialect a c (ts ++ us) := by
  intro front hfront
  rw [← List.append_assoc]
  exact h' _ (h front hfront)

theorem Extends.refl (e : Expr) : Extends dialect e e [] := by
  intro front hfront
  rwa [List.append_nil]

theorem numberLiteral_error {text : List Char} {e : ParseError}
    (h : numberLiteral text = .error e) : e = .longNumeral := by
  unfold numberLiteral at h
  dsimp only at h
  split_ifs at h
  · cases h
  · split at h <;> cases h
    rfl

theorem tokens_of_mem_symbolic {op : BinaryOp} (h : op ∈ BinaryOp.symbolic dialect) :
    op.tokens = [⟨.op, op.symbol.toList⟩] := by
  revert h
  cases dialect <;> cases op <;> decide

theorem symbolic_subset : BinaryOp.symbolic dialect ⊆ BinaryOp.ofDialect dialect := by
  cases dialect
  · exact List.subset_append_left _ _
  · exact List.Subset.refl _

/-- An operator is read from the tokens that stand for it, and is one of the dialect. -/
theorem binaryOp?_spec {op : BinaryOp} {rest : List Token}
    (h : binaryOp? dialect ts = some (op, rest)) :
    ts = op.tokens ++ rest ∧ op ∈ BinaryOp.ofDialect dialect := by
  unfold binaryOp? at h
  split at h
  · rename_i text rest'
    obtain ⟨op', hop, heq⟩ := Option.map_eq_some_iff.1 h
    cases heq
    have hmem := List.mem_of_find?_eq_some hop
    have htext : op.symbol.toList = text := by simpa using List.find?_some hop
    rw [tokens_of_mem_symbolic hmem, htext]
    exact ⟨rfl, symbolic_subset hmem⟩
  · rename_i text rest'
    cases dialect with
    | braced => cases h
    | indented =>
      dsimp only at h
      split_ifs at h with h1 h2 h3 h4
      · cases h
        exact ⟨by rw [h1]; rfl, by decide⟩
      · cases h
        exact ⟨by rw [h2]; rfl, by decide⟩
      · cases h
        exact ⟨by rw [h3]; rfl, by decide⟩
      · split at h
        · split_ifs at h with h5
          cases h
          exact ⟨by rw [h4, h5]; rfl, by decide⟩
        · cases h
  · cases h

theorem unaryOp?_spec {op : UnaryOp} {least : Nat} {rest : List Token}
    (h : unaryOp? dialect ts = some (op, least, rest)) :
    ts = op.token :: rest ∧ op ∈ UnaryOp.ofDialect dialect := by
  unfold unaryOp? at h
  split at h
  · split_ifs at h with hnot
    cases h
    obtain ⟨rfl, htext⟩ := hnot
    exact ⟨by rw [htext]; rfl, by decide⟩
  · split_ifs at h with hneg hpos hbang
    · cases h
      exact ⟨by rw [hneg]; rfl, by cases dialect <;> decide⟩
    · cases h
      exact ⟨by rw [hpos]; rfl, by cases dialect <;> decide⟩
    · cases h
      obtain ⟨rfl, htext⟩ := hbang
      exact ⟨by rw [htext]; rfl, by decide⟩
  · cases h

/-- What each parser takes, and how much fuel is enough for it. -/
structure Sound (dialect : Dialect) (n : Nat) : Prop where
  expression : ∀ least ts, Reads dialect (n < 4 * ts.length + 4) (Phrase dialect) ts
    (expression dialect n least ts)
  climb : ∀ least left ts, Reads dialect (n < 4 * ts.length + 1) (Extends dialect left) ts
    (climb dialect n least left ts)
  operand : ∀ ts, Reads dialect (n < 4 * ts.length + 3) (Phrase dialect) ts (operand dialect n ts)
  suffixes : ∀ node ts, Reads dialect (n < 4 * ts.length + 1) (Extends dialect node) ts
    (suffixes dialect n node ts)
  arguments : ∀ ts, Reads dialect (n < 4 * ts.length + 1) (Arguments dialect) ts
    (arguments dialect n ts)
  moreArguments : ∀ ts, Reads dialect (n < 4 * ts.length + 1) (MoreArguments dialect) ts
    (moreArguments dialect n ts)
  listItems : ∀ ts, Reads dialect (n < 4 * ts.length + 5) (ListItems dialect) ts
    (listItems dialect n ts)
  primary : ∀ ts, Reads dialect (n < 4 * ts.length + 2) (Phrase dialect) ts (primary dialect n ts)

namespace Sound

variable {n : Nat}

theorem zero : Sound dialect 0 where
  expression _ _ := Reads.starve (by omega)
  climb _ _ _ := Reads.starve (by omega)
  operand _ := Reads.starve (by omega)
  suffixes _ _ := Reads.starve (by omega)
  arguments _ := Reads.starve (by omega)
  moreArguments _ := Reads.starve (by omega)
  listItems _ := Reads.starve (by omega)
  primary _ := Reads.starve (by omega)

theorem expression_succ (h : Sound dialect n) (least : Nat) (ts : List Token) :
    Reads dialect (n + 1 < 4 * ts.length + 4) (Phrase dialect) ts
      (Expr.expression dialect (n + 1) least ts) := by
  rw [Expr.expression]
  refine ((h.operand ts).mono (fun _ => by omega) fun _ _ => id).bind ?_
  intro left used rest hts hleft
  have := length_lt hts hleft.1
  exact (h.climb least left rest).mono (fun _ => by omega) fun e more hmore => hmore used hleft

theorem climb_succ (h : Sound dialect n) (least : Nat) (left : Expr) (ts : List Token) :
    Reads dialect (n + 1 < 4 * ts.length + 1) (Extends dialect left) ts
      (Expr.climb dialect (n + 1) least left ts) := by
  have hstop : Reads dialect (n + 1 < 4 * ts.length + 1) (Extends dialect left) ts
      (pure (left, ts)) := .done (.refl left)
  rw [Expr.climb]
  split
  · exact hstop
  · rename_i op rest hop
    obtain ⟨hts, hmem⟩ := binaryOp?_spec hop
    have hlen := length_lt hts (by unfold BinaryOp.tokens; split_ifs <;> simp)
    split_ifs
    · exact hstop
    · refine .after hts (((h.expression _ rest).mono (fun _ => by omega) fun _ _ => id).bind ?_)
      intro right used rest' hrest hright
      have := length_lt hrest hright.1
      refine (h.climb least _ rest').mono (fun _ => by omega) fun e more hmore => ?_
      rw [← List.append_assoc]
      exact (Phrase.binary hmem hright).trans hmore

theorem operand_succ (h : Sound dialect n) (ts : List Token) :
    Reads dialect (n + 1 < 4 * ts.length + 3) (Phrase dialect) ts
      (Expr.operand dialect (n + 1) ts) := by
  rw [Expr.operand]
  split
  · rename_i op least rest hop
    obtain ⟨hts, hmem⟩ := unaryOp?_spec hop
    have hlen : rest.length < ts.length := by simp [hts]
    refine Reads.after (show ts = [op.token] ++ rest from hts)
      (((h.expression _ rest).mono (fun _ => by omega) fun _ _ => id).bind ?_)
    intro inner used rest' hrest hinner
    refine .done ?_
    rw [List.append_nil]
    exact hinner.unary hmem
  · refine ((h.primary ts).mono (fun _ => by omega) fun _ _ => id).bind ?_
    intro node used rest hts hnode
    have := length_lt hts hnode.1
    exact (h.suffixes node rest).mono (fun _ => by omega) fun e more hmore => hmore used hnode

theorem suffixes_succ (h : Sound dialect n) (node : Expr) (ts : List Token) :
    Reads dialect (n + 1 < 4 * ts.length + 1) (Extends dialect node) ts
      (Expr.suffixes dialect (n + 1) node ts) := by
  unfold Expr.suffixes
  dsimp only
  split
  · rename_i text rest
    rw [List.length_cons]
    refine Reads.after (show _ = [⟨.leftBracket, text⟩] ++ rest from rfl)
      (((h.expression _ rest).mono (fun _ => by omega) fun _ _ => id).bind ?_)
    intro position used rest' hrest hposition
    have hlen := length_lt hrest hposition.1
    refine (Reads.expect .rightBracket rest').bind ?_
    rintro r _ rest'' rfl ⟨rfl, hr⟩
    rw [List.cons_append, List.nil_append, List.length_cons] at hlen
    refine (h.suffixes _ rest'').mono (fun _ => by omega) fun e more hmore => ?_
    simpa using (Phrase.index rfl hr hposition).trans hmore
  · rename_i text rest
    rw [List.length_cons]
    refine Reads.after (show _ = [⟨.dot, text⟩] ++ rest from rfl)
      ((Reads.expect .name rest).bind ?_)
    rintro ⟨kind, name⟩ _ rest' rfl ⟨rfl, hkind⟩
    cases hkind
    rw [List.cons_append, List.nil_append, List.length_cons]
    refine ((h.arguments rest').mono (fun _ => by omega) fun _ _ => id).bind ?_
    intro args used rest'' hrest hargs
    have hlen := length_lt hrest hargs.ne_nil
    refine (h.suffixes _ rest'').mono (fun _ => by omega) fun e more hmore => ?_
    simpa using (Phrase.method rfl hargs).trans hmore
  · exact .done (.refl node)

theorem arguments_succ (h : Sound dialect n) (ts : List Token) :
    Reads dialect (n + 1 < 4 * ts.length + 1) (Arguments dialect) ts
      (Expr.arguments dialect (n + 1) ts) := by
  unfold Expr.arguments
  refine (Reads.expect .leftParen ts).bind ?_
  rintro l _ rest rfl ⟨rfl, hl⟩
  rw [List.cons_append, List.nil_append, List.length_cons]
  dsimp only
  split
  · rename_i text rest
    exact .one ⟨l, [], ⟨.rightParen, text⟩, rfl, hl, rfl, fun _ => .nil⟩
  · refine ((h.expression 1 rest).mono (fun _ => by omega) fun _ _ => id).bind ?_
    intro head used rest' hrest hhead
    have hlen := length_lt hrest hhead.1
    refine ((h.moreArguments rest').mono (fun _ => by omega) fun _ _ => id).bind ?_
    rintro tail _ rest'' hrest' ⟨inner, r, rfl, hr, htail⟩
    refine .done ⟨l, used ++ inner, r, by simp, hl, hr, htail head used hhead⟩

theorem moreArguments_succ (h : Sound dialect n) (ts : List Token) :
    Reads dialect (n + 1 < 4 * ts.length + 1) (MoreArguments dialect) ts
      (Expr.moreArguments dialect (n + 1) ts) := by
  unfold Expr.moreArguments
  dsimp only
  split
  · rename_i text rest
    rw [List.length_cons]
    refine Reads.after (show _ = [⟨.comma, text⟩] ++ rest from rfl)
      (((h.expression 1 rest).mono (fun _ => by omega) fun _ _ => id).bind ?_)
    intro head used rest' hrest hhead
    have hlen := length_lt hrest hhead.1
    refine ((h.moreArguments rest').mono (fun _ => by omega) fun _ _ => id).bind ?_
    rintro tail _ rest'' hrest' ⟨inner, r, rfl, hr, htail⟩
    refine .done ⟨⟨.comma, text⟩ :: (used ++ inner), r, by simp, hr, ?_⟩
    intro e front hfront ht
    rw [allLexed_append, allLexed_cons] at ht
    exact .cons rfl (List.cons_ne_nil _ _) (hfront.2 ht.1) (htail head used hhead ht.2.2)
  · refine (Reads.expect .rightParen ts).bind ?_
    rintro r _ rest rfl ⟨rfl, hr⟩
    refine .done ⟨[], r, rfl, hr, fun e front hfront ht => ?_⟩
    rw [List.append_nil] at ht ⊢
    exact .single (hfront.2 ht)

theorem listItems_succ (h : Sound dialect n) (ts : List Token) :
    Reads dialect (n + 1 < 4 * ts.length + 5) (ListItems dialect) ts
      (Expr.listItems dialect (n + 1) ts) := by
  unfold Expr.listItems
  dsimp only
  split
  · rename_i text rest
    exact .one ⟨[], ⟨.rightBracket, text⟩, rfl, rfl, fun _ => .inl .nil⟩
  · refine ((h.expression 1 ts).mono (fun _ => by omega) fun _ _ => id).bind ?_
    intro head used rest hts hhead
    have hlen := length_lt hts hhead.1
    dsimp only
    split
    · rename_i text rest
      rw [List.length_cons] at hlen
      refine Reads.after (show _ = [⟨.comma, text⟩] ++ rest from rfl)
        (((h.listItems rest).mono (fun _ => by omega) fun _ _ => id).bind ?_)
      rintro tail _ rest' hrest ⟨inner, r, rfl, hr, htail⟩
      refine .done ⟨used ++ ⟨.comma, text⟩ :: inner, r, by simp, hr, fun ht => ?_⟩
      rw [allLexed_append, allLexed_cons] at ht
      exact (htail ht.2.2).cons rfl (hhead.2 ht.1)
    · refine (Reads.expect .rightBracket rest).bind ?_
      rintro r _ rest' rfl ⟨rfl, hr⟩
      exact .done ⟨used, r, rfl, hr, fun ht => .inl (.single (hhead.2 ht))⟩

theorem primary_succ (h : Sound dialect n) (ts : List Token) :
    Reads dialect (n + 1 < 4 * ts.length + 2) (Phrase dialect) ts
      (Expr.primary dialect (n + 1) ts) := by
  unfold Expr.primary
  dsimp only
  split
  · rename_i text rest
    cases hv : numberLiteral text with
    | ok v => exact .one (.literal fun ht => ht.numberLiteral_ok hv)
    | error e =>
      cases numberLiteral_error hv
      exact .inr (.inl ⟨rfl, _, List.mem_cons_self, fun ht => ht.isLong hv⟩)
  · exact .one (.literal fun _ => .string)
  · exact .one (.literal fun ht => ht.charLiteral)
  · rename_i text rest
    split
    · rename_i paren rest
      rw [List.length_cons]
      refine Reads.after (show _ = [⟨.name, text⟩] ++ _ from rfl)
        (((h.arguments _).mono (fun _ => by omega) fun _ _ => id).bind ?_)
      intro args used rest' hrest hargs
      refine .done ?_
      rw [List.append_nil]
      exact Phrase.call hargs
    · split
      · rename_i v hv
        exact .one ⟨List.cons_ne_nil _ _, fun _ => .constant hv⟩
      · rename_i hv
        exact .one ⟨List.cons_ne_nil _ _, fun _ => .var hv⟩
  · rename_i text rest
    rw [List.length_cons]
    refine Reads.after (show _ = [⟨.leftParen, text⟩] ++ rest from rfl)
      (((h.expression 1 rest).mono (fun _ => by omega) fun _ _ => id).bind ?_)
    intro inner used rest' hrest hinner
    refine (Reads.expect .rightParen rest').bind ?_
    rintro r _ rest'' rfl ⟨rfl, hr⟩
    exact .done (by simpa using hinner.paren rfl hr)
  · rename_i text rest
    cases dialect with
    | indented =>
      rw [List.length_cons]
      refine Reads.after (show _ = [⟨.leftBracket, text⟩] ++ rest from rfl)
        (((h.listItems rest).mono (fun _ => by omega) fun _ _ => id).bind ?_)
      intro items used rest' hrest hitems
      refine .done ?_
      rw [List.append_nil]
      exact Phrase.list rfl rfl hitems
    | braced => exact .refuse trivial
  · exact .refuse trivial

theorem succ (h : Sound dialect n) : Sound dialect (n + 1) where
  expression := h.expression_succ
  climb := h.climb_succ
  operand := h.operand_succ
  suffixes := h.suffixes_succ
  arguments := h.arguments_succ
  moreArguments := h.moreArguments_succ
  listItems := h.listItems_succ
  primary := h.primary_succ

end Sound

theorem sound (dialect : Dialect) (n : Nat) : Sound dialect n := by
  induction n with
  | zero => exact .zero
  | succ n ih => exact ih.succ

theorem lookup_constants {name : String} {v : Literal}
    (h : (constants dialect).lookup name = some v) : v.OfDialect dialect := by
  cases dialect with
  | indented => cases v <;> trivial
  | braced =>
    simp only [constants, List.lookup_cons, List.lookup_nil] at h
    split at h
    · cases h
      trivial
    · split at h
      · cases h
        trivial
      · split at h <;> cases h
        trivial

mutual

/-- What is derived from tokens of a dialect is an expression of the dialect. -/
theorem ofDialect_of_derives : ∀ {e : Expr} {ts : List Token}, Derives dialect e ts →
    AllLexed dialect ts → e.OfDialect dialect
  | _, _, .literal h, _ => by cases h <;> trivial
  | _, _, .constant h, _ => lookup_constants h
  | _, _, .var _, _ => trivial
  | _, _, .paren _ _ h, ht => ofDialect_of_derives h (allLexed_append.1 (allLexed_cons.1 ht).2).1
  | _, _, .unary hop h, ht => ⟨hop, ofDialect_of_derives h (allLexed_cons.1 ht).2⟩
  | _, _, .binary hop hl hr, ht => by
    rw [allLexed_append, allLexed_append] at ht
    exact ⟨hop, ofDialect_of_derives hl ht.1, ofDialect_of_derives hr ht.2.2⟩
  | _, _, .index _ _ h h', ht => by
    rw [allLexed_append, allLexed_cons, allLexed_append] at ht
    exact ⟨ofDialect_of_derives h ht.1, ofDialect_of_derives h' ht.2.2.1⟩
  | _, _, .call _ _ h, ht => by
    rw [allLexed_cons, allLexed_cons, allLexed_append] at ht
    exact ofDialectAll_of_derives h ht.2.2.1
  | _, _, .method hd _ _ h h', ht => by
    rw [allLexed_append, allLexed_cons, allLexed_cons, allLexed_cons, allLexed_append] at ht
    obtain ⟨text, rest, hdot⟩ := ht.2.1
    rw [hd] at hdot
    exact ⟨Token.first?_cutAs hdot, ofDialect_of_derives h ht.1,
      ofDialectAll_of_derives h' ht.2.2.2.2.1⟩
  | _, _, .list hd _ _ h, ht => by
    rw [allLexed_cons, allLexed_append] at ht
    exact ⟨hd, ofDialectAll_of_derives h ht.2.1⟩
  | _, _, .listComma hd _ _ _ _ h, ht => by
    rw [allLexed_cons, allLexed_append] at ht
    exact ⟨hd, ofDialectAll_of_derives h ht.2.1⟩

theorem ofDialectAll_of_derives : ∀ {es : List Expr} {ts : List Token}, DerivesAll dialect es ts →
    AllLexed dialect ts → OfDialectAll dialect es
  | _, _, .nil, _ => trivial
  | _, _, .single h, ht => ⟨ofDialect_of_derives h ht, trivial⟩
  | _, _, .cons _ _ h h', ht => by
    rw [allLexed_append, allLexed_cons] at ht
    exact ⟨ofDialect_of_derives h ht.1, ofDialectAll_of_derives h' ht.2.2⟩

end

/-- Either the tokens make up the expression or the error is accounted for. -/
theorem ofTokens_cases (dialect : Dialect) (ts : List Token) :
    (∃ e, ofTokens dialect ts = .ok e ∧ Phrase dialect e ts) ∨
      ∃ err, ofTokens dialect ts = .error err ∧
        (err.IsSyntax ∨ err = .longNumeral ∧ ∃ t ∈ ts, t.Lexed dialect → t.IsLong) := by
  cases ts with
  | nil => exact .inr ⟨.empty, rfl, .inl trivial⟩
  | cons t ts =>
    have h := (sound dialect (4 * ((t :: ts).length + 2))).expression 1 (t :: ts)
    unfold ofTokens
    rw [List.isEmpty_cons, if_neg Bool.false_ne_true]
    cases hx : expression dialect (4 * ((t :: ts).length + 2)) 1 (t :: ts) with
    | error e =>
      rw [hx] at h
      rcases h with h | h | ⟨-, h⟩
      · exact .inr ⟨e, rfl, .inl h⟩
      · exact .inr ⟨e, rfl, .inr h⟩
      · omega
    | ok r =>
      obtain ⟨e, rest⟩ := r
      rw [hx] at h
      obtain ⟨used, hts, he⟩ := h
      cases rest with
      | nil =>
        rw [List.append_nil] at hts
        rw [hts]
        exact .inl ⟨e, rfl, he⟩
      | cons t' rest => exact .inr ⟨.unexpected t'.text, rfl, .inl trivial⟩

theorem exists_tokens_of_parse {text : List Char} {e : Expr} (h : parse dialect text = .ok e) :
    ∃ ts, tokenize dialect text = .ok ts ∧ ofTokens dialect ts = .ok e := by
  unfold parse at h
  cases htext : tokenize dialect text with
  | error err =>
    rw [htext] at h
    cases h
  | ok ts =>
    rw [htext] at h
    exact ⟨ts, rfl, h⟩

/-- The tokens of a text make up what is read from it. -/
theorem derives_of_parse {text : List Char} {e : Expr} (h : parse dialect text = .ok e) :
    ∃ ts, tokenize dialect text = .ok ts ∧ AllLexed dialect ts ∧ Derives dialect e ts := by
  obtain ⟨ts, htext, hts⟩ := exists_tokens_of_parse h
  have hlexed : AllLexed dialect ts := Token.scan_lexed htext
  rcases ofTokens_cases dialect ts with ⟨e', h', he⟩ | ⟨err, h', -⟩
  · cases h'.symm.trans hts
    exact ⟨ts, htext, hlexed, he.2 hlexed⟩
  · cases h'.symm.trans hts

/-- What is read from a text belongs to the dialect. -/
theorem ofDialect_of_parse {text : List Char} {e : Expr} (h : parse dialect text = .ok e) :
    e.OfDialect dialect := by
  obtain ⟨ts, -, hlexed, he⟩ := derives_of_parse h
  exact ofDialect_of_derives he hlexed

theorem ofDialect_of_parse? {text : List Char} {e : Expr} (h : parse? dialect text = .ok (some e)) :
    e.OfDialect dialect := by
  unfold parse? at h
  split at h
  · cases h
    exact ofDialect_of_parse ‹_›
  · cases h
  · cases h

/-- The parser accounts for every token of an expression, and for every error: either the tokens
make up no expression or a numeral is too long. -/
theorem ofTokens_derives (dialect : Dialect) :
    (∀ ts, ofTokens dialect ts ≠ .error .tooDeep) ∧
      ∀ text ts, tokenize dialect text = .ok ts →
        (∃ e, ofTokens dialect ts = .ok e ∧ Derives dialect e ts ∧ e.OfDialect dialect) ∨
          (∃ err, ofTokens dialect ts = .error err ∧ err.IsSyntax) ∨
          ofTokens dialect ts = .error .longNumeral ∧ ∃ t ∈ ts, t.IsLong := by
  refine ⟨fun ts htoo => ?_, fun text ts htext => ?_⟩
  · rcases ofTokens_cases dialect ts with ⟨e, h, -⟩ | ⟨err, h, hsyntax | ⟨rfl, -⟩⟩
    · cases h.symm.trans htoo
    · cases h.symm.trans htoo
      exact hsyntax
    · cases h.symm.trans htoo
  · have hlexed : AllLexed dialect ts := Token.scan_lexed htext
    rcases ofTokens_cases dialect ts with ⟨e, h, he⟩ | ⟨err, h, hsyntax | ⟨rfl, t, ht, hlong⟩⟩
    · have hd := he.2 hlexed
      exact .inl ⟨e, h, hd, ofDialect_of_derives hd hlexed⟩
    · exact .inr (.inl ⟨err, h, hsyntax⟩)
    · exact .inr (.inr ⟨h, t, ht, hlong (hlexed t ht)⟩)

theorem ofTokens_derives_notIn :
    ∃ ts, tokenize .indented ['a', ' ', 'n', 'o', 't', ' ', 'i', 'n', '[', '-', 'b', ',', ']'] =
        .ok ts ∧
      ts.length = 8 ∧ ∃ e, ofTokens .indented ts = .ok e ∧ Derives .indented e ts := by
  have htext :
      tokenize .indented ['a', ' ', 'n', 'o', 't', ' ', 'i', 'n', '[', '-', 'b', ',', ']'] =
        .ok [⟨.name, ['a']⟩, ⟨.name, ['n', 'o', 't']⟩, ⟨.name, ['i', 'n']⟩, ⟨.leftBracket, ['[']⟩,
          ⟨.op, ['-']⟩, ⟨.name, ['b']⟩, ⟨.comma, [',']⟩, ⟨.rightBracket, [']']⟩] := rfl
  refine ⟨_, htext, rfl, ?_⟩
  rcases (ofTokens_derives .indented).2 _ _ htext with ⟨e, h, hd, -⟩ | ⟨err, h, -⟩ | ⟨h, -⟩
  · exact ⟨e, h, hd⟩
  · cases h
  · cases h

end Expr

end Stepwise
