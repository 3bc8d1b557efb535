import Stepwise.Expr.Token
import Stepwise.Number.Numeral

/-!
# Parsing expressions

Precedence climbing over the tokens. Every function takes the tokens that are left and returns the
tokens it leaves. Each spends one unit of fuel per nested call, and `Expr.parse` gives more than the
number of tokens can use up.
-/

namespace Stepwise

open Text

namespace Expr

/-- A parser takes what it reads off the front of the tokens. -/
abbrev Parse (α : Type) := List Token → Except ParseError (α × List Token)

/-- The next token; at the end, one without text. -/
def peek : List Token → Token
  | t :: _ => t
  | [] => ⟨.done, []⟩

/-- Read a token of a kind. -/
def expect (kind : TokenKind) : Parse Token
  | t :: rest => if t.kind = kind then pure (t, rest) else throw (.expected kind t)
  | [] => throw (.expected kind ⟨.done, []⟩)

/-- The binary operator at the start of the tokens. -/
def binaryOp? (dialect : Dialect) : List Token → Option (BinaryOp × List Token)
  | ⟨.op, text⟩ :: rest =>
    ((BinaryOp.symbolic dialect).find? (·.symbol.toList = text)).map fun op => (op, rest)
  | ⟨.name, text⟩ :: rest =>
    match dialect with
    | .braced => none
    | .indented =>
      if text = "and".toList then some (.and, rest)
      else if text = "or".toList then some (.or, rest)
      else if text = "in".toList then some (.mem, rest)
      else if text = "not".toList then
        match rest with
        | ⟨.name, word⟩ :: rest => if word = "in".toList then some (.notMem, rest) else none
        | _ => none
      else none
  | _ => none

/-- The sign or negation at the start of the tokens, and the precedence its operand needs. -/
def unaryOp? (dialect : Dialect) : List Token → Option (UnaryOp × Nat × List Token)
  | ⟨.name, text⟩ :: rest =>
    if dialect = .indented ∧ text = "not".toList then some (.not, notPrecedence, rest) else none
  | ⟨.op, text⟩ :: rest =>
    if text = ['-'] then some (.neg, signPrecedence, rest)
    else if text = ['+'] then some (.pos, signPrecedence, rest)
    else if dialect = .braced ∧ text = ['!'] then some (.bang, signPrecedence, rest)
    else none
  | _ => none

/-- The text between the delimiters of a literal. -/
def literalBody (text : List Char) : List Char := (text.drop 1).dropLast

/-- A number with a point or an exponent is a float, any other an integer. -/
def numberLiteral (text : List Char) : Except ParseError Literal :=
  let digits := (text.reverse.dropWhile Token.isNumberSuffix).reverse
  if digits.any fun c => c == '.' || c == 'e' || c == 'E' then
    pure (.float ((Number.readFloat? digits).getD 0))
  else
    match Number.readInt digits with
    | .ok n => pure (.int n)
    | .error _ => throw .longNumeral

/-- A character stands for its number. -/
def charLiteral (text : List Char) : Literal :=
  .int (((unescape (literalBody text)).head?.map Char.toNat).getD 0)

mutual

/-- An expression whose operators all bind at least as tightly as `least`. -/
def expression (dialect : Dialect) (fuel least : Nat) : Parse Expr := fun tokens =>
  match fuel with
  | 0 => throw .tooDeep
  | fuel + 1 => do
    let (left, tokens) ← operand dialect fuel tokens
    climb dialect fuel least left tokens

/-- Add operators and right operands to `left` while they bind tightly enough. -/
def climb (dialect : Dialect) (fuel least : Nat) (left : Expr) : Parse Expr := fun tokens =>
  match fuel with
  | 0 => throw .tooDeep
  | fuel + 1 =>
    match binaryOp? dialect tokens with
    | none => pure (left, tokens)
    | some (op, rest) =>
      if op.precedence dialect < least then pure (left, tokens)
      else do
        let (right, tokens) ← expression dialect fuel (op.rightPrecedence dialect) rest
        climb dialect fuel least (.binary op left right) tokens

/-- A signed or negated expression, or a primary with its indices and method calls. -/
def operand (dialect : Dialect) (fuel : Nat) : Parse Expr := fun tokens =>
  match fuel with
  | 0 => throw .tooDeep
  | fuel + 1 =>
    match unaryOp? dialect tokens with
    | some (op, least, rest) => do
      let (inner, tokens) ← expression dialect fuel least rest
      pure (.unary op inner, tokens)
    | none => do
      let (node, tokens) ← primary dialect fuel tokens
      suffixes dialect fuel node tokens

/-- Add indices and method calls to `node`. -/
def suffixes (dialect : Dialect) (fuel : Nat) (node : Expr) : Parse Expr := fun tokens =>
  match fuel with
  | 0 => throw .tooDeep
  | fuel + 1 =>
    match tokens with
    | ⟨.leftBracket, _⟩ :: rest => do
      let (position, tokens) ← expression dialect fuel 1 rest
      let (_, tokens) ← expect .rightBracket tokens
      suffixes dialect fuel (.index node position) tokens
    | ⟨.dot, _⟩ :: rest => do
      let (name, tokens) ← expect .name rest
      let (args, tokens) ← arguments dialect fuel tokens
      suffixes dialect fuel (.method node (String.ofList name.text) args) tokens
    | _ => pure (node, tokens)

/-- Expressions in parentheses, with commas between them. -/
def arguments (dialect : Dialect) (fuel : Nat) : Parse (List Expr) := fun tokens =>
  match fuel with
  | 0 => throw .tooDeep
  | fuel + 1 => do
    let (_, tokens) ← expect .leftParen tokens
    match tokens with
    | ⟨.rightParen, _⟩ :: rest => pure ([], rest)
    | _ => do
      let (head, tokens) ← expression dialect fuel 1 tokens
      let (tail, tokens) ← moreArguments dialect fuel tokens
      pure (head :: tail, tokens)

/-- The arguments after the first, and the closing parenthesis. -/
def moreArguments (dialect : Dialect) (fuel : Nat) : Parse (List Expr) := fun tokens =>
  match fuel with
  | 0 => throw .tooDeep
  | fuel + 1 =>
    match tokens with
    | ⟨.comma, _⟩ :: rest => do
      let (head, tokens) ← expression dialect fuel 1 rest
      let (tail, tokens) ← moreArguments dialect fuel tokens
      pure (head :: tail, tokens)
    | _ => do
      let (_, tokens) ← expect .rightParen tokens
      pure ([], tokens)

/-- The items of a list literal and its closing bracket; a comma may follow the last item. -/
def listItems (dialect : Dialect) (fuel : Nat) : Parse (List Expr) := fun tokens =>
  match fuel with
  | 0 => throw .tooDeep
  | fuel + 1 =>
    match tokens with
    | ⟨.rightBracket, _⟩ :: rest => pure ([], rest)
    | _ => do
      let (head, tokens) ← expression dialect fuel 1 tokens
      match tokens with
      | ⟨.comma, _⟩ :: rest => do
        let (tail, tokens) ← listItems dialect fuel rest
        pure (head :: tail, tokens)
      | _ => do
        let (_, tokens) ← expect .rightBracket tokens
        pure ([head], tokens)

/-- A literal, name, call, list or parenthesised expression. -/
def primary (dialect : Dialect) (fuel : Nat) : Parse Expr := fun tokens =>
  match fuel with
  | 0 => throw .tooDeep
  | fuel + 1 =>
    match tokens with
    | ⟨.number, text⟩ :: rest => do pure (.lit (← numberLiteral text), rest)
    | ⟨.string, text⟩ :: rest =>
      pure (.lit (.str (String.ofList (unescape (literalBody text)))), rest)
    | ⟨.char, text⟩ :: rest => pure (.lit (charLiteral text), rest)
    | ⟨.name, text⟩ :: rest =>
      let name := String.ofList text
      match rest with
      | ⟨.leftParen, _⟩ :: _ => do
        let (args, tokens) ← arguments dialect fuel rest
        pure (.call name args, tokens)
      | _ =>
        match (constants dialect).lookup name with
        | some literal => pure (.lit literal, rest)
        | none => pure (.var name, rest)
    | ⟨.leftParen, _⟩ :: rest => do
      let (inner, tokens) ← expression dialect fuel 1 rest
      let (_, tokens) ← expect .rightParen tokens
      pure (inner, tokens)
    | ⟨.leftBracket, text⟩ :: rest =>
      match dialect with
      | .indented => do
        let (items, tokens) ← listItems dialect fuel rest
        pure (.list items, tokens)
      | .braced => throw (.unexpected text)
    | tokens => throw (.unexpected (peek tokens).text)

end

/-- The expression that all the tokens make up. -/
def ofTokens (dialect : Dialect) (tokens : List Token) : Except ParseError Expr := do
  if tokens.isEmpty then throw .empty
  let (node, rest) ← expression dialect (4 * (tokens.length + 2)) 1 tokens
  match rest with
  | [] => pure node
  | t :: _ => throw (.unexpected t.text)

/-- The expression that a text denotes. -/
def parse (dialect : Dialect) (text : List Char) : Except ParseError Expr := do
  ofTokens dialect (← tokenize dialect text)

/-- The expression that a text denotes, blanks around it aside, or nothing if it denotes none. An
overlong numeral is a fault. -/
def parse? (dialect : Dialect) (text : List Char) : Except Fault (Option Expr) :=
  match parse dialect (trim text) with
  | .ok e => pure (some e)
  | .error .longNumeral => throw .tooManyDigits
  | .error _ => pure none

end Expr

end Stepwise
