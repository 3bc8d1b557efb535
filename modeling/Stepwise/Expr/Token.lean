import Stepwise.Expr.Basic
import Stepwise.Text.Digit
import Stepwise.Text.Word

/-!
# Tokens

A text is cut into tokens from left to right. At each place the first kind that fits is taken, in
the order number, string, character, name, operator, bracket, comma, point. Blanks separate tokens;
any other character is an error.
-/

namespace Stepwise

open Text

inductive TokenKind
  | number | string | char | name | op
  | leftParen | rightParen | leftBracket | rightBracket
  | comma | dot
  /-- The end of the text. -/
  | done
deriving DecidableEq, Repr

/-- The name of a kind in messages. -/
def TokenKind.label : TokenKind → String
  | number => "NUMBER" | string => "STRING" | char => "CHAR" | name => "NAME" | op => "OP"
  | leftParen => "LPAREN" | rightParen => "RPAREN"
  | leftBracket => "LBRACKET" | rightBracket => "RBRACKET"
  | comma => "COMMA" | dot => "DOT" | done => "EOF"

/-- A token with the text that it was cut from. -/
structure Token where
  kind : TokenKind
  text : List Char
deriving DecidableEq, Repr

/-- Why a text is not an expression. -/
inductive ParseError
  | strayCharacter (c : Char)
  | expected (kind : TokenKind) (found : Token)
  | unexpected (text : List Char)
  | empty
  | unbalanced
  /-- An integer numeral of too many digits. -/
  | longNumeral
  /-- The parser's fuel is used up, which never happens to `Expr.parse`. -/
  | tooDeep
deriving DecidableEq, Repr

def ParseError.message : ParseError → String
  | strayCharacter c => "Unexpected character " ++ quoteString c.toString
  | expected kind found =>
    s!"Expected {kind.label}, got {found.kind.label} (" ++ String.ofList found.text ++ ")"
  | unexpected text =>
    "Unexpected token " ++
      quoteString (if text.isEmpty then "end of expression" else String.ofList text)
  | empty => "Empty expression"
  | unbalanced => "Unbalanced parentheses"
  | longNumeral => "More digits than a numeral may have"
  | tooDeep => "Expression nested too deeply"

namespace Token

/-- A lexeme at the start of the text and the rest of the text. -/
abbrev Cut := List Char × List Char

/-- Put characters in front of the lexeme. -/
def Cut.after (front : List Char) (cut : Cut) : Cut := (front ++ cut.1, cut.2)

/-- The longest lexeme of characters of a class. -/
def spanning (inClass : Char → Bool) (text : List Char) : Cut :=
  (text.takeWhile inClass, text.dropWhile inClass)

def spanDigits (text : List Char) : Cut := spanning isDecimal text

/-- Digits with at most one point: `12`, `12.`, `12.5`, `.5`. -/
def mantissa? (text : List Char) : Option Cut :=
  match spanDigits text with
  | ([], '.' :: rest) =>
    match spanDigits rest with
    | ([], _) => none
    | (fraction, rest) => some ('.' :: fraction, rest)
  | ([], _) => none
  | (whole, '.' :: rest) => some ((spanDigits rest).after (whole ++ ['.']))
  | (whole, rest) => some (whole, rest)

/-- An exponent mark with its digits, or nothing. -/
def exponent (text : List Char) : Cut :=
  match text with
  | mark :: rest =>
    if mark == 'e' || mark == 'E' then
      let (sign, digits) : Cut :=
        match rest with
        | '+' :: rest => (['+'], rest)
        | '-' :: rest => (['-'], rest)
        | rest => ([], rest)
      match spanDigits digits with
      | ([], _) => ([], text)
      | (digits, rest) => (mark :: sign ++ digits, rest)
    else ([], text)
  | [] => ([], text)

/-- Letters that may follow a number in the braced dialect and say nothing about its value. -/
def isNumberSuffix (c : Char) : Bool := "fFlLuU".toList.contains c

/-- A number at the front of a text. In the braced dialect letters may follow it. -/
def number? (dialect : Dialect) (text : List Char) : Option Cut :=
  (mantissa? text).map fun (mantissa, rest) =>
    let (exponent, rest) := exponent rest
    match dialect with
    | .indented => (mantissa ++ exponent, rest)
    | .braced => (spanning isNumberSuffix rest).after (mantissa ++ exponent)

/-- The rest of a literal after its opening delimiter, closing delimiter included. A backslash
takes the next character with it, which is no line feed. -/
def literalRest? (delimiter : Char) : List Char → Option Cut
  | [] => none
  | '\\' :: c :: rest =>
    if c == '\n' then none else (literalRest? delimiter rest).map (Cut.after ['\\', c])
  | c :: rest =>
    if c == delimiter then some ([c], rest)
    else if c == '\\' then none
    else (literalRest? delimiter rest).map (Cut.after [c])

/-- A string at the front of a text. Single quotes make one in the indented dialect only. -/
def string? (dialect : Dialect) : List Char → Option Cut
  | '"' :: rest => (literalRest? '"' rest).map (Cut.after ['"'])
  | '\'' :: rest =>
    match dialect with
    | .indented => (literalRest? '\'' rest).map (Cut.after ['\''])
    | .braced => none
  | _ => none

/-- One character or escape between single quotes, in the braced dialect. -/
def char? (dialect : Dialect) (text : List Char) : Option Cut :=
  match dialect, text with
  | .braced, '\'' :: '\\' :: c :: '\'' :: rest =>
    if c == '\n' then none else some (['\'', '\\', c, '\''], rest)
  | .braced, '\'' :: c :: '\'' :: rest =>
    if c == '\'' || c == '\\' then none else some (['\'', c, '\''], rest)
  | _, _ => none

def name? : List Char → Option Cut
  | c :: rest => if isNameStart c then some ((spanning isWord rest).after [c]) else none
  | [] => none

/-- Operator texts, longer ones first. -/
def operators : Dialect → List String
  | .indented => ["**", "//", "==", "!=", "<=", ">=", "-", "+", "*", "/", "%", "<", ">"]
  | .braced => ["&&", "||", "==", "!=", "<=", ">=", "-", "+", "*", "/", "%", "<", ">", "!"]

def operator? (dialect : Dialect) (text : List Char) : Option Cut :=
  ((operators dialect).map String.toList).find? (·.isPrefixOf text) |>.map fun op =>
    (op, text.drop op.length)

/-- A token of one character at the front of a text. -/
def mark? (dialect : Dialect) : List Char → Option (TokenKind × Cut)
  | c :: rest =>
    if c == '(' then some (.leftParen, [c], rest)
    else if c == ')' then some (.rightParen, [c], rest)
    else if c == '[' then some (.leftBracket, [c], rest)
    else if c == ']' then some (.rightBracket, [c], rest)
    else if c == ',' then some (.comma, [c], rest)
    else if c == '.' && dialect == .indented then some (.dot, [c], rest)
    else none
  | [] => none

/-- The token at the start of the text and the rest. -/
def first? (dialect : Dialect) (text : List Char) : Option (TokenKind × Cut) :=
  ((number? dialect text).map (Prod.mk .number))
    <|> ((string? dialect text).map (Prod.mk .string))
    <|> ((char? dialect text).map (Prod.mk .char))
    <|> ((name? text).map (Prod.mk .name))
    <|> ((operator? dialect text).map (Prod.mk .op))
    <|> mark? dialect text

/-- The tokens of a text that is no longer than the fuel. -/
def scan (dialect : Dialect) : Nat → List Char → Except ParseError (List Token)
  | 0, _ => pure []
  | _ + 1, [] => pure []
  | fuel + 1, c :: rest =>
    match first? dialect (c :: rest) with
    | some (kind, lexeme, rest) => do
      let tokens ← scan dialect fuel rest
      pure (⟨kind, lexeme⟩ :: tokens)
    | none => if isBlank c then scan dialect fuel rest else throw (.strayCharacter c)

end Token

/-- The tokens of a text. -/
def tokenize (dialect : Dialect) (text : List Char) : Except ParseError (List Token) :=
  Token.scan dialect text.length text

end Stepwise
