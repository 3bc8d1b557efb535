import Stepwise.Source.Words

/-!
# Headers of the braced dialect

The shapes of lines and statements of the braced dialect: function headers, branches, loops,
declarations and increments. A type is a base type after any number of qualifiers; where a word can
be both, as many words as possible are qualifiers.
-/

namespace Stepwise.Braced

open Text Source

/-- What the first of the words at the start of the text is followed by. -/
def dropOneOf? (words : List String) (text : List Char) : Option (List Char) :=
  words.findSome? fun w => dropWord? w text

/-- Words that may stand in front of the type of a function. -/
def functionQualifiers : List String :=
  ["static", "inline", "extern", "const", "unsigned", "signed", "long", "short"]

/-- The types that a function can have. -/
def functionTypes : List String :=
  ["int", "void", "float", "double", "char", "long", "short", "bool"]

/-- The name, the parameter text and the mark at the end of a function header. -/
structure FunctionHeader where
  name : String
  params : List Char
  /-- `;` ends a prototype, `{` opens a body. -/
  terminator : Option Char

/-- A header from its base type on. -/
def afterQualifiers? (text : List Char) : Option FunctionHeader := do
  let rest ← dropOneOf? functionTypes text
  let first ← rest.head?
  let gap (c : Char) : Bool := isBlank c || c == '*'
  if !gap first then none
  let (name, rest) ← takeName? (rest.dropWhile gap)
  let (params, rest) ← takeToParen? (← dropChar? '(' (trimLeft rest))
  match trimLeft rest with
  | [] => pure ⟨name, params, none⟩
  | [c] => if c == ';' || c == '\x7b' then pure ⟨name, params, some c⟩ else none
  | _ => none

/-- A header that may start with qualifiers. The fuel bounds their number. -/
def functionHeaderFrom? : Nat → List Char → Option FunctionHeader
  | 0, text => afterQualifiers? text
  | fuel + 1, text =>
    ((dropOneOf? functionQualifiers text).bind dropBlanks?).bind (functionHeaderFrom? fuel)
      <|> afterQualifiers? text

/-- The text as a function header. -/
def functionHeader? (text : List Char) : Option FunctionHeader :=
  functionHeaderFrom? text.length text

/-- The text starts with a keyword and a parenthesis. -/
def opensWith (keyword : String) (text : List Char) : Bool :=
  (dropWord? keyword text).any fun rest => (trimLeft rest).head? == some '('

/-- The text begins another branch with a guard. -/
def isElseIf (text : List Char) : Bool :=
  ((dropWord? "else" text).bind dropBlanks?).any (opensWith "if")

/-- The text begins a branch with a guard, the first one or another. -/
def isIf (text : List Char) : Bool :=
  isElseIf text || opensWith "if" text

/-- The text begins with `else`, whatever follows. -/
def isElse (text : List Char) : Bool :=
  (dropKeyword? "else" text).isSome

/-- What follows the word `else`. -/
def afterElse (text : List Char) : List Char :=
  trim (text.drop 4)

def isWhile (text : List Char) : Bool := opensWith "while" text

def isFor (text : List Char) : Bool := opensWith "for" text

/-- Words that may stand in front of the type of a variable. -/
def valueQualifiers : List String :=
  ["const", "static", "unsigned", "signed", "long", "short"]

/-- The types that a variable can have. -/
def valueTypes : List String :=
  ["int", "long", "short", "char", "float", "double", "bool"]

/-- Whether a declaration is of floats, and its declarators. -/
structure Declaration where
  isFloat : Bool
  declarators : List Char

/-- The declarators after a type: at least one blank and some text that does not start with a
parenthesis. A second blank counts as text where it helps. -/
def declarators? (rest : List Char) : Option (List Char) :=
  match rest.takeWhile isBlank, rest.dropWhile isBlank with
  | [], _ => none
  | gap, text =>
    if !text.isEmpty && text.head? != some '(' then some text
    else if 2 ≤ gap.length then gap.getLast?.map (· :: text)
    else none

/-- A declaration from its base type on. -/
def baseDeclaration? (text : List Char) : Option Declaration := do
  let type ← valueTypes.find? fun w => w.toList.isPrefixOf text
  let declarators ← declarators? (text.drop type.length)
  pure ⟨type == "float" || type == "double", declarators⟩

/-- A declaration that may start with qualifiers. The fuel bounds their number. -/
def declarationFrom? : Nat → List Char → Option Declaration
  | 0, text => baseDeclaration? text
  | fuel + 1, text =>
    ((dropOneOf? valueQualifiers text).bind dropBlanks?).bind (declarationFrom? fuel)
      <|> baseDeclaration? text

/-- The text as a declaration. -/
def declaration? (text : List Char) : Option Declaration :=
  declarationFrom? text.length text

/-- One declared name, its array size if it is an array, and its initial value. -/
structure Declarator where
  name : String
  size : Option (List Char)
  init : Option (List Char)

/-- The initial value at the end of a declarator, or nothing at all. -/
def initializer? (text : List Char) : Option (Option (List Char)) :=
  match trimLeft text with
  | [] => some none
  | '=' :: value =>
    if (trimLeft value).isEmpty then value.getLast?.map fun c => some [c]
    else some (some (trimLeft value))
  | _ => none

/-- The text as one declarator. -/
def declarator? (text : List Char) : Option Declarator := do
  let (name, rest) ← takeName? (trimLeft (text.dropWhile (· == '*')))
  match trimLeft rest with
  | '[' :: inner =>
    let size := inner.takeWhile (· != ']')
    let rest ← dropChar? ']' (inner.dropWhile (· != ']'))
    pure ⟨name, some (trim size), ← initializer? rest⟩
  | rest => pure ⟨name, none, ← initializer? rest⟩

/-- The change that an increment mark stands for. -/
inductive Change
  | up
  | down

/-- The sign of a change by one. -/
def Change.symbol : Change → String
  | up => "++"
  | down => "--"

/-- The mark in front of a target. -/
def preIncrement? (text : List Char) : Option (Change × List Char) := do
  let (change, rest) ← ((dropWord? "++" text).map (Prod.mk Change.up))
    <|> ((dropWord? "--" text).map (Prod.mk Change.down))
  if (trimLeft rest).isEmpty then rest.getLast?.map fun c => (change, [c])
  else pure (change, trimLeft rest)

/-- The mark behind a target. -/
def postIncrement? (text : List Char) : Option (List Char × Change) := do
  let (change, front) ← match text.reverse with
    | '+' :: '+' :: front => some (Change.up, front.reverse)
    | '-' :: '-' :: front => some (Change.down, front.reverse)
    | _ => none
  let target := trimRight front
  if target.isEmpty then front.head?.map fun c => ([c], change) else pure (target, change)

end Stepwise.Braced
