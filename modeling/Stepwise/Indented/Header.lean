import Stepwise.Source.Words

/-!
# Headers of the indented dialect

The shapes of lines that are not simple statements: function definitions, branches, loops and
returns, and the call of `print` with its keyword arguments.
-/

namespace Stepwise.Indented

open Text Source

/-- The name and the parameter text of a function definition. -/
def definition? (text : List Char) : Option (String × List Char) := do
  let rest ← dropBlanks? (← dropWord? "def" text)
  let (name, rest) ← takeName? rest
  let (params, rest) ← takeToParen? (← dropChar? '(' (trimLeft rest))
  let _ ← dropChar? ':' (trimLeft rest)
  pure (name, params)

/-- The guard between a keyword and a final colon. -/
def guardAfter? (keyword : String) (text : List Char) : Option (List Char) := do
  trimOrLast? (← beforeColon? (← dropKeyword? keyword text))

/-- The guard of an `if` or `elif` line. -/
def branchGuard? (text : List Char) : Option (List Char) :=
  guardAfter? "if" text <|> guardAfter? "elif" text

/-- The text begins another branch with a guard. -/
def isElif (text : List Char) : Bool :=
  (dropKeyword? "elif" text).isSome

/-- The text is the head of the last branch. -/
def isElse (text : List Char) : Bool :=
  (dropWord? "else" text).any fun rest => trimLeft rest == [':']

/-- The guard of a loop. -/
def whileGuard? (text : List Char) : Option (List Char) :=
  guardAfter? "while" text

/-- The variable and the source text of a loop over items. -/
def forParts? (text : List Char) : Option (String × List Char) := do
  let rest ← dropBlanks? (← dropWord? "for" text)
  let (name, rest) ← takeName? rest
  let rest ← dropWord? "in" (← dropBlanks? rest)
  match ← beforeColon? rest with
  | blank :: items => if isBlank blank then (trimOrLast? items).map (Prod.mk name) else none
  | [] => none

/-- The text after the opening parenthesis of a `print` call. -/
def printRest? (text : List Char) : Option (List Char) := do
  dropChar? '(' (trimLeft (← dropWord? "print" text))

/-- The name and the value text of a keyword argument. -/
def keywordArgument? (text : List Char) : Option (String × List Char) := do
  let (name, rest) ← takeName? text
  let value ← dropChar? '=' (trimLeft rest)
  if value.head? == some '=' then none
  else if (trimLeft value).isEmpty then value.getLast?.map fun c => (name, [c])
  else pure (name, trimLeft value)

end Stepwise.Indented
