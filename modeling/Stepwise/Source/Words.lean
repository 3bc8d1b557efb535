import Stepwise.Text.Blank
import Stepwise.Text.Word

/-!
# Words at the start of a line

Small readers from which the headers of both dialects are put together. Each returns what is left of
the text.
-/

namespace Stepwise.Source

open Text

/-- What follows `word` at the start of the text. -/
def dropWord? (word : String) (text : List Char) : Option (List Char) :=
  if word.toList.isPrefixOf text then some (text.drop word.length) else none

/-- No word character follows. -/
def atBoundary (rest : List Char) : Bool :=
  match rest with
  | c :: _ => !isWord c
  | [] => true

/-- What follows `word` at the start of the text, if it is not the start of a longer word. -/
def dropKeyword? (word : String) (text : List Char) : Option (List Char) :=
  (dropWord? word text).filter atBoundary

/-- What follows at least one blank. -/
def dropBlanks? (text : List Char) : Option (List Char) :=
  match text with
  | c :: rest => if isBlank c then some (trimLeft rest) else none
  | [] => none

/-- The text behind a character that it begins with. -/
def dropChar? (c : Char) : List Char → Option (List Char)
  | d :: rest => if c == d then some rest else none
  | [] => none

/-- The longest run of word characters, if there is one, and what follows it. -/
def takeName? (text : List Char) : Option (String × List Char) :=
  let name := text.takeWhile isWord
  if name.isEmpty then none else some (String.ofList name, text.dropWhile isWord)

/-- The text up to the first closing parenthesis and what follows the parenthesis. -/
def takeToParen? (text : List Char) : Option (List Char × List Char) :=
  (dropChar? ')' (text.dropWhile (· != ')'))).map fun rest => (text.takeWhile (· != ')'), rest)

/-- The trimmed text, or its last blank if it is blank throughout. -/
def trimOrLast? (text : List Char) : Option (List Char) :=
  let inner := trim text
  if inner.isEmpty then text.getLast?.map ([·]) else some inner

/-- The text in front of a colon at the very end. -/
def beforeColon? (text : List Char) : Option (List Char) :=
  if text.getLast? == some ':' then some text.dropLast else none

/-- What a `return` gives back, empty if nothing. -/
def returnText? (text : List Char) : Option (List Char) :=
  (dropKeyword? "return" text).map trimLeft

end Stepwise.Source
