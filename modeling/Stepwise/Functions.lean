import Stepwise.Braced.Header
import Stepwise.Indented.Header
import Stepwise.Dialect
import Stepwise.Source.Layout
import Stepwise.Table

/-!
# Function tables

All function definitions of a program are found before it runs, so a call may come before the
definition. Of two definitions with one name the later one counts.
-/

namespace Stepwise

open Text Source

/-- A function of a program: its head, and the lines and depth of its body. -/
structure FunctionDef where
  name : String
  params : List String
  headerLine : Nat
  bodyStart : Nat
  bodyEnd : Nat
  bodyDepth : Nat
deriving DecidableEq

/-- The functions of a program by their names. -/
abbrev FunctionTable := Table FunctionDef

/-- The trimmed pieces between commas that are not blank. -/
def parameterTexts (text : List Char) : List (List Char) :=
  (splitOn ',' text).filter fun p => !(trim p).isEmpty

namespace Indented

/-- A parameter without its default. -/
def parameterName (text : List Char) : String :=
  String.ofList (trim (text.takeWhile (· != '=')))

/-- The function that a line defines. -/
def functionAt? (p : Program) (line : Line) : Option FunctionDef :=
  if line.blank then none
  else
    (definition? line.text).map fun (name, params) =>
      let i := line.number
      let bodyDepth := p.bodyDepth i
      { name, params := (parameterTexts params).map parameterName, headerLine := i
        bodyStart := i + 1, bodyEnd := p.blockEnd (i + 1) bodyDepth, bodyDepth }

end Indented

namespace Braced

/-- The text without what stands between a square bracket and the next closing one. -/
def dropSizes : Bool → List Char → List Char
  | _, [] => []
  | true, c :: rest => dropSizes (c != ']') rest
  | false, c :: rest =>
    if c == '[' && rest.contains ']' then dropSizes true rest else c :: dropSizes false rest

/-- The last name in a text, where `current` is a name just being read, last character first. -/
def lastNameFrom (current last : Option (List Char)) : List Char → Option (List Char)
  | [] => current <|> last
  | c :: rest =>
    match current with
    | some name =>
      if isWord c then lastNameFrom (some (c :: name)) last rest else lastNameFrom none current rest
    | none => lastNameFrom (if isNameStart c then some [c] else none) last rest

/-- The name that a parameter declares: the last name in it, or all of it if there is none. -/
def parameterName (text : List Char) : String :=
  match lastNameFrom none none (dropSizes false text) with
  | some name => String.ofList name.reverse
  | none => String.ofList (trim text)

/-- The function that a line defines. -/
def functionAt? (p : Program) (line : Line) : Option FunctionDef :=
  if line.blank then none
  else
    match functionHeader? line.text with
    | some header =>
      if header.terminator == some ';' then none
      else
        let i := line.number
        let params := (parameterTexts header.params).filter fun t => trim t != "void".toList
        some
          { name := header.name, params := params.map parameterName, headerLine := i
            bodyStart := i + 1, bodyEnd := p.blockEnd (i + 1) (line.depth + 1)
            bodyDepth := line.depth + 1 }
    | none => none

end Braced

/-- The functions defined in a program. -/
def functionTable (dialect : Dialect) (p : Program) : FunctionTable :=
  let find := match dialect with
    | .indented => Indented.functionAt? p
    | .braced => Braced.functionAt? p
  Table.ofList ((p.lines.filterMap find).map fun f => (f.name, f))

/-- The layout of a source text. -/
def layout (dialect : Dialect) (source : List Char) : Program :=
  match dialect with
  | .indented => indentLayout source
  | .braced => braceLayout source

end Stepwise
