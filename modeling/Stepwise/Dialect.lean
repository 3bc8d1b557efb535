import Stepwise.Text.Blank
import Stepwise.Text.Case
import Stepwise.Text.Quoted

/-!
# Dialects

Two small teaching dialects are traced. One nests blocks by indentation, the other by braces.
-/

namespace Stepwise

/-- The two dialects: blocks by margins, and blocks by braces. -/
inductive Dialect
  | indented
  | braced
deriving DecidableEq, Repr, Inhabited

namespace Dialect

/-- The name under which a dialect is requested and reported. -/
def name : Dialect → String
  | indented => "python"
  | braced => "c"

/-- Every name of a dialect, in lower case. -/
def aliases : List (String × Dialect) :=
  [("a", indented), ("b", braced), ("py", indented), ("python", indented), ("c", braced)]

/-- The dialect with this name, whatever its case and the blanks around it. -/
def ofText? (text : String) : Option Dialect :=
  aliases.lookup (Text.asString (Text.lower (Text.ofChars (Text.trim text.toList))))

/-- What is said of a request for no dialect, given the text that shows what was asked for. -/
def invalidMessage (shown : String) : String :=
  shown ++ " is not a valid Dialect"

end Dialect

end Stepwise
