import Stepwise.Text.Digit
import Stepwise.Value.Percent

/-!
# Output formats of the braced dialect

`printf` replaces the conversions in a text by its arguments in order; where arguments are missing,
by zero. A value that a conversion cannot write is shown as it is displayed. What looks like no
conversion stays.
-/

namespace Stepwise

open Number Text

namespace Printf

/-- A conversion: its flags, width and precision as written, and its letter. -/
structure Conversion where
  options : Text
  letter : Char

/-- A point and at least one digit. -/
def precisionText (t : Text) : Text :=
  match t with
  | p :: rest =>
    let digits := rest.takeWhile isDecimalPoint
    if p != '.' || digits.isEmpty then [] else p :: digits
  | [] => []

/-- The marks for the length of an argument, which are skipped. -/
def lengthMarks : List Text := ["hh", "h", "ll", "l", "L", "z"]

/-- The letters that end a conversion. -/
def letters : List Char := "diuxXfFeEgGcs%".toList

/-- The conversion after a percent sign and what follows it. -/
def conversion? (t : Text) : Option (Conversion × Text) := do
  let flags := t.takeWhile Format.isFlag
  let rest := t.dropWhile Format.isFlag
  let width := rest.takeWhile isDecimalPoint
  let rest := rest.dropWhile isDecimalPoint
  let precision := precisionText rest
  let rest := rest.drop precision.length
  let rest :=
    match lengthMarks.find? (·.isPrefixOf rest) with
    | some mark => rest.drop mark.length
    | none => rest
  let letter ← rest.head?.bind CodePoint.char?
  if letters.contains letter then some (⟨flags ++ width ++ precision, letter⟩, rest.tail) else none

/-- A piece of a format: a text that stays, or a conversion. -/
inductive Piece
  | text (t : Text)
  | conversion (c : Conversion)

/-- The pieces of a format that is no longer than the fuel, behind those already found, which are
given last first. -/
def piecesWith : Nat → List Piece → Text → List Piece
  | 0, before, _ => before.reverse
  | fuel + 1, before, t =>
    let before := .text (t.takeWhile Format.isPlain) :: before
    match t.dropWhile Format.isPlain with
    | [] => before.reverse
    | sign :: rest =>
      match conversion? rest with
      | some (conv, rest) => piecesWith fuel (.conversion conv :: before) rest
      | none => piecesWith fuel (.text [sign] :: before) rest

/-- The pieces of a format. -/
def pieces (format : Text) : List Piece := piecesWith (format.length + 1) [] format

/-- Write a value by options and a letter that the percent formats know. -/
def write (h : Heap) (options : Text) (letter : Char) (v : Value) : Except Fault Text :=
  Format.percent h (CodePoint.ofChar '%' :: options ++ [CodePoint.ofChar letter]) v

/-- One value by one conversion. -/
def convert (h : Heap) (conv : Conversion) (v : Value) : Except Fault Text := do
  let letter := conv.letter
  if letter == 'd' || letter == 'i' || letter == 'u' then
    write h conv.options 'd' (.int (← v.toInt))
  else if letter == 'x' || letter == 'X' then write h conv.options letter (.int (← v.toInt))
  else if letter == 's' then write h conv.options 's' (.str (← Braced.display h v))
  else if letter == 'c' then
    match v.int? with
    | some n =>
      match CodePoint.ofInt? n with
      | some p => pure [p]
      | none => throw .undefined
    | none => pure ((← Indented.display h v).take 1)
  else write h conv.options letter (.float (← v.toFloat))

/-- One value by one conversion, or as it is displayed if the conversion cannot write it. -/
def substitute (h : Heap) (conv : Conversion) (v : Value) : Except Fault Text :=
  match convert h conv v with
  | .ok s => pure s
  | .error fault => if fault.isRecoverable then Braced.display h v else throw fault

/-- The text of the pieces, each conversion but `%%` taking the next argument. The texts in front of
them are given last first. -/
def fill (h : Heap) (before : List Text) : List Piece → List Value → Except Fault Text
  | [], _ => pure before.reverse.flatten
  | .text t :: rest, args => fill h (t :: before) rest args
  | .conversion conv :: rest, args => do
    if conv.letter == '%' then fill h ("%" :: before) rest args
    else
      let shown ← substitute h conv (args.headD (.int 0))
      fill h (shown :: before) rest args.tail

/-- The text without the line ends at its end. -/
def dropNewlines (t : Text) : Text :=
  (t.reverse.dropWhile fun p => p == CodePoint.ofChar '\n').reverse

/-- The text that a format and its arguments print, without line feeds at the end. -/
def format (h : Heap) (fmt : Value) (args : List Value) : Except Fault Text := do
  pure (dropNewlines (← fill h [] (pieces (← Indented.display h fmt)) args))

end Printf

end Stepwise
