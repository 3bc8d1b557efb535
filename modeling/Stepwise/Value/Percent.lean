import Stepwise.Number.Digits
import Stepwise.Value.Convert
import Stepwise.Value.Show

/-!
# Percent formats

A conversion such as `%-8.3f` has flags, a width, a precision and a letter. `Format.conversion`
writes one value by one conversion; `Format.percent` fills a whole text in which at most one value
is converted.
-/

namespace Stepwise

open Number Text

namespace Format

/-- How a value is to be written: the flags, the width and the precision. -/
structure Spec where
  left : Bool := false
  plus : Bool := false
  space : Bool := false
  alternate : Bool := false
  zero : Bool := false
  width : Nat := 0
  precision : Option Nat := none

/-- Widths and precisions beyond these are refused. -/
def maxWidth : Nat := 0x7FFFFFFFFFFFFFFF

/-- The highest precision that a format may ask for. -/
def maxPrecision : Nat := 0x7FFFFFFF

/-- How much is missing from a text of this length to the width. -/
def missing (spec : Spec) (length : Nat) : Except Fault Nat :=
  if maxLength < spec.width - length then throw .outOfMemory else pure (spec.width - length)

/-- Bring a number to the width. It keeps its sign, and the mark of its base, in front of the zeros
that fill it up. -/
def padNumber (spec : Spec) (text : List Char) : Except Fault (List Char) := do
  let (sign, body) : List Char × List Char :=
    match text with
    | '-' :: body => (['-'], body)
    | body => (if spec.plus then ['+'] else if spec.space then [' '] else [], body)
  let fill ← missing spec (sign.length + body.length)
  if spec.left then pure (sign ++ body ++ List.replicate fill ' ')
  else if spec.zero then
    let (mark, digits) : List Char × List Char :=
      match body with
      | '0' :: 'x' :: digits => (['0', 'x'], digits)
      | '0' :: 'X' :: digits => (['0', 'X'], digits)
      | '0' :: 'o' :: digits => (['0', 'o'], digits)
      | digits => ([], digits)
    pure (sign ++ mark ++ zeros fill ++ digits)
  else pure (List.replicate fill ' ' ++ sign ++ body)

/-- Bring a text to the width. -/
def padText (spec : Spec) (t : Text) : Except Fault Text := do
  let fill := List.replicate (← missing spec t.length) (CodePoint.ofChar ' ')
  pure (if spec.left then t ++ fill else fill ++ t)

/-- The digits that a precision asks for, at most as many as are allowed and can be held. -/
def places (spec : Spec) (default allowed : Nat) : Except Fault Nat :=
  let n := spec.precision.getD default
  if allowed < n then throw .undefined
  else if maxLength < n then throw .outOfMemory
  else pure n

/-- An integer by a conversion letter. -/
def integer (spec : Spec) (letter : Char) (n : Int) : Except Fault (List Char) := do
  let digits ←
    if letter == 'x' then pure (digitsIn 16 n.natAbs)
    else if letter == 'X' then pure ((digitsIn 16 n.natAbs).map Char.toUpper)
    else if letter == 'o' then pure (digitsIn 8 n.natAbs)
    else do pure (← intText n.natAbs).toList
  let mark := if spec.alternate && (letter == 'x' || letter == 'X' || letter == 'o') then
    ['0', letter] else []
  let digits := zeros ((← places spec 0 (maxPrecision - 3)) - digits.length) ++ digits
  padNumber spec (signText (n < 0) ++ mark ++ digits)

/-- More digits than the decimal expansion of any float has. -/
def allDigits : Nat := 2000

/-- A finite float by a conversion letter in lower case. -/
def finite (spec : Spec) (letter : Char) (d : Number.Dyadic) : Except Fault (List Char) := do
  if letter == 'g' && !spec.alternate then
    pure (general 'e' false (min (spec.precision.getD 6) allDigits) d)
  else
    let places ← places spec 6 maxPrecision
    if letter == 'f' then pure (fixed spec.alternate places d)
    else if letter == 'e' then pure (scientific 'e' spec.alternate places d)
    else pure (general 'e' spec.alternate places d)

/-- A float by a conversion letter. -/
def float (spec : Spec) (letter : Char) (x : Float) : Except Fault (List Char) := do
  let text ←
    match Dyadic.ofFloat? x with
    | none => pure (specialText x)
    | some d => do pure (signText d.neg ++ (← finite spec letter.toLower d))
  padNumber spec (if letter.isUpper then text.map Char.toUpper else text)

/-- A text, of which the precision is the most code points shown. -/
def text (spec : Spec) (t : Text) : Except Fault Text :=
  padText spec (match spec.precision with | some n => t.take n | none => t)

/-- The code point that a value stands for, as a text of one or as its number. -/
def codePoint (v : Value) : Except Fault CodePoint :=
  match v with
  | .str [p] => pure p
  | v =>
    match v.int?.bind CodePoint.ofInt? with
    | some p => pure p
    | none => throw .undefined

/-- One value by one conversion. -/
def conversion (h : Heap) (spec : Spec) (letter : Char) (v : Value) : Except Fault Text := do
  if letter == 's' then text spec (← Indented.display h v)
  else if letter == 'r' then text spec (← Indented.describe h v)
  else if letter == 'a' then text spec (asciiOnly (← Indented.describe h v))
  else if letter == 'd' || letter == 'i' || letter == 'u' then
    pure (ofChars (← integer spec letter (← (← v.num).truncate)))
  else if letter == 'x' || letter == 'X' || letter == 'o' then
    match v.int? with
    | some n => do pure (ofChars (← integer spec letter n))
    | none => throw .undefined
  else if "eEfFgG".toList.contains letter then
    pure (ofChars (← float spec letter (← (← v.num).toFloat)))
  else if letter == 'c' then padText spec [← codePoint v]
  else throw .undefined

/-- The code point is one of the flags. -/
def isFlag (p : CodePoint) : Bool :=
  p == '-' || p == '+' || p == ' ' || p == '#' || p == '0'

/-- The specification that these flags make. -/
def withFlags (flags : Text) : Spec :=
  { left := flags.contains (↑ '-'), plus := flags.contains (↑ '+'), space := flags.contains (↑ ' ')
    alternate := flags.contains (↑ '#'), zero := flags.contains (↑ '0') }

/-- The value that a percent format may use, and whether it is still unused. -/
structure Supply where
  value : Value
  unused : Bool

/-- Use the value, if it is unused. -/
def Supply.take (s : Supply) : Except Fault (Value × Supply) :=
  if s.unused then pure (s.value, { s with unused := false }) else throw .undefined

/-- The code point is one of the digits 0 to 9. -/
def isDigit (p : CodePoint) : Bool := p.char?.any Char.isDigit

/-- A width or precision: digits, or a star that takes the value. -/
def measure (limit : Nat) (supply : Supply) (rest : Text) :
    Except Fault (Option Int × Supply × Text) := do
  if rest.head? == some (↑ '*') then
    let (v, supply) ← supply.take
    match v.int? with
    | some n => if n.natAbs ≤ limit then pure (some n, supply, rest.tail) else throw .undefined
    | none => throw .undefined
  else
    let digits := (rest.takeWhile isDigit).filterMap CodePoint.char?
    if digits.isEmpty then pure (none, supply, rest)
    else
      let some n := digitsValueUpTo limit digits | throw .undefined
      pure (some n, supply, rest.dropWhile isDigit)

/-- The specification after a percent sign, and what follows it. -/
def spec (supply : Supply) (rest : Text) : Except Fault (Spec × Supply × Text) := do
  let base := withFlags (rest.takeWhile isFlag)
  let (width, supply, rest) ← measure maxWidth supply (rest.dropWhile isFlag)
  let base :=
    match width with
    | some n => { base with left := base.left || n < 0, width := n.natAbs }
    | none => base
  if rest.head? == some (↑ '.') then
    let (precision, supply, rest) ← measure maxPrecision supply rest.tail
    pure ({ base with precision := some (precision.getD 0).toNat }, supply, rest)
  else pure (base, supply, rest)

/-- A length letter, which changes nothing, is skipped. -/
def skipLength : Text → Text
  | p :: rest => if p == 'h' || p == 'l' || p == 'L' then rest else p :: rest
  | [] => []

/-- Code points that stand for themselves in a format. -/
def isPlain (p : CodePoint) : Bool := p != '%'

/-- Fill a text that is no longer than the fuel. The pieces in front of it are given last first. A
list may stay unused, any other value not. -/
def fill (h : Heap) (isList : Bool) : Nat → List Text → Supply → Text → Except Fault Text
  | 0, _, _, _ => throw .undefined
  | fuel + 1, before, supply, t => do
    let before := t.takeWhile isPlain :: before
    match t.dropWhile isPlain with
    | [] =>
      if supply.unused && !isList then throw .undefined
      pure before.reverse.flatten
    | _ :: rest =>
      if rest.head? == some (↑ '%') then fill h isList fuel ("%" :: before) supply rest.tail
      else
        let (s, supply, rest) ← spec supply rest
        match skipLength rest with
        | letter :: rest =>
          let some letter := letter.char? | throw .undefined
          let (v, supply) ← supply.take
          let shown ← conversion h s letter v
          fill h isList fuel (shown :: before) supply rest
        | [] => throw .undefined

/-- A text whose conversion, if it has one, is filled with a value. -/
def percent (h : Heap) (format : Text) (v : Value) : Except Fault Text :=
  let isList := match v with | .list _ => true | _ => false
  fill h isList (format.length + 1) [] ⟨v, true⟩ format

end Format

end Stepwise
