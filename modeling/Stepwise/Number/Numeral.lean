import Stepwise.Fault
import Stepwise.Number.Dyadic
import Stepwise.Text.Blank
import Stepwise.Text.Digit

/-!
# Numerals

Reading integers and floats from text. Blanks around the numeral are skipped, an underscore may
stand between two digits, and the digits of every script count.
-/

namespace Stepwise.Number

open Text

/-- Blanks that may surround a numeral: all but the four information separators. -/
def isMargin (c : Char) : Bool :=
  isBlank c && !(0x1C ≤ c.toNat && c.toNat ≤ 0x1F)

/-- The text without the margins at its two ends. -/
def trimMargin (text : List Char) : List Char :=
  ((text.dropWhile isMargin).reverse.dropWhile isMargin).reverse

/-- The text with every decimal digit replaced by the ASCII digit of its value. -/
def plainDigits (text : List Char) : List Char :=
  text.map fun c =>
    match digitValue? c with
    | some v => Nat.digitChar v
    | none => c

/-- The text without its underscores, if each stands between two digits. -/
def dropUnderscores (before : Char) : List Char → Option (List Char)
  | [] => some []
  | '_' :: c :: rest =>
    if before.isDigit && c.isDigit then (dropUnderscores c rest).map (c :: ·) else none
  | ['_'] => none
  | c :: rest => (dropUnderscores c rest).map (c :: ·)

/-- A sign, if there is one, and the rest. -/
def takeSign : List Char → Bool × List Char
  | '-' :: rest => (true, rest)
  | '+' :: rest => (false, rest)
  | text => (false, text)

/-- The value of decimal digits. -/
def digitsValue (digits : List Char) : Nat :=
  digits.foldl (fun n c => 10 * n + (c.toNat - 48)) 0

/-- The value of ASCII digits, if it is not above the limit. -/
def digitsValueUpTo (limit : Nat) (digits : List Char) : Option Nat :=
  digits.foldlM
    (fun n c =>
      let n := 10 * n + (c.toNat - 48)
      if n ≤ limit then some n else none)
    0

/-- The characters of a numeral: ASCII digits, no margin, no underscores. -/
def normalize (text : List Char) : Option (List Char) :=
  dropUnderscores ' ' (plainDigits (trimMargin text))

/-- The integer that a text denotes. -/
def readInt (text : List Char) : Except Fault Int :=
  match normalize text with
  | none => throw .undefined
  | some text =>
    let (neg, digits) := takeSign text
    if digits.isEmpty || !digits.all Char.isDigit then throw .undefined
    else if maxDigits < digits.length then throw .tooManyDigits
    else
      let n := digitsValue digits
      pure (if neg then -n else n)

/-- More significant digits than are needed to tell between which floats a decimal lies. -/
def enoughDigits : Nat := 800

/-- Digits that stand for the same float in front of `10^e`: of those behind the first ones it only
matters whether they are all zero. -/
def shortenDigits (digits : List Char) (e : Int) : List Char × Int :=
  let tail := digits.drop enoughDigits
  if tail.all (· == '0') then (digits.take enoughDigits, e + tail.length)
  else (digits.take enoughDigits ++ ['1'], e + tail.length - 1)

/-- The float nearest to `± n · 10^e`. Exponents far out of range are not expanded. -/
def decimalFloat (neg : Bool) (digits : List Char) (e : Int) : Float :=
  let digits := digits.dropWhile (· == '0')
  let leading := digits.length + e
  if digits.isEmpty || leading < -400 then nearestFloat neg 0 1
  else if 400 < leading then nearestFloat neg (Nat.pow 10 400) 1
  else
    let (digits, e) := shortenDigits digits e
    nearestFloat neg (digitsValue digits * Nat.pow 10 e.toNat) (Nat.pow 10 (-e).toNat)

/-- Larger exponents are taken for this one, which is out of range behind any text of digits that
can be held. -/
def maxExponent : Nat := 1000000000

/-- The exponent part of a float numeral, zero when there is none. -/
def readExponent : List Char → Option Int
  | [] => some 0
  | c :: rest =>
    if c == 'e' || c == 'E' then
      let (neg, digits) := takeSign rest
      if digits.isEmpty || !digits.all Char.isDigit then none
      else
        let size := (digitsValueUpTo maxExponent digits).getD maxExponent
        some (if neg then -size else size)
    else none

/-- Digits with at most one point and an exponent. -/
def readDecimal (neg : Bool) (text : List Char) : Option Float :=
  let whole := text.takeWhile Char.isDigit
  let rest := text.dropWhile Char.isDigit
  let (fraction, rest) :=
    match rest with
    | '.' :: tail => (tail.takeWhile Char.isDigit, tail.dropWhile Char.isDigit)
    | _ => ([], rest)
  if whole.isEmpty && fraction.isEmpty then none
  else (readExponent rest).map fun e => decimalFloat neg (whole ++ fraction) (e - fraction.length)

/-- The float that a text denotes. -/
def readFloat? (text : List Char) : Option Float :=
  (normalize text).bind fun text =>
    let (neg, body) := takeSign text
    let name := String.ofList (body.map Char.toLower)
    if name == "inf" || name == "infinity" then some (nearestFloat neg (Nat.pow 10 400) 1)
    else if name == "nan" then some notANumber
    else readDecimal neg body

end Stepwise.Number
