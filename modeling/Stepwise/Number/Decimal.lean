import Stepwise.Number.Dyadic

/-!
# Decimal text of floats

Which digits and how they are laid out are two questions. `shortest` selects the fewest digits that
read back to the float; `fixed`, `scientific` and `general` round the exact value to a given number
of digits, a tie to the even digit.
-/

namespace Stepwise.Number

/-- The number `digits · 10^exp`. -/
structure Decimal where
  digits : Nat
  exp : Int

/-- Numerator of `d · 10^places` as a fraction. -/
def scaledNum (d : Dyadic) (places : Int) : Nat := d.num * Nat.pow 10 places.toNat

/-- Denominator of `d · 10^places` as a fraction. -/
def scaledDen (d : Dyadic) (places : Int) : Nat := d.den * Nat.pow 10 (-places).toNat

/-- The absolute value times `10^places`, rounded to an integer. -/
def roundPlaces (d : Dyadic) (places : Int) : Nat :=
  roundDiv (scaledNum d places) (scaledDen d places)

/-- The exponent of the leading decimal digit of a number that is not zero. -/
def leadingExponent (d : Dyadic) : Int :=
  let bits : Int := d.m.log2 + d.q
  let estimate := (bits * 30103).fdiv 100000 - 1
  let below (e : Int) : Bool := scaledNum d (-(e + 1)) < scaledDen d (-(e + 1))
  match [0, 1, 2, 3].find? fun i => below (estimate + i) with
  | some i => estimate + i
  | none => estimate + 4

/-- Whether the decimal lies among the reals that are rounded to `d`: from half way to the neighbour
below up to half way to the neighbour above, the ends included when the last bit is zero. -/
def readsBack (d : Dyadic) (t : Decimal) : Bool :=
  let narrow := d.m == 1 <<< 52 && -1074 < d.q
  let low : Dyadic := ⟨false, if narrow then 4 * d.m - 1 else 4 * d.m - 2, d.q - 2⟩
  let high : Dyadic := ⟨false, 4 * d.m + 2, d.q - 2⟩
  let closed := d.m % 2 == 0
  let side (bound : Dyadic) : Ordering :=
    compare (t.digits * scaledDen bound (-t.exp)) (scaledNum bound (-t.exp))
  (side low == .gt || closed && side low == .eq) && (side high == .lt || closed && side high == .eq)

/-- The decimals with their last digit at `10^exp` that read back, the nearer one first; of two
equally near ones, the even one. -/
def candidate? (d : Dyadic) (exp : Int) : Option Decimal :=
  let num := scaledNum d (-exp)
  let den := scaledDen d (-exp)
  let below : Decimal := ⟨num / den, exp⟩
  let above : Decimal := ⟨num / den + 1, exp⟩
  match readsBack d below, readsBack d above with
  | true, true => some ⟨roundDiv num den, exp⟩
  | true, false => some below
  | false, true => some above
  | false, false => none

/-- Move trailing zeros of the digits into the exponent, at most `fuel` of them. -/
def dropZeros : Nat → Decimal → Decimal
  | 0, t => t
  | fuel + 1, t =>
    if t.digits ≠ 0 ∧ t.digits % 10 = 0 then dropZeros fuel ⟨t.digits / 10, t.exp + 1⟩ else t

/-- The fewest digits that read back to a number that is not zero. Seventeen always do; the exact
value stands in should they not. -/
def shortestDecimal (d : Dyadic) : Decimal :=
  let e := leadingExponent d
  match (List.range 17).findSome? fun (n : Nat) => candidate? d (e - n) with
  | some t => dropZeros 20 t
  | none => dropZeros 800 ⟨scaledNum d 1100, -1100⟩

def digitsOf (n : Nat) : List Char := Nat.toDigits 10 n

def zeros (n : Nat) : List Char := List.replicate n '0'

/-- An exponent with its sign and at least two digits. -/
def exponentText (mark : Char) (e : Int) : List Char :=
  let digits := digitsOf e.natAbs
  mark :: (if e < 0 then '-' else '+') :: (zeros (2 - digits.length) ++ digits)

/-- Digits with a point after the first; a lone digit has a point only if asked. -/
def pointAfterFirst (forcePoint : Bool) : List Char → List Char
  | [] => []
  | [c] => if forcePoint then [c, '.'] else [c]
  | c :: rest => c :: '.' :: rest

/-- Digits with `places` of them behind the point. -/
def pointBefore (forcePoint : Bool) (places : Nat) (digits : List Char) : List Char :=
  let padded := zeros (places + 1 - digits.length) ++ digits
  let whole := padded.take (padded.length - places)
  let fraction := padded.drop (padded.length - places)
  if fraction.isEmpty && !forcePoint then whole else whole ++ '.' :: fraction

/-- A decimal in positional form for leading exponents from -4 to 15 and in exponent form outside;
`pointZero` asks for `.0` behind an integral value in positional form. -/
def layOut (pointZero : Bool) (t : Decimal) : List Char :=
  let digits := digitsOf t.digits
  let e := t.exp + digits.length - 1
  if -4 ≤ e ∧ e < 16 then
    if 0 ≤ t.exp then
      digits ++ zeros t.exp.toNat ++ (if pointZero then ['.', '0'] else [])
    else pointBefore false (-t.exp).toNat digits
  else pointAfterFirst false digits ++ exponentText 'e' e

/-- The sign in front of the digits. -/
def signText (neg : Bool) : List Char := if neg then ['-'] else []

/-- Text of a float that is not finite. -/
def specialText (x : Float) : List Char :=
  if x.isNaN then ['n', 'a', 'n'] else signText (signBit x) ++ ['i', 'n', 'f']

/-- The shortest text that reads back as the float. -/
def shortestText (pointZero : Bool) (x : Float) : List Char :=
  match Dyadic.ofFloat? x with
  | none => specialText x
  | some d =>
    signText d.neg ++
      if d.m == 0 then layOut pointZero ⟨0, 0⟩ else layOut pointZero (shortestDecimal d)

/-- The float by the fewest digits that read back: `1.0`, `1e+16`, `1e-05`, `-0.0`, `nan`, `inf`. -/
def shortest (x : Float) : String :=
  String.ofList (shortestText true x)

/-- No finite float has more places behind the point than this. -/
def exactPlaces : Nat := 1074

/-- The absolute value with a fixed number of places behind the point. Places beyond the exact value
are zeros. -/
def fixed (forcePoint : Bool) (places : Nat) (d : Dyadic) : List Char :=
  let known := min places exactPlaces
  pointBefore forcePoint known (digitsOf (roundPlaces d known)) ++ zeros (places - known)

/-- The digits of the absolute value rounded to `1 + places` digits, without zeros that follow the
exact value, and the leading exponent. -/
def significant (places : Nat) (d : Dyadic) : Nat × Int :=
  if d.m == 0 then (0, 0)
  else
    let e := leadingExponent d
    let known := min places (exactPlaces + e).toNat
    let n := roundPlaces d (known - e)
    if n < Nat.pow 10 (known + 1) then (n, e) else (n / 10, e + 1)

/-- The absolute value in exponent form with the given places behind the point. -/
def scientific (mark : Char) (forcePoint : Bool) (places : Nat) (d : Dyadic) : List Char :=
  let (n, e) := significant places d
  let digits := digitsOf n
  pointAfterFirst forcePoint (digits ++ zeros (places + 1 - digits.length)) ++ exponentText mark e

/-- The digits without the zeros at their end. -/
def dropTrailingZeros (digits : List Char) : List Char :=
  (digits.reverse.dropWhile (· == '0')).reverse

/-- The absolute value with `precision` significant digits, in exponent form when the leading
exponent is below -4 or not below the precision. Trailing zeros are kept only if asked. -/
def general (mark : Char) (keepZeros : Bool) (precision : Nat) (d : Dyadic) : List Char :=
  let p := max precision 1
  let (n, e) := significant (p - 1) d
  let digits := digitsOf n
  let digits := digits ++ zeros (p - digits.length)
  if e < -4 ∨ (p : Int) ≤ e then
    let digits := if keepZeros then digits else digits.take 1 ++ dropTrailingZeros (digits.drop 1)
    pointAfterFirst keepZeros digits ++ exponentText mark e
  else
    let places := (p - 1 - e).toNat
    let text := pointBefore keepZeros places digits
    if keepZeros || places == 0 then text
    else
      let whole := text.takeWhile (· != '.')
      let fraction := dropTrailingZeros (text.drop (whole.length + 1))
      if fraction.isEmpty then whole else whole ++ '.' :: fraction

end Stepwise.Number
