import Stepwise.Fault
import Stepwise.Number.Decimal

/-!
# Arithmetic on numbers of three kinds

Integers are exact, floats are binary64, and a fractional power of a negative number is complex. An
operation on two kinds is done in the wider one. What has no value is a fault.
-/

namespace Stepwise.Number

/-- A number of one of the three kinds. -/
inductive Scalar
  | int (n : Int)
  | float (x : Float)
  | complex (re im : Float)

/-- The float nearest to an integer that is not too large. -/
def intToFloat (n : Int) : Except Fault Float :=
  let x := floatOfInt n
  if x.isInf then throw .tooLarge else pure x

namespace Scalar

/-- The float nearest to a number that is not complex. -/
def toFloat : Scalar → Except Fault Float
  | int n => intToFloat n
  | float x => pure x
  | complex _ _ => throw .undefined

/-- Real and imaginary part. -/
def parts : Scalar → Except Fault (Float × Float)
  | int n => do pure (← intToFloat n, 0)
  | float x => pure (x, 0)
  | complex re im => pure (re, im)

/-- An operation given for each kind, on two numbers in the wider of their kinds. -/
def combine (onInts : Int → Int → Except Fault Scalar)
    (onFloats : Float → Float → Except Fault Scalar)
    (onComplex : Float × Float → Float × Float → Except Fault Scalar) :
    Scalar → Scalar → Except Fault Scalar
  | int m, int n => onInts m n
  | complex re im, b => do onComplex (re, im) (← b.parts)
  | a, complex re im => do onComplex (← a.parts) (re, im)
  | a, b => do onFloats (← a.toFloat) (← b.toFloat)

/-- Operations that have no value on complex numbers. -/
def noComplex (_ _ : Float × Float) : Except Fault Scalar := throw .undefined

end Scalar

def complexMul (a b : Float × Float) : Float × Float :=
  (a.1 * b.1 - a.2 * b.2, a.1 * b.2 + a.2 * b.1)

/-- Quotient of complex numbers, scaled by the larger part of the divisor. -/
def complexDiv (a b : Float × Float) : Except Fault (Float × Float) :=
  if b.1.abs ≥ b.2.abs then
    if b.1 == 0 then throw .undefined
    else
      let ratio := b.2 / b.1
      let denom := b.1 + b.2 * ratio
      pure ((a.1 + a.2 * ratio) / denom, (a.2 - a.1 * ratio) / denom)
  else if b.2.abs ≥ b.1.abs then
    let ratio := b.1 / b.2
    let denom := b.1 * ratio + b.2
    pure ((a.1 * ratio + a.2) / denom, (a.2 * ratio - a.1) / denom)
  else pure (notANumber, notANumber)

/-- The length of a vector whose first part is not the smaller one, and whose squares neither
overflow nor vanish: the root of the sum, corrected by the error that is left. -/
def hypotNear (x y : Float) : Float :=
  let h := (x * x + y * y).sqrt
  let (t, u) :=
    if h ≤ 2 * y then
      let d := h - y
      (x * (2 * d - x), (d - 2 * (x - y)) * d)
    else
      let d := h - x
      (2 * d * (x - 2 * y), (4 * d - y) * y + d * d)
  h - (t + u) / (2 * h)

/-- The length of a vector. Very large and very small parts are scaled, and a part that is too small
to matter is only added. -/
def hypot (x y : Float) : Float :=
  if x.isInf || y.isInf then infinity
  else if x.isNaN || y.isNaN then notANumber
  else
    let (x, y) := if x.abs < y.abs then (y.abs, x.abs) else (x.abs, y.abs)
    let unit (e : Int) : Float := Float.scaleB 1 e
    let scale := unit (-600)
    if unit 511 < x then
      if y ≤ x * unit (-54) then x + y else hypotNear (x * scale) (y * scale) / scale
    else if y < unit (-459) then
      if y / unit (-54) ≤ x then x + y else hypotNear (x / scale) (y / scale) * scale
    else if y ≤ x * unit (-54) then x + y
    else hypotNear x y

/-- Powers of a complex number with a natural exponent, by repeated squaring. -/
def complexPowNat (fuel : Nat) (base : Float × Float) (n : Nat) (acc : Float × Float) :
    Float × Float :=
  match fuel with
  | 0 => acc
  | fuel + 1 =>
    if n == 0 then acc
    else
      let acc := if n % 2 == 1 then complexMul acc base else acc
      complexPowNat fuel (complexMul base base) (n / 2) acc

/-- Powers of a complex number by its polar form. An infinite angle has no direction. -/
def complexPowPolar (a b : Float × Float) : Except Fault (Float × Float) :=
  if b.1 == 0 && b.2 == 0 then pure (1, 0)
  else if a.1 == 0 && a.2 == 0 then
    if b.2 != 0 || b.1 < 0 then throw .undefined else pure (0, 0)
  else
    let length := hypot a.1 a.2
    let angle := Float.atan2 a.2 a.1
    let scale := Float.pow length b.1
    let phase := angle * b.1
    let (scale, phase) :=
      if b.2 != 0 then
        (scale / Float.exp (angle * b.2), phase + b.2 * Float.log length)
      else (scale, phase)
    if phase.isInf then throw .undefined
    else pure (scale * Float.cos phase, scale * Float.sin phase)

/-- Power of complex numbers. Small integral exponents are done by multiplication. -/
def complexPow (a b : Float × Float) : Except Fault (Float × Float) := do
  let (re, im) ←
    match Dyadic.ofFloat? b.1 with
    | some e =>
      if b.2 == 0 && e.isInteger && b.1.abs ≤ 100 then
        let n := e.truncate
        let power := complexPowNat 8 a n.natAbs (1, 0)
        if 0 < n then pure power else complexDiv (1, 0) power
      else complexPowPolar a b
    | none => complexPowPolar a b
  if re.isInf || im.isInf then throw .tooLarge
  pure (re, im)

/-- Powers of floats, complex for a fractional power of a negative number. -/
def floatPow (x y : Float) : Except Fault Scalar :=
  let odd := (Dyadic.ofFloat? y).any (·.isOddInteger)
  if y == 0 then pure (.float 1)
  else if x.isNaN then pure (.float x)
  else if y.isNaN then pure (.float (if x == 1 then 1 else y))
  else if y.isInf then
    let size := x.abs
    if size == 1 then pure (.float 1)
    else if (y > 0) == (size > 1) then pure (.float infinity)
    else pure (.float 0)
  else if x.isInf then
    if y > 0 then pure (.float (if odd then x else x.abs))
    else pure (.float (if odd then copySign 0 x else 0))
  else if x == 0 then
    if y < 0 then throw .undefined else pure (.float (if odd then x else 0))
  else if x < 0 && !(Dyadic.ofFloat? y).any (·.isInteger) then do
    let (re, im) ← complexPow (x, 0) (y, 0)
    pure (.complex re im)
  else
    let negate := x < 0 && odd
    let size := x.abs
    if size == 1 then pure (.float (if negate then -1 else 1))
    else
      let r := Float.pow size y
      if r.isInf then throw .tooLarge else pure (.float (if negate then -r else r))

/-- Quotient rounded down and the remainder with the sign of the divisor, for a divisor that is not
zero. -/
def floatDivMod (x y : Float) : Float × Float :=
  let r := remainder x y
  let quotient := (x - r) / y
  let (quotient, r) :=
    if r != 0 then if (y < 0) != (r < 0) then (quotient - 1, r + y) else (quotient, r)
    else (quotient, copySign 0 y)
  let whole :=
    if quotient != 0 then
      let below := floor quotient
      if quotient - below > 0.5 then below + 1 else below
    else copySign 0 (x / y)
  (whole, r)

namespace Scalar

def ofParts (z : Float × Float) : Scalar := complex z.1 z.2

/-- The sum, of the wider kind of the two. -/
def add : Scalar → Scalar → Except Fault Scalar :=
  combine (fun m n => pure (int (m + n))) (fun x y => pure (float (x + y)))
    fun a b => pure (complex (a.1 + b.1) (a.2 + b.2))

/-- The difference, of the wider kind of the two. -/
def sub : Scalar → Scalar → Except Fault Scalar :=
  combine (fun m n => pure (int (m - n))) (fun x y => pure (float (x - y)))
    fun a b => pure (complex (a.1 - b.1) (a.2 - b.2))

/-- The product, of the wider kind of the two. -/
def mul : Scalar → Scalar → Except Fault Scalar :=
  combine (fun m n => pure (int (m * n))) (fun x y => pure (float (x * y)))
    fun a b => pure (ofParts (complexMul a b))

/-- The exact quotient of two integers, rounded once to a float. -/
def ratio (m n : Int) : Except Fault Scalar :=
  if n == 0 then throw .undefined
  else
    let x := nearestFloat ((m < 0) != (n < 0)) m.natAbs n.natAbs
    if x.isInf then throw .tooLarge else pure (float x)

/-- The quotient, which is never an integer. -/
def div : Scalar → Scalar → Except Fault Scalar :=
  combine ratio (fun x y => if y == 0 then throw .undefined else pure (float (x / y)))
    fun a b => do pure (ofParts (← complexDiv a b))

/-- The quotient rounded down. -/
def floorDiv : Scalar → Scalar → Except Fault Scalar :=
  combine (fun m n => if n == 0 then throw .undefined else pure (int (m.fdiv n)))
    (fun x y => if y == 0 then throw .undefined else pure (float (floatDivMod x y).1)) noComplex

/-- The remainder that goes with the quotient rounded down. -/
def mod : Scalar → Scalar → Except Fault Scalar :=
  combine (fun m n => if n == 0 then throw .undefined else pure (int (m.fmod n)))
    (fun x y => if y == 0 then throw .undefined else pure (float (floatDivMod x y).2)) noComplex

/-- Powers of natural numbers. Those of zero and one need no multiplication, however large the
exponent is. -/
def natPow (m n : Nat) : Except Fault Nat :=
  if m ≤ 1 then pure (if n == 0 then 1 else m)
  else if 64 * maxLength < n * m.log2 then throw .outOfMemory
  else pure (Nat.pow m n)

/-- Powers of integers. Those with a negative exponent are floats. -/
def intPow (m n : Int) : Except Fault Scalar := do
  if 0 ≤ n then
    let size ← natPow m.natAbs n.toNat
    pure (int (if m < 0 && n.toNat % 2 == 1 then -size else size))
  else floatPow (← intToFloat m) (← intToFloat n)

/-- The power, of the wider kind of the two. -/
def pow : Scalar → Scalar → Except Fault Scalar :=
  combine intPow floatPow fun a b => do pure (ofParts (← complexPow a b))

/-- The quotient of two integers toward zero: the quotient of their sizes, with a minus sign if one
of them is negative and the other is not. -/
def truncQuotient (m n : Int) : Except Fault Int :=
  if n == 0 then throw .undefined
  else
    let quotient := m.natAbs / n.natAbs
    pure (if (m < 0) == (n < 0) then quotient else -quotient)

/-- Division of the braced dialect: of integers, toward zero. -/
def truncDiv : Scalar → Scalar → Except Fault Scalar
  | int m, int n => do pure (int (← truncQuotient m n))
  | a, b => div a b

/-- Remainder of the braced dialect: of integers, what the quotient leaves of the dividend. -/
def truncMod : Scalar → Scalar → Except Fault Scalar
  | int m, int n => do pure (int (m - n * (← truncQuotient m n)))
  | a, b => do
    let x ← a.toFloat
    let y ← b.toFloat
    let r := remainder x y
    if r.isNaN && !x.isNaN && !y.isNaN then throw .undefined else pure (float r)

def neg : Scalar → Scalar
  | int n => int (-n)
  | float x => float (-x)
  | complex re im => complex (-re) (-im)

/-- The size of a number. -/
def abs : Scalar → Except Fault Scalar
  | int n => pure (int n.natAbs)
  | float x => pure (float x.abs)
  | complex re im =>
    let r := hypot re im
    if r.isInf && !re.isInf && !im.isInf then throw .tooLarge else pure (float r)

/-- How an integer compares with a float; nothing compares with a NaN. -/
def compareIntFloat (n : Int) (x : Float) : Option Ordering :=
  match Dyadic.ofFloat? x with
  | some d => some (d.compareInt n)
  | none => if x.isNaN then none else some (if x > 0 then .lt else .gt)

/-- How two numbers compare exactly; nothing if one is a NaN or complex. -/
def compare? : Scalar → Scalar → Option Ordering
  | int m, int n => some (compare m n)
  | int n, float x => compareIntFloat n x
  | float x, int n => (compareIntFloat n x).map Ordering.swap
  | float x, float y =>
    if x < y then some .lt else if x == y then some .eq else if y < x then some .gt else none
  | _, _ => none

/-- The number is complex, even if its imaginary part is zero. -/
def isComplex : Scalar → Bool
  | complex _ _ => true
  | _ => false

/-- Equality of values, whatever their kinds. -/
def eq : Scalar → Scalar → Bool
  | complex re im, complex re' im' => re == re' && im == im'
  | complex re im, b => im == 0 && compare? (float re) b == some .eq
  | a, complex re im => im == 0 && compare? a (float re) == some .eq
  | a, b => compare? a b == some .eq

/-- The nearest multiple of `10^places`, a tie to the even one. -/
def roundInt (n : Int) (places : Nat) : Int :=
  if n.natAbs.log2 + 2 < places then 0
  else
    let unit := Nat.pow 10 places
    let size := roundDiv n.natAbs unit * unit
    if n < 0 then -size else size

/-- The float nearest to `x` rounded to `places` decimals. -/
def roundFloat (x : Float) (places : Int) : Except Fault Float :=
  match Dyadic.ofFloat? x with
  | none => pure x
  | some d =>
    if 323 < places then pure x
    else if places < -308 then pure (copySign 0 x)
    else
      let n := roundPlaces d places
      let r := nearestFloat d.neg (n * Nat.pow 10 (-places).toNat) (Nat.pow 10 places.toNat)
      if r.isInf then throw .tooLarge else pure r

/-- The integer next to zero. -/
def truncate : Scalar → Except Fault Int
  | int n => pure n
  | float x =>
    match Dyadic.ofFloat? x with
    | some d => pure d.truncate
    | none => throw .undefined
  | complex _ _ => throw .undefined

end Scalar

/-- Text of a complex number: the imaginary part alone if the real part is zero, else both in
parentheses. -/
def complexText (re im : Float) : String :=
  if re == 0 && !signBit re then String.ofList (shortestText false im) ++ "j"
  else
    let sign := if im.isNaN || !signBit im then "+" else ""
    let text (x : Float) : String := String.ofList (shortestText false x)
    "(" ++ text re ++ sign ++ text im ++ "j)"

end Stepwise.Number
