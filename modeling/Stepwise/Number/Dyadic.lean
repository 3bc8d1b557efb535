/-!
# Floats as exact numbers

A finite float is `± m · 2^q`. Whatever must be exact (comparison with integers, remainders,
rounding, decimal digits) is computed on `m` and `q` and rounded once.
-/

namespace Stepwise.Number

/-- The quotient rounded to the nearest integer, a tie to the even neighbour. -/
def roundDiv (num den : Nat) : Nat :=
  let q := num / den
  let r := num % den
  if 2 * r < den then q
  else if den < 2 * r then q + 1
  else if q % 2 == 0 then q else q + 1

/-- The number `± m · 2^q`. -/
structure Dyadic where
  neg : Bool
  m : Nat
  q : Int

namespace Dyadic

/-- The value of a finite float. -/
def ofFloat? (x : Float) : Option Dyadic :=
  let bits := x.toBits.toNat
  let neg := bits >>> 63 == 1
  let e : Nat := (bits >>> 52) % 2048
  let f : Nat := bits % (1 <<< 52)
  if e == 2047 then none
  else if e == 0 then some ⟨neg, f, -1074⟩
  else some ⟨neg, (1 <<< 52) + f, (e : Int) - 1075⟩

/-- Numerator of the absolute value as a fraction. -/
def num (d : Dyadic) : Nat := d.m <<< d.q.toNat

/-- Denominator of the absolute value as a fraction. -/
def den (d : Dyadic) : Nat := 1 <<< (-d.q).toNat

/-- A size with the sign of the number. -/
def withSign (d : Dyadic) (n : Nat) : Int :=
  if d.neg then -n else n

/-- The integer next to zero. -/
def truncate (d : Dyadic) : Int :=
  d.withSign (d.num / d.den)

/-- The nearest integer, a tie to the even one. -/
def round (d : Dyadic) : Int :=
  d.withSign (roundDiv d.num d.den)

/-- The number has no fraction. -/
def isInteger (d : Dyadic) : Bool :=
  d.num % d.den == 0

/-- The number is an odd integer. -/
def isOddInteger (d : Dyadic) : Bool :=
  d.isInteger && d.num / d.den % 2 == 1

/-- How an integer compares with the number. -/
def compareInt (n : Int) (d : Dyadic) : Ordering :=
  compare (n * d.den) (d.withSign d.num)

end Dyadic

/-- The exponent `q` at which `num / den` has a 53 bit integer part, at least -1074. -/
def targetExponent (num den : Nat) : Int :=
  let estimate : Int := (num.log2 : Int) - den.log2 - 53
  let fits (q : Int) : Bool := num <<< (-q).toNat < den <<< (53 + q.toNat)
  let q :=
    if fits estimate then estimate
    else if fits (estimate + 1) then estimate + 1
    else estimate + 2
  max q (-1074)

/-- The float nearest to `± num / den`, a tie to the even one, infinite beyond the range. -/
def nearestFloat (neg : Bool) (num den : Nat) : Float :=
  let q := targetExponent num den
  let m := roundDiv (num <<< (-q).toNat) (den <<< q.toNat)
  let magnitude := if num == 0 then 0 else min (((q + 1074).toNat <<< 52) + m) (2047 <<< 52)
  Float.ofBits (UInt64.ofNat ((if neg then 1 <<< 63 else 0) + magnitude))

/-- The float nearest to the number. -/
def Dyadic.toFloat (d : Dyadic) : Float :=
  nearestFloat d.neg d.num d.den

/-- The float nearest to an integer. -/
def floatOfInt (n : Int) : Float :=
  nearestFloat (n < 0) n.natAbs 1

/-- The sign bit, which negative zero has too. -/
def signBit (x : Float) : Bool :=
  x.toBits.toNat >>> 63 == 1

/-- The size of one float with the sign of another. -/
def copySign (magnitude sign : Float) : Float :=
  let bits := magnitude.toBits.toNat % (1 <<< 63)
  Float.ofBits (UInt64.ofNat ((if signBit sign then 1 <<< 63 else 0) + bits))

def infinity : Float := Float.ofBits 0x7FF0000000000000

def notANumber : Float := Float.ofBits 0x7FF8000000000000

/-- The remainder of the truncated division, with the sign of the dividend. -/
def remainder (x y : Float) : Float :=
  match Dyadic.ofFloat? x, Dyadic.ofFloat? y with
  | some a, some b =>
    if b.m == 0 then notANumber
    else
      let q := min a.q b.q
      let r := (a.m <<< (a.q - q).toNat) % (b.m <<< (b.q - q).toNat)
      (Dyadic.mk a.neg r q).toFloat
  | some _, none => if y.isNaN then notANumber else x
  | none, _ => notANumber

/-- The greatest integral float that is not above. -/
def floor (x : Float) : Float :=
  match Dyadic.ofFloat? x with
  | some d =>
    if d.isInteger then x
    else
      let n := d.num / d.den
      if d.neg then nearestFloat true (n + 1) 1 else nearestFloat false n 1
  | none => x

end Stepwise.Number
