/-!
# Digits of large numbers

The digits of a number in a base, found by halves: the digits of the quotient by a power of the base
and those of the remainder.
-/

namespace Stepwise.Number

/-- The last `2^level` digits of a number, in front of the given ones. -/
def lastDigits (base : Nat) : Nat → Nat → List Char → List Char
  | 0, n, rest => Nat.digitChar (n % base) :: rest
  | level + 1, n, rest =>
    let half := Nat.pow base (1 <<< level)
    lastDigits base level (n / half) (lastDigits base level (n % half) rest)

/-- The digits of a number in a base of at most sixteen. -/
def digitsIn (base n : Nat) : List Char :=
  if n < base then [Nat.digitChar n]
  else
    let atMost := n.log2 / base.log2 + 1
    (lastDigits base (atMost.log2 + 1) n []).dropWhile (· == '0')

end Stepwise.Number
