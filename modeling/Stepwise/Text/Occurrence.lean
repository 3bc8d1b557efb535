import Stepwise.Text.CodePoint

/-!
# Occurrences of a text

A text is searched for another one, the needle, in one pass. The state of the search is how many
code points of the needle have just been met. When the next one does not fit, the search falls back
to the longest beginning of the needle that ends what has been met, so no code point of the text is
looked at again.
-/

namespace Stepwise.Text

/-- A text to be searched for. -/
structure Needle where
  points : Array CodePoint
  /-- For the beginning up to each position, the length of the longest shorter beginning that it
  ends with. -/
  fallbacks : Array Nat

namespace Needle

/-- How much of the needle has been met after one more code point, when `met` of it had been met
before. The fuel bounds the fallbacks. -/
def advance (needle : Needle) (p : CodePoint) : Nat → Nat → Nat
  | 0, _ => 0
  | fuel + 1, met =>
    if needle.points[met]? == some p then met + 1
    else
      match met with
      | 0 => 0
      | shorter + 1 => advance needle p fuel (needle.fallbacks.getD shorter 0)

/-- How much of the needle has been met after one more code point. -/
def next (needle : Needle) (met : Nat) (p : CodePoint) : Nat := needle.advance p (met + 1) met

/-- The needle with the fallbacks of its positions behind those that are known, of which the last is
`met`. -/
def fillFallbacks (needle : Needle) (met : Nat) : Text → Needle
  | [] => needle
  | p :: rest =>
    let met := needle.next met p
    fillFallbacks { needle with fallbacks := needle.fallbacks.push met } met rest

/-- The needle for a text, with all its fallbacks. -/
def ofText (t : Text) : Needle := fillFallbacks ⟨t.toArray, #[0]⟩ 0 t.tail

def length (needle : Needle) : Nat := needle.points.size

/-- The position of the first occurrence that is complete from `position` on. -/
def searchFrom (needle : Needle) (met position : Nat) : Text → Option Nat
  | [] => none
  | p :: rest =>
    let met := needle.next met p
    if met = needle.length then some (position + 1 - needle.length)
    else searchFrom needle met (position + 1) rest

/-- How many occurrences follow those already counted, none overlapping the one before. -/
def countFrom (needle : Needle) (met counted : Nat) : Text → Nat
  | [] => counted
  | p :: rest =>
    let met := needle.next met p
    if met = needle.length then countFrom needle 0 (counted + 1) rest
    else countFrom needle met counted rest

end Needle

/-- The position of the first occurrence of a text in another. -/
def find? (part whole : Text) : Option Nat :=
  if part.isEmpty then some 0 else (Needle.ofText part).searchFrom 0 0 whole

/-- How often a text occurs in another. The empty text occurs at every position. -/
def occurrences (part whole : Text) : Nat :=
  if part.isEmpty then whole.length + 1 else (Needle.ofText part).countFrom 0 0 whole

/-- Whether a text occurs in another. -/
def isPartOf (part whole : Text) : Bool :=
  (find? part whole).isSome

end Stepwise.Text
