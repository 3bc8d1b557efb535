/-!
# Cutting and searching texts

Pieces between separators, and occurrences of one source text in another.
-/

namespace Stepwise.Text

/-- The pieces between the separators; one more piece than there are separators. -/
def splitOn (separator : Char) : List Char → List (List Char)
  | [] => [[]]
  | c :: rest =>
    if c == separator then [] :: splitOn separator rest
    else
      match splitOn separator rest with
      | piece :: pieces => (c :: piece) :: pieces
      | [] => [[c]]

/-- The texts one after the other, with `separator` between them. -/
def joinWith (separator : String) : List String → String
  | [] => ""
  | s :: rest => rest.foldl (fun joined t => joined ++ separator ++ t) s

/-- The position of the first occurrence. -/
def indexOf? (needle : List Char) : List Char → Option Nat
  | [] => if needle.isEmpty then some 0 else none
  | c :: rest =>
    if needle.isPrefixOf (c :: rest) then some 0 else (indexOf? needle rest).map (· + 1)

/-- The position of the last occurrence. -/
def lastIndexOf? (needle : List Char) : List Char → Option Nat
  | [] => if needle.isEmpty then some 0 else none
  | c :: rest =>
    match lastIndexOf? needle rest with
    | some i => some (i + 1)
    | none => if needle.isPrefixOf (c :: rest) then some 0 else none

/-- Whether one text occurs in another. -/
def occursIn (needle text : List Char) : Bool :=
  (indexOf? needle text).isSome

end Stepwise.Text
