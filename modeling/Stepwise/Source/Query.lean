import Stepwise.Source.Layout

/-!
# Queries by position

A position below zero counts from the end. A search that starts there goes on at the start when it
has passed the end, so it meets the items from that position on and then all items.
-/

namespace Stepwise.Source

/-- The items that a search from a position on meets, if there is such a position. -/
def itemsFrom? {α : Type} (items : List α) (start : Int) : Option (List α) :=
  if 0 ≤ start then some (items.drop start.toNat)
  else if -start ≤ items.length then some (items.drop (items.length + start).toNat ++ items)
  else none

/-- The position of the parenthesis that closes the one at a position, if there is such a position
and the parentheses are balanced. -/
def matchParenFrom? (text : List Char) (start : Int) : Option (Option Int) :=
  (itemsFrom? text start).map fun met =>
    (closingFrom none ' ' 0 0 met).map fun offset => start + offset

namespace Program

/-- The line at a position. -/
def lineAt? (p : Program) (i : Int) : Option Line :=
  (itemsFrom? p.lines i).bind List.head?

/-- The first position from `start` on whose line does not satisfy a condition. -/
def firstNot? (p : Program) (holds : Line → Bool) (start : Int) : Option Int :=
  (itemsFrom? p.lines start).map fun met => start + (met.takeWhile holds).length

/-- The first position from `start` on whose line leaves a block of the required depth. -/
def blockEndFrom? (p : Program) (start requiredDepth : Int) : Option Int :=
  p.firstNot? (fun l => l.blank || requiredDepth ≤ l.depth) start

/-- The first position from `start` on whose line holds code. -/
def nextCodeLineFrom? (p : Program) (start : Int) : Option Int :=
  p.firstNot? (·.blank) start

/-- The depth of the block that the line at a position opens. -/
def bodyDepthAt? (p : Program) (header : Int) : Option Nat := do
  let first ← p.nextCodeLineFrom? (header + 1)
  let opener ← p.lineAt? header
  match p.lineAt? first with
  | some l => if opener.depth < l.depth then l.depth else opener.depth + p.indentUnit
  | none => opener.depth + p.indentUnit

end Program

end Stepwise.Source
