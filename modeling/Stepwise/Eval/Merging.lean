import Stepwise.Value.Basic

/-!
# Merging sorted runs

Two neighbouring runs are merged item by item. When one of them wins many times in a row, the merge
gallops: it searches for the place where the other one wins again, in steps that double. A merge
goes from the front or from the back, whichever needs to set aside the shorter run. A comparison
that fails ends the merge, and all items are kept.
-/

namespace Stepwise

namespace Sorting

/-- The order of two items. -/
abbrev Less := Value → Value → Except Fault Bool

/-- The first of the positions from `low` to `high` whose item does not belong before, by halving.
The fuel bounds the halvings. -/
def boundary (before : Nat → Except Fault Bool) : Nat → Nat → Nat → Except Fault Nat
  | 0, low, _ => pure low
  | fuel + 1, low, high =>
    if low < high then do
      let middle := low + (high - low) / 2
      if ← before middle then boundary before fuel (middle + 1) high
      else boundary before fuel low middle
    else pure low

/-- Widen a step until it reaches the limit or the item at its end changes sides: the last step and
the first one too far. -/
def stride (goesOn : Nat → Except Fault Bool) (limit : Nat) :
    Nat → Nat → Nat → Except Fault (Nat × Nat)
  | 0, last, step => pure (last, min step limit)
  | fuel + 1, last, step =>
    if step < limit then do
      if ← goesOn step then stride goesOn limit fuel step (2 * step + 1)
      else pure (last, step)
    else pure (last, min step limit)

/-- The first of `n` positions whose item does not belong before, searched for from `hint` on. -/
def gallop (before : Nat → Except Fault Bool) (n hint : Nat) : Except Fault Nat := do
  if ← before hint then
    let (last, step) ← stride (fun step => before (hint + step)) (n - hint) n 0 1
    boundary before n (hint + last + 1) (hint + step)
  else
    let (last, step) ←
      stride (fun step => do pure (!(← before (hint - step)))) (hint + 1) n 0 1
    boundary before n (hint + 1 - step) (hint - last)

/-- What a merge leaves: the items as arranged, how many wins in a row make the next merge gallop,
and the fault that ended it early. -/
structure Merged where
  items : List Value
  minGallop : Nat
  fault : Option Fault := none

/-- A merge under way. A merge from the back has the items of both runs last first. -/
structure Merging where
  fromBack : Bool
  left : List Value
  right : List Value
  leftLength : Nat
  rightLength : Nat
  /-- The items already merged, the newest first. -/
  done : List Value := []
  minGallop : Nat

namespace Merging

/-- All items in place, what is left of one run in front of what is left of the other. -/
def arrange (m : Merging) (first second : List Value) : List Value :=
  if m.fromBack then first.reverse ++ (second.reverse ++ m.done)
  else m.done.reverse ++ (first ++ second)

/-- The merge ended here, with what is left of both runs in its place. -/
def stopped (m : Merging) (fault : Option Fault) : Merged :=
  ⟨m.arrange m.left m.right, m.minGallop, fault⟩

/-- Merge some items of the left run. -/
def takeLeft (m : Merging) (n : Nat) : Merging :=
  { m with
    left := m.left.drop n, leftLength := m.leftLength - n
    done := (m.left.take n).reverse ++ m.done }

/-- Merge some items of the right run. -/
def takeRight (m : Merging) (n : Nat) : Merging :=
  { m with
    right := m.right.drop n, rightLength := m.rightLength - n
    done := (m.right.take n).reverse ++ m.done }

/-- Go on if there is something to compare. Of the run that was set aside the last item belongs
behind all that is left of the other one. -/
def proceed (m : Merging) : Except Merged Merging :=
  if (if m.fromBack then m.rightLength else m.leftLength) = 1 then
    throw ⟨m.arrange m.right m.left, m.minGallop, none⟩
  else if m.leftLength = 0 ∨ m.rightLength = 0 then throw (m.stopped none)
  else pure m

/-- The answer of a comparison, whose failure ends the merge. -/
def ask {α : Type} (m : Merging) (answer : Except Fault α) : Except Merged α :=
  match answer with
  | .ok a => pure a
  | .error fault => throw (m.stopped (some fault))

/-- Take the item that comes next, and tell whether it is from the right run. -/
def takeOne (less : Less) (m : Merging) : Except Merged (Bool × Merging) := do
  match m.left, m.right with
  | v :: _, w :: _ =>
    let fromRight := (← m.ask (less w v)) != m.fromBack
    let m ← (if fromRight then m.takeRight 1 else m.takeLeft 1).proceed
    pure (fromRight, m)
  | _, _ => throw (m.stopped none)

/-- How many items of a run come next, given which items belong before the next item of the other
run. Positions are those in the run itself, whichever end it is taken from. -/
def winning (m : Merging) (before : Value → Except Fault Bool) (run : List Value) (n : Nat) :
    Except Merged Nat := do
  if m.fromBack then
    let i ← m.ask (gallop (fun i => before (run.getD (n - 1 - i) .none)) n (n - 1))
    pure (n - i)
  else m.ask (gallop (fun i => before (run.getD i .none)) n 0)

/-- Take all items of the left run that come next and one of the right run, then all of the right
run and one of the left run. The number is the longer of the two streaks. -/
def gallopOnce (less : Less) (m : Merging) : Except Merged (Nat × Merging) := do
  let some w := m.right.head? | throw (m.stopped none)
  let ofLeft ← m.winning (fun v => do pure (!(← less w v))) m.left m.leftLength
  let m ← (m.takeLeft ofLeft).proceed
  let m ← (m.takeRight 1).proceed
  let some v := m.left.head? | throw (m.stopped none)
  let ofRight ← m.winning (fun w => less w v) m.right m.rightLength
  let m ← (m.takeRight ofRight).proceed
  let m ← (m.takeLeft 1).proceed
  pure (max ofLeft ofRight, m)

/-- How a merge goes on: item by item, with the wins in a row of each run, or galloping. -/
inductive Pace
  | single (leftWins rightWins : Nat)
  | gallop

/-- Galloping ends when no streak is this long. -/
def shortStreak : Nat := 7

/-- Run a merge of fewer items than the fuel. Galloping that goes on makes it easier to gallop
again, and each end of it makes it harder. -/
def run (less : Less) : Nat → Pace → Merging → Merged
  | 0, _, m => m.stopped none
  | fuel + 1, .single leftWins rightWins, m =>
    match m.takeOne less with
    | .error merged => merged
    | .ok (fromRight, m) =>
      let (leftWins, rightWins) := if fromRight then (0, rightWins + 1) else (leftWins + 1, 0)
      if m.minGallop ≤ max leftWins rightWins then
        run less fuel .gallop { m with minGallop := m.minGallop + 1 }
      else run less fuel (.single leftWins rightWins) m
  | fuel + 1, .gallop, m =>
    match gallopOnce less { m with minGallop := max 1 (m.minGallop - 1) } with
    | .error merged => merged
    | .ok (streak, m) =>
      if shortStreak ≤ streak then run less fuel .gallop m
      else run less fuel (.single 0 0) { m with minGallop := m.minGallop + 1 }

/-- Merge two runs of which it is known that the right one begins and the left one ends. -/
def whole (less : Less) (m : Merging) : Merged :=
  match (if m.fromBack then m.takeLeft 1 else m.takeRight 1).proceed with
  | .error merged => merged
  | .ok m => run less (m.leftLength + m.rightLength + 1) (.single 0 0) m

end Merging

/-- The parts of two runs that stay in place and the parts to be merged: the head of the left run,
its rest, the head of the right run, its rest. -/
def overlap (less : Less) (left right : List Value) :
    Except Fault (List Value × List Value × List Value × List Value) := do
  let some w := right.head? | pure (left, [], [], right)
  let start ← gallop (fun i => do pure (!(← less w (left.getD i .none)))) left.length 0
  let some v := (left.drop start).getLast? | pure (left, [], [], right)
  let last := right.length - 1
  let stop ← gallop (fun i => less (right.getD i .none) v) right.length last
  pure (left.take start, left.drop start, right.take stop, right.drop stop)

/-- Merge two neighbouring runs. -/
def merge (less : Less) (minGallop : Nat) (left right : List Value) : Merged :=
  match overlap less left right with
  | .error fault => ⟨left ++ right, minGallop, some fault⟩
  | .ok (head, left, right, tail) =>
    if left.isEmpty || right.isEmpty then ⟨head ++ left ++ right ++ tail, minGallop, none⟩
    else
      let leftLength := left.length
      let rightLength := right.length
      let fromBack := rightLength < leftLength
      let merged := Merging.whole less
        { fromBack, leftLength, rightLength, minGallop
          left := if fromBack then left.reverse else left
          right := if fromBack then right.reverse else right }
      { merged with items := head ++ merged.items ++ tail }

end Sorting

end Stepwise
