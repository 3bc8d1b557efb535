import Stepwise.Eval.Merging

/-!
# Sorting

A list is cut into runs that ascend, or that descend and are turned around. A short run is filled up
by inserting the items behind it. The runs are merged in the order of a nearly balanced tree, which
is read off the middles of two neighbouring runs. The sort is stable. A comparison that fails ends
it, and leaves the arrangement reached so far.
-/

namespace Stepwise

namespace Sorting

/-- The length of a run of which `n` items are known, whose neighbours compare as `descending`
says. -/
def runLength (less : Less) (descending : Bool) (n : Nat) :
    Value → List Value → Except Fault Nat
  | _, [] => pure n
  | v, w :: rest => do
    if (← less w v) == descending then runLength less descending (n + 1) w rest else pure n

/-- The length of the run at the front, and whether it descends. -/
def firstRun (less : Less) : List Value → Except Fault (Nat × Bool)
  | v :: w :: rest => do
    let descending ← less w v
    pure (← runLength less descending 2 w rest, descending)
  | items => pure (items.length, false)

/-- Insert the pending items one by one. The result is the arrangement reached, and the fault that
ended it early. -/
def insertAll (less : Less) (sorted : List Value) : List Value → List Value × Option Fault
  | [] => (sorted, none)
  | item :: rest =>
    let before (i : Nat) : Except Fault Bool := do pure (!(← less item (sorted.getD i .none)))
    match boundary before (sorted.length + 1) 0 sorted.length with
    | .ok i => insertAll less (sorted.take i ++ item :: sorted.drop i) rest
    | .error fault => (sorted ++ item :: rest, some fault)

/-- The length up to which a run of a list of `n` items is filled: `n` halved until it is below 64,
and rounded up, so that the number of runs is at most a power of two. -/
def minRun : Nat → Nat → Nat → Nat
  | 0, n, odd => n + odd
  | fuel + 1, n, odd => if n < 64 then n + odd else minRun fuel (n / 2) (max odd (n % 2))

/-- A sorted run and the position of its first item. -/
structure SortedRun where
  start : Nat
  items : List Value
  /-- How deep in the tree of merges it is merged with the run behind it. -/
  depth : Nat := 0

/-- A sort under way. -/
structure Progress where
  /-- The sorted runs, the last first. -/
  runs : List SortedRun := []
  minGallop : Nat := Merging.shortStreak

/-- The depth at which the binary expansions of `a / n` and `b / n` part. -/
def depthOf (n : Nat) : Nat → Nat → Nat → Nat → Nat
  | 0, depth, _, _ => depth
  | fuel + 1, depth, a, b =>
    if n ≤ a then depthOf n fuel (depth + 1) (2 * (a - n)) (2 * (b - n))
    else if n ≤ b then depth + 1
    else depthOf n fuel (depth + 1) (2 * a) (2 * b)

/-- The depth at which a run of a list of `n` items is merged with the run behind it, of the given
length. -/
def SortedRun.depthBefore (run : SortedRun) (n length : Nat) : Nat :=
  let middle := 2 * run.start + run.items.length
  depthOf n n 0 middle (middle + run.items.length + length)

namespace Progress

/-- The items of all runs, in the order of the runs. -/
def arranged (p : Progress) : List Value :=
  p.runs.reverse.flatMap SortedRun.items

/-- Merge two neighbouring runs, which stand between the given ones. -/
def mergeTwo (less : Less) (p : Progress) (after : List SortedRun) (left right : SortedRun)
    (before : List SortedRun) : Progress × Option Fault :=
  let merged := merge less p.minGallop left.items right.items
  (⟨after ++ { left with items := merged.items } :: before, merged.minGallop⟩, merged.fault)

/-- Merge the last runs that lie deeper in the tree than `depth`. The fuel bounds their number. -/
def mergeDeeper (less : Less) (depth : Nat) : Nat → Progress → Progress × Option Fault
  | 0, p => (p, none)
  | fuel + 1, p =>
    match p.runs with
    | right :: left :: more =>
      if depth < left.depth then
        match p.mergeTwo less [] left right more with
        | (p, none) => mergeDeeper less depth fuel p
        | failed => failed
      else (p, none)
    | _ => (p, none)

/-- Merge all runs, the shorter of two neighbours first. The fuel bounds their number. -/
def mergeAll (less : Less) : Nat → Progress → Progress × Option Fault
  | 0, p => (p, none)
  | fuel + 1, p =>
    let step := match p.runs with
      | last :: right :: left :: more =>
        if left.items.length < last.items.length then
          some (p.mergeTwo less [last] left right more)
        else some (p.mergeTwo less [] right last (left :: more))
      | [right, left] => some (p.mergeTwo less [] left right [])
      | _ => none
    match step with
    | some (p, none) => mergeAll less fuel p
    | some failed => failed
    | none => (p, none)

/-- Make place for a run of the given length in a list of `n` items. -/
def prepare (less : Less) (n length : Nat) (p : Progress) : Progress × Option Fault :=
  match p.runs with
  | [] => (p, none)
  | last :: _ =>
    let depth := last.depthBefore n length
    let (p, fault) := p.mergeDeeper less depth p.runs.length
    match p.runs with
    | last :: more => ({ p with runs := { last with depth } :: more }, fault)
    | [] => (p, fault)

end Progress

/-- The sorted run at the front, filled up to `shortest` items, and the items behind it. -/
def nextRun (less : Less) (shortest : Nat) (items : List Value) :
    List Value × List Value × Option Fault :=
  match firstRun less items with
  | .error fault => (items, [], some fault)
  | .ok (n, descending) =>
    let run := if descending then (items.take n).reverse else items.take n
    let (run, fault) := insertAll less run ((items.drop n).take (shortest - n))
    (run, items.drop (max n shortest), fault)

/-- Sort the items behind the runs of a list of `n` items. The fuel bounds the number of runs. -/
def sortFrom (less : Less) (n shortest : Nat) :
    Nat → Nat → Progress → List Value → List Value × Option Fault
  | 0, _, p, rest => (p.arranged ++ rest, none)
  | _ + 1, _, p, [] =>
    let (p, fault) := p.mergeAll less p.runs.length
    (p.arranged, fault)
  | fuel + 1, start, p, items =>
    match nextRun less shortest items with
    | (run, rest, some fault) => (p.arranged ++ run ++ rest, some fault)
    | (run, rest, none) =>
      match p.prepare less n run.length with
      | (p, some fault) => (p.arranged ++ run ++ rest, some fault)
      | (p, none) =>
        sortFrom less n shortest fuel (start + run.length)
          { p with runs := ⟨start, run, 0⟩ :: p.runs } rest

/-- The items in ascending order, or the arrangement reached when a comparison failed. -/
def sort (less : Less) (items : List Value) : List Value × Option Fault :=
  let n := items.length
  sortFrom less n (minRun n n 0) (n + 1) 0 {} items

end Sorting

end Stepwise
