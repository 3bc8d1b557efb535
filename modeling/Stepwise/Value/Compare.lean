import Stepwise.Expr.Basic
import Stepwise.Value.Heap

/-!
# Comparing values

Numbers are equal by value, whatever their kind; lists are equal item by item, where an item is
taken for equal to itself without a look. Numbers, texts and lists are ordered among their own kind
only. Two lists that contain each other have no end to their comparison.
-/

namespace Stepwise

open Number

namespace Heap

/-- Equality item by item, given the equality of items that are not the same object. -/
def equalItems (eq : Value → Value → Except Fault Bool) :
    List Value → List Value → Except Fault Bool
  | v :: vs, w :: ws => do
    if v.isSame w then equalItems eq vs ws
    else if ← eq v w then equalItems eq vs ws
    else pure false
  | _, _ => pure true

/-- Equality of values whose lists nest no deeper than the fuel. -/
def equal (h : Heap) : Nat → Value → Value → Except Fault Bool
  | _, .none, .none => pure true
  | _, .unknown, .unknown => pure true
  | _, .str s, .str t => pure (s == t)
  | 0, .list _, .list _ => throw .bottomless
  | fuel + 1, .list r, .list s =>
    if (h.items r).length == (h.items s).length then
      equalItems (equal h fuel) (h.items r) (h.items s)
    else pure false
  | _, v, w =>
    match v.num?, w.num? with
    | some a, some b => pure (a.eq b)
    | _, _ => pure false

/-- More levels than a comparison of two lists that ends can go down. -/
def compareFuel (h : Heap) : Nat := h.cells.size * h.cells.size + 1

/-- Are two values equal? Lists are compared by their items. -/
def eq (h : Heap) (v w : Value) : Except Fault Bool :=
  equal h h.compareFuel v w

/-- Equality as a list applies it to its items. -/
def eqItem (h : Heap) (v w : Value) : Except Fault Bool :=
  if v.isSame w then pure true else h.eq v w

/-- The first items at which two lists differ, or how their lengths compare. -/
def firstDifference (h : Heap) : List Value → List Value → Except Fault (Value × Value ⊕ Ordering)
  | v :: vs, w :: ws => do
    if ← h.eqItem v w then firstDifference h vs ws else pure (.inl (v, w))
  | [], [] => pure (.inr .eq)
  | [], _ :: _ => pure (.inr .lt)
  | _ :: _, [] => pure (.inr .gt)

/-- Whether an ordering operator accepts an order. -/
def accepts (op : BinaryOp) (o : Ordering) : Bool :=
  match op with
  | .lt => o == .lt
  | .le => o != .gt
  | .gt => o == .gt
  | .ge => o != .lt
  | _ => false

/-- Order of values whose lists nest no deeper than the fuel. -/
def orderedWith (h : Heap) (op : BinaryOp) : Nat → Value → Value → Except Fault Bool
  | fuel, .list r, .list s =>
    match fuel with
    | 0 => throw .bottomless
    | fuel + 1 => do
      match ← h.firstDifference (h.items r) (h.items s) with
      | .inl (v, w) => orderedWith h op fuel v w
      | .inr o => pure (accepts op o)
  | _, .str s, .str t => pure (accepts op (s.order t))
  | _, v, w =>
    match v.num?, w.num? with
    | some a, some b =>
      if a.isComplex || b.isComplex then throw .undefined
      else pure ((a.compare? b).any (accepts op))
    | _, _ => throw .undefined

/-- Whether the first value is below, above, … the second. -/
def ordered (h : Heap) (op : BinaryOp) (v w : Value) : Except Fault Bool :=
  h.orderedWith op h.compareFuel v w

/-- The first position of an item from `position` on. -/
def position? (h : Heap) (item : Value) (position : Nat) : List Value → Except Fault (Option Nat)
  | [] => pure none
  | v :: rest => do
    if ← h.eqItem v item then pure (some position) else h.position? item (position + 1) rest

/-- How many items of a list are equal to a value. -/
def countItem (h : Heap) (item : Value) : List Value → Except Fault Nat
  | [] => pure 0
  | v :: rest => do
    let here ← h.eqItem v item
    let more ← h.countItem item rest
    pure (if here then more + 1 else more)

end Heap

end Stepwise
