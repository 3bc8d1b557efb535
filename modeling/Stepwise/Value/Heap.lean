import Stepwise.Table
import Stepwise.Value.Basic

/-!
# The heap

The heap holds the contents of the lists. `Heap.view?` unfolds a value into a `Datum`, which exists
unless a list contains itself.
-/

namespace Stepwise

open Number

/-- The lists of a run, by their cells. -/
structure Heap where
  cells : Array (List Value) := #[]
  /-- How many NaNs have been made. -/
  nans : Nat := 0
deriving Inhabited

/-- The variables and their values. -/
abbrev Scope := Table Value

/-- Computations that may change the heap and may fail. A failure keeps the changes made so far. -/
abbrev HeapM (α : Type) := ExceptT Fault (StateM Heap) α

namespace Heap

/-- The contents of a list. -/
def items (h : Heap) (cell : Nat) : List Value := h.cells.getD cell []

/-- A new cell with these contents. -/
def alloc (h : Heap) (items : List Value) : Value × Heap :=
  (.list h.cells.size, { h with cells := h.cells.push items })

/-- Replace the contents of a list. -/
def write (h : Heap) (cell : Nat) (items : List Value) : Heap :=
  { h with cells := h.cells.setIfInBounds cell items }

/-- The truth value of a value. -/
def isTrue (h : Heap) : Value → Bool
  | .none | .unknown => false
  | .bool b => b
  | .int n => n != 0
  | .float x => x != 0
  | .nan _ => true
  | .complex re im _ => re != 0 || im != 0
  | .str s => !s.isEmpty
  | .list cell => !(h.items cell).isEmpty

/-- Unfold a value whose lists nest no deeper than the fuel. -/
def unfold (h : Heap) : Nat → Value → Option Datum
  | _, .none => some .none
  | _, .unknown => some .unknown
  | _, .bool b => some (.bool b)
  | _, .int n => some (.int n)
  | _, .float x => some (.float x)
  | _, .nan _ => some (.float notANumber)
  | _, .complex re im _ => some (.complex re im)
  | _, .str s => some (.str s)
  | 0, .list _ => none
  | fuel + 1, .list cell => ((h.items cell).mapM (unfold h fuel)).map .list

/-- The value with the contents of its lists. Lists that do not contain themselves nest no deeper
than there are cells. -/
def view? (h : Heap) (v : Value) : Option Datum :=
  unfold h (h.cells.size + 1) v

end Heap

mutual

/-- The value as a step shows it: the unknown value is shown as none. -/
def Datum.masked : Datum → Datum
  | .unknown => .none
  | .list items => .list (Datum.maskedAll items)
  | d => d

/-- Several values as steps show them. -/
def Datum.maskedAll : List Datum → List Datum
  | [] => []
  | d :: rest => d.masked :: Datum.maskedAll rest

end

namespace Heap

/-- The value as a step shows it. A list that contains itself cannot be shown. -/
def snapshot (h : Heap) (v : Value) : Except Fault Datum :=
  match h.view? v with
  | some d => pure d.masked
  | none => throw .bottomless

/-- The variables as a step shows them. -/
def snapshotScope (h : Heap) (scope : Scope) : Except Fault (Table Datum) := do
  let entries ← scope.entries.mapM fun (name, v) => do pure (name, ← h.snapshot v)
  pure ⟨entries⟩

end Heap

namespace HeapM

/-- A new list. -/
def newList (items : List Value) : HeapM Value := do
  modifyGet fun h => h.alloc items

/-- An identity that no NaN has yet. -/
def newIdentity : HeapM Nat := do
  let h ← get
  set { h with nans := h.nans + 1 }
  pure h.nans

/-- Give a NaN that was just computed its identity. -/
def identify (v : Value) : HeapM Value := do
  match v with
  | .float x => if x.isNaN then pure (.nan (← newIdentity)) else pure v
  | .complex re im _ =>
    if re.isNaN || im.isNaN then pure (.complex re im (some (← newIdentity))) else pure v
  | _ => pure v

mutual

/-- The value that a datum describes, with fresh lists. -/
def ofDatum : Datum → HeapM Value
  | .none => pure .none
  | .unknown => pure .unknown
  | .bool b => pure (.bool b)
  | .int n => pure (.int n)
  | .float x => identify (.float x)
  | .complex re im => identify (.complex re im none)
  | .str s => pure (.str s)
  | .list items => do newList (← ofData items)

/-- Several values made anew, in their order. -/
def ofData : List Datum → HeapM (List Value)
  | [] => pure []
  | d :: rest => do
    let v ← ofDatum d
    pure (v :: (← ofData rest))

end

end HeapM

end Stepwise
