import Stepwise.Expr.Basic
import Stepwise.Text.Occurrence
import Stepwise.Value.Compare
import Stepwise.Value.Convert
import Stepwise.Value.Percent

/-!
# Operators

What the operators of the two dialects do with values. Numbers are added, compared and so on by
value; texts and lists can be joined and repeated; comparisons give a truth value in the indented
dialect and zero or one in the braced dialect.
-/

namespace Stepwise

open Number Text

namespace Operator

/-- Positions and counts of a sequence must fit a machine word. -/
def fitsWord (i : Int) : Bool := -0x8000000000000000 ≤ i && i < 0x8000000000000000

/-- The items a number of times in front of others. -/
def repeatOnto {α : Type} (items : List α) : Nat → List α → List α
  | 0, rest => rest
  | times + 1, rest => repeatOnto items times (items ++ rest)

/-- The items, as often as asked. A length beyond a machine word is the given fault. -/
def repeated {α : Type} (overflow : Fault) (items : List α) (times : Int) :
    Except Fault (List α) :=
  let length := items.length * times
  if !fitsWord times then throw .undefined
  else if length ≤ 0 then pure []
  else if !fitsWord length then throw overflow
  else if maxLength < length then throw .outOfMemory
  else pure (repeatOnto items times.toNat [])

/-- A text several times in a row. -/
def repeatText (s : Text) (times : Int) : HeapM Value := do
  pure (.str (← ofExcept (repeated .undefined s times)))

/-- A new list with the items of another several times in a row. -/
def repeatList (cell : Nat) (times : Int) : HeapM Value := do
  HeapM.newList (← ofExcept (repeated .outOfMemory ((← get).items cell) times))

/-- An operation on two numbers. -/
def numeric (op : Scalar → Scalar → Except Fault Scalar) (v w : Value) : HeapM Value := do
  let a ← ofExcept v.num
  let b ← ofExcept w.num
  HeapM.identify (.ofNum (← ofExcept (op a b)))

/-- The sum of numbers, or two texts or lists in a row. -/
def add (v w : Value) : HeapM Value := do
  match v, w with
  | .str s, .str t => pure (.str (s ++ t))
  | .list r, .list s =>
    let h ← get
    HeapM.newList (h.items r ++ h.items s)
  | v, w => numeric Scalar.add v w

/-- The product of numbers, or a text or list several times in a row. -/
def mul (v w : Value) : HeapM Value := do
  match v, w with
  | .str s, w => if let some n := w.int? then repeatText s n else throw .undefined
  | .list r, w => if let some n := w.int? then repeatList r n else throw .undefined
  | v, .str s => if let some n := v.int? then repeatText s n else throw .undefined
  | v, .list r => if let some n := v.int? then repeatList r n else throw .undefined
  | v, w => numeric Scalar.mul v w

/-- Remainder of numbers; a text is a format that is filled. -/
def mod (v w : Value) : HeapM Value := do
  match v with
  | .str s => pure (.str (← ofExcept (Format.percent (← get) s w)))
  | v => numeric Scalar.mod v w

/-- Whether an item is in a list, or a text in a text. -/
def contains (h : Heap) (item container : Value) : Except Fault Bool :=
  match container with
  | .list cell => do pure (← h.position? item 0 (h.items cell)).isSome
  | .str s =>
    match item with
    | .str t => pure (isPartOf t s)
    | _ => throw .undefined
  | _ => throw .undefined

/-- The answer of a comparison operator. -/
def compares (h : Heap) (op : BinaryOp) (v w : Value) : Except Fault Bool := do
  match op with
  | .eq => h.eq v w
  | .ne => pure (!(← h.eq v w))
  | .mem => contains h v w
  | .notMem => pure (!(← contains h v w))
  | op => h.ordered op v w

/-- A truth value as the dialect has it. -/
def truth (dialect : Dialect) (b : Bool) : Value :=
  match dialect with
  | .indented => .bool b
  | .braced => .int (if b then 1 else 0)

/-- Apply an operator that takes two values. -/
def apply (dialect : Dialect) (op : BinaryOp) (v w : Value) : HeapM Value := do
  match op with
  | .add => add v w
  | .sub => numeric Scalar.sub v w
  | .mul => mul v w
  | .div =>
    match dialect with
    | .indented => numeric Scalar.div v w
    | .braced => numeric Scalar.truncDiv v w
  | .mod =>
    match dialect with
    | .indented => mod v w
    | .braced => numeric Scalar.truncMod v w
  | .floorDiv => numeric Scalar.floorDiv v w
  | .pow => numeric Scalar.pow v w
  | op => pure (truth dialect (← ofExcept (compares (← get) op v w)))

/-- Apply an operator that takes one value. -/
def applyUnary (op : UnaryOp) (v : Value) : HeapM Value := do
  match op with
  | .neg => HeapM.identify (.ofNum (← ofExcept v.num).neg)
  | .pos =>
    match v with
    | .nan _ | .complex _ _ _ => pure v
    | v => pure (.ofNum (← ofExcept v.num))
  | .not => pure (.bool (!(← get).isTrue v))
  | .bang => pure (.int (if (← get).isTrue v then 0 else 1))

/-- The position in a sequence that an index means; negative ones count from the end. -/
def position? (length : Nat) (index : Int) : Option Nat :=
  let i := if index < 0 then index + length else index
  if 0 ≤ i && i < length then some i.toNat else none

/-- The item of a list or code point of a text at an index. In the braced dialect indices are not
negative and a code point is its number. -/
def item (dialect : Dialect) (h : Heap) (target index : Value) : Except Fault Value := do
  let some i := index.int? | throw .undefined
  if dialect = .braced ∧ i < 0 then throw .undefined
  match target with
  | .list cell =>
    let items := h.items cell
    let some v := (position? items.length i).bind (items[·]?) | throw .undefined
    pure v
  | .str s =>
    let some p := (position? s.length i).bind (s[·]?) | throw .undefined
    match dialect with
    | .indented => pure (.str [p])
    | .braced => pure (.int p.val)
  | _ => throw .undefined

end Operator

end Stepwise
