/-!
# Tables

Finite maps from names that remember the order in which the names arrived. A name that is written
again keeps its place.
-/

namespace Stepwise

/-- Entries by name, in the order in which the names were first put in. -/
structure Table (α : Type) where
  entries : List (String × α)
deriving Inhabited

namespace Table

variable {α : Type}

def empty : Table α := ⟨[]⟩

def get? (t : Table α) (name : String) : Option α :=
  t.entries.lookup name

/-- The entries after a name is written. -/
def putIn (name : String) (value : α) : List (String × α) → List (String × α)
  | [] => [(name, value)]
  | (n, v) :: rest => if n == name then (n, value) :: rest else (n, v) :: putIn name value rest

/-- Write a name: in place if it is there, at the end if it is new. -/
def put (t : Table α) (name : String) (value : α) : Table α :=
  ⟨putIn name value t.entries⟩

/-- The table that results from writing the entries one after the other. -/
def ofList (entries : List (String × α)) : Table α :=
  entries.foldl (fun t e => t.put e.1 e.2) empty

end Table

end Stepwise
