import Stepwise.Proofs.Outcome

/-!
# Targets of assignments

An assignment to an element can find it once: evaluate the container and the index, read the element
if its value matters, and write it. That is what the statements below do that are named for it; once
a target is located there is no expression left to evaluate (`Place`). A plain assignment of the
indented dialect does just that, whatever the target. All other assignments evaluate the target to
read it, and evaluate its parts again to write it. That comes to the same if the parts are fixed:
nothing is called in them, no list is made, and they have a value (`assignments_locate_once`).
Otherwise calls are made twice and the element that is written may be another one
(`assignment_moves_on`).
-/

namespace Stepwise

open Run Source Text

variable {α β : Type}

/-! ### Finding an element once -/

/-- What a target denotes when its parts have been evaluated. -/
inductive Place
  | named (name : String)
  /-- An element of a container, and the variable that the container was taken from, if any. -/
  | element (base index : Value) (holder : Option String)
  | nowhere

namespace Place

/-- The value at a place. An element that is not there is unknown. -/
def read (dialect : Dialect) (absent : Value) (scope : Scope) : Place → Run Value
  | named name => pure ((scope.get? name).getD absent)
  | element base index _ => Run.recover (Run.fromHeap (Operator.item dialect · base index))
  | nowhere => pure .unknown

/-- Write a code point of the text in a variable. -/
def writePoint (name : String) (s : Text) (i : Int) (v : Value) (scope : Scope) : Bool × Scope :=
  ((Host.replacePoint? s i v).map fun t => (true, scope.put name (.str t))).getD (false, scope)

/-- Write a value to the element at an index of a container. -/
def writeAt (dialect : Dialect) (base : Value) (holder : Option String) (v : Value) (scope : Scope)
    (i : Int) : Run (Bool × Scope) :=
  if dialect = .braced ∧ i < 0 then pure (false, scope)
  else
    match base, holder with
    | .list cell, _ => do pure (← Host.storeItem cell i v, scope)
    | .str s, some name =>
      pure (if dialect = .braced then writePoint name s i v scope else (false, scope))
    | _, _ => pure (false, scope)

/-- Write a value to a place. The answer tells whether anything was written. -/
def write (dialect : Dialect) (v : Value) (scope : Scope) : Place → Run (Bool × Scope)
  | named name => pure (true, scope.put name v)
  | element base index holder =>
    index.int?.elim (pure (false, scope)) (writeAt dialect base holder v scope)
  | nowhere => pure (false, scope)

end Place

/-- The variable that an expression is. -/
def Expr.name? : Expr → Option String
  | .var name => some name
  | _ => none

namespace Host

/-- Evaluate the parts of a target. -/
def locate (host : Host) (scope : Scope) : Expr → Run Place
  | .var name => pure (.named name)
  | .index container position => do
    let base ← host.evaluate scope container
    let index ← host.evaluate scope position
    pure (.element base index container.name?)
  | _ => pure .nowhere

/-- Writing to a target locates it once. -/
theorem store_eq (host : Host) (target : Expr) (v : Value) (scope : Scope) :
    host.store target v scope =
      host.locate scope target >>= fun place => place.write host.dialect v scope := by
  cases target with
  | index container position =>
    unfold store locate
    simp only [bind_assoc, pure_bind]
    refine bind_congr fun base => bind_congr fun index => ?_
    rw [Place.write]
    cases index.int? with
    | none => rfl
    | some i =>
      rw [Option.elim_some]
      refine ite_congr rfl (fun _ => rfl) fun _ => ?_
      cases base with
      | str s =>
        cases container with
        | var name =>
          dsimp only [Expr.name?, Place.writePoint]
          cases host.dialect <;> cases replacePoint? s i v <;> rfl
        | _ => rfl
      | _ => rfl
  | _ => rfl

end Host

/-! ### Heaps with more lists -/

/-- A later heap: every list is as it was, and there may be more. -/
def Heap.Grown (h h' : Heap) : Prop :=
  ∀ (cell : Nat) (items : List Value), h.cells[cell]? = some items → h'.cells[cell]? = some items

namespace Heap.Grown

variable {h h' h'' : Heap}

theorem refl (h : Heap) : h.Grown h := fun _ _ => id

theorem trans (hg : h.Grown h') (hg' : h'.Grown h'') : h.Grown h'' :=
  fun cell items hc => hg' cell items (hg cell items hc)

theorem alloc (h : Heap) (items : List Value) : h.Grown (h.alloc items).2 := by
  intro cell items' hc
  have hlt : cell < h.cells.size := (Array.getElem?_eq_some_iff.1 hc).1
  rw [← hc]
  exact Array.getElem?_push_lt hlt ▸ (Array.getElem?_eq_getElem hlt).symm

/-- A list with an item in it is there, so it is as it was. -/
theorem items_eq (hg : h.Grown h') {cell : Nat} (hc : h.items cell ≠ []) :
    h'.items cell = h.items cell := by
  rw [items, Array.getD_eq_getD_getElem?] at hc ⊢
  rw [items, Array.getD_eq_getD_getElem?]
  rcases h₀ : h.cells[cell]? with _ | items
  · rw [h₀] at hc
    exact absurd rfl hc
  · rw [hg cell items h₀]

end Heap.Grown

/-- A computation that only adds to the heap, however it ends. -/
def HeapM.Adds (x : HeapM α) : Prop := ∀ h : Heap, h.Grown (x.run.run h).2

namespace HeapM.Adds

theorem value (a : α) : Adds (pure a) := fun h => .refl h

theorem fault (f : Fault) : Adds (throw f : HeapM α) := fun h => .refl h

theorem heap : Adds (get : HeapM Heap) := fun h => .refl h

theorem given (x : Except Fault α) : Adds (ofExcept x : HeapM α) := fun h => by
  cases x <;> exact .refl h

theorem bind {x : HeapM α} {f : α → HeapM β} (hx : Adds x) (hf : ∀ a, Adds (f a)) :
    Adds (x >>= f) := by
  intro h
  have hb : ((x >>= f).run.run h) = ExceptT.bindCont f (x.run.run h).1 (x.run.run h).2 := rfl
  have hg := hx h
  rw [hb]
  rcases hr : x.run.run h with ⟨fault | a, h'⟩ <;> rw [hr] at hg
  · exact hg
  · exact hg.trans (hf a h')

theorem newList (items : List Value) : Adds (HeapM.newList items) := fun h => .alloc h items

theorem identify (v : Value) : Adds (HeapM.identify v) := by
  have fresh : Adds newIdentity := fun h => Heap.Grown.refl h
  unfold HeapM.identify
  split
  · split_ifs
    · exact fresh.bind fun _ => value _
    · exact value _
  · split_ifs
    · exact fresh.bind fun _ => value _
    · exact value _
  · exact value _

end HeapM.Adds

namespace Operator

open HeapM

theorem adds_numeric (op : Number.Scalar → Number.Scalar → Except Fault Number.Scalar)
    (v w : Value) : Adds (numeric op v w) :=
  (Adds.given _).bind fun _ => (Adds.given _).bind fun _ => (Adds.given _).bind fun _ =>
    Adds.identify _

theorem adds_repeatText (s : Text) (times : Int) : Adds (repeatText s times) :=
  (Adds.given _).bind fun _ => Adds.value _

theorem adds_repeatList (cell : Nat) (times : Int) : Adds (repeatList cell times) :=
  Adds.heap.bind fun _ => (Adds.given _).bind fun _ => Adds.newList _

theorem adds_add (v w : Value) : Adds (add v w) := by
  unfold add
  split
  · exact Adds.value _
  · exact Adds.heap.bind fun _ => Adds.newList _
  · exact adds_numeric _ _ _

theorem adds_mul (v w : Value) : Adds (mul v w) := by
  unfold mul
  split
  · split
    · exact adds_repeatText _ _
    · exact Adds.fault _
  · split
    · exact adds_repeatList _ _
    · exact Adds.fault _
  · split
    · exact adds_repeatText _ _
    · exact Adds.fault _
  · split
    · exact adds_repeatList _ _
    · exact Adds.fault _
  · exact adds_numeric _ _ _

theorem adds_mod (v w : Value) : Adds (mod v w) := by
  unfold mod
  split
  · exact Adds.heap.bind fun _ => (Adds.given _).bind fun _ => Adds.value _
  · exact adds_numeric _ _ _

/-- Operators only add to the heap. -/
theorem adds_apply (dialect : Dialect) (op : BinaryOp) (v w : Value) :
    Adds (apply dialect op v w) := by
  unfold apply
  split
  · exact adds_add v w
  · exact adds_numeric _ _ _
  · exact adds_mul v w
  · split <;> exact adds_numeric _ _ _
  · split
    · exact adds_mod v w
    · exact adds_numeric _ _ _
  · exact adds_numeric _ _ _
  · exact adds_numeric _ _ _
  · exact Adds.heap.bind fun _ => (Adds.given _).bind fun _ => Adds.value _

end Operator

/-! ### Fixed expressions -/

/-- The integer or truth value that a computation gives. -/
def HeapM.integer? (x : HeapM Value) (h : Heap) : Option Value :=
  (x.run.run h).1.toOption.filter (·.int?.isSome)

/-- The value of an expression in which nothing is called and no list is made. Operators are applied
to integers and truth values only. -/
def Expr.fixed? (dialect : Dialect) (h : Heap) (scope : Scope) : Expr → Option Value
  | .lit l => some (Eval.ofLiteral l)
  | .var name => scope.get? name
  | .unary op operand => do
    let v ← operand.fixed? dialect h scope
    if v.int?.isSome then (Operator.applyUnary op v).integer? h else none
  | .binary op left right => do
    let v ← left.fixed? dialect h scope
    let w ← right.fixed? dialect h scope
    if op ∈ BinaryOp.applicable dialect ∧ v.int?.isSome ∧ w.int?.isSome then
      (Operator.apply dialect op v w).integer? h
    else none
  | .index target position => do
    let v ← target.fixed? dialect h scope
    let i ← position.fixed? dialect h scope
    (Operator.item dialect h v i).toOption
  | .list _ | .call _ _ | .method _ _ _ => none

namespace Operator

open HeapM Number

variable {h : Heap} {v w r : Value}

theorem integer?_eq_some {x : HeapM Value} (hr : x.integer? h = some r) :
    (x.run.run h).1 = .ok r ∧ r.int?.isSome := by
  obtain ⟨hx, hint⟩ := Option.filter_eq_some_iff.1 hr
  refine ⟨?_, hint⟩
  cases hres : (x.run.run h).1 with
  | error fault => simp [hres, Except.toOption] at hx
  | ok a => simpa [hres, Except.toOption] using hx

theorem integer?_of_run {x : HeapM Value} {h' : Heap} (hr : x.integer? h = some r)
    (hx : x.run.run h' = (.ok r, h')) : x.integer? h' = some r := by
  rw [integer?, hx]
  exact Option.filter_eq_some_iff.2 ⟨rfl, (integer?_eq_some hr).2⟩

/-- A number that is an integer is no NaN, so it leaves the heap as it is. -/
theorem numeric_of_integer {op : Scalar → Scalar → Except Fault Scalar}
    (hr : (numeric op v w).integer? h = some r) (h' : Heap) :
    (numeric op v w).run.run h' = (.ok r, h') := by
  obtain ⟨hres, hint⟩ := integer?_eq_some hr
  clear hr
  unfold numeric at *
  revert hres
  rcases v.num with fault | a
  · exact fun hres => nomatch hres
  rcases w.num with fault | b
  · exact fun hres => nomatch hres
  show ((ofExcept (op a b) >>= fun n => identify (.ofNum n) : HeapM Value).run.run h).1 = .ok r →
    (ofExcept (op a b) >>= fun n => identify (.ofNum n) : HeapM Value).run.run h' = (.ok r, h')
  rcases op a b with fault | n
  · exact fun hres => nomatch hres
  show ((identify (.ofNum n)).run.run h).1 = .ok r → (identify (.ofNum n)).run.run h' = (.ok r, h')
  cases n with
  | int n =>
    intro hres
    cases hres
    rfl
  | float x =>
    simp only [Value.ofNum, identify]
    split_ifs <;> (intro hres; cases hres; cases hint)
  | complex re im =>
    simp only [Value.ofNum, identify]
    split_ifs <;> (intro hres; cases hres; cases hint)

theorem compares_congr (hv : v.int?.isSome) (hw : w.int?.isSome) (op : BinaryOp) (h h' : Heap) :
    compares h op v w = compares h' op v w := by
  have eq_congr : h.eq v w = h'.eq v w := by
    unfold Heap.eq
    cases v <;> cases hv <;> cases w <;> cases hw <;>
      cases h.compareFuel <;> cases h'.compareFuel <;> rfl
  have ordered_congr : h.ordered op v w = h'.ordered op v w := by
    unfold Heap.ordered
    cases v <;> cases hv <;> cases w <;> cases hw <;>
      cases h.compareFuel <;> cases h'.compareFuel <;> rfl
  have contains_congr : contains h v w = contains h' v w := by
    cases w <;> cases hw <;> rfl
  cases op <;> simp only [compares, eq_congr, contains_congr, ordered_congr]

/-- An operator that gives an integer for two of them does so on any heap and leaves it as it is. -/
theorem apply_of_integer {dialect : Dialect} {op : BinaryOp} (hv : v.int?.isSome)
    (hw : w.int?.isSome) (hr : (apply dialect op v w).integer? h = some r) (h' : Heap) :
    (apply dialect op v w).run.run h' = (.ok r, h') := by
  have hadd : add v w = numeric Scalar.add v w := by cases v <;> cases hv <;> rfl
  have hmul : mul v w = numeric Scalar.mul v w := by
    cases v <;> cases hv <;> cases w <;> cases hw <;> rfl
  have hmod : mod v w = numeric Scalar.mod v w := by cases v <;> cases hv <;> rfl
  unfold apply at hr ⊢
  simp only [hadd, hmul, hmod] at hr ⊢
  split at hr
  case h_4 | h_5 => split at hr <;> exact numeric_of_integer hr h'
  case h_8 =>
    obtain ⟨hres, -⟩ := integer?_eq_some hr
    revert hres
    show ((ofExcept (compares h op v w) >>= fun b => pure (truth dialect b) :
        HeapM Value).run.run h).1 = .ok r →
      (ofExcept (compares h' op v w) >>= fun b => pure (truth dialect b) :
        HeapM Value).run.run h' = _
    rw [compares_congr hv hw op h' h]
    rcases compares h op v w with fault | b
    · exact fun hres => nomatch hres
    · intro hres
      cases hres
      rfl
  all_goals exact numeric_of_integer hr h'

theorem applyUnary_of_integer {op : UnaryOp} (hv : v.int?.isSome)
    (hr : (applyUnary op v).integer? h = some r) (h' : Heap) :
    (applyUnary op v).run.run h' = (.ok r, h') := by
  obtain ⟨hres, -⟩ := integer?_eq_some hr
  cases v <;> cases hv <;> cases op <;> cases hres <;> rfl

/-- An element that is there stays there when there are more lists. -/
theorem item_of_grown {dialect : Dialect} {h' : Heap} (hg : h.Grown h')
    (hr : item dialect h v w = .ok r) : item dialect h' v w = .ok r := by
  cases v with
  | list cell =>
    by_cases hempty : h.items cell = []
    · have hnone (i : Int) : position? 0 i = none := by
        grind [position?]
      unfold item at hr
      simp only [hempty, List.length_nil, hnone, Option.bind_none] at hr
      split at hr
      · split_ifs at hr
        cases hr
      · cases hr
    · unfold item at hr ⊢
      simp only [hg.items_eq hempty]
      exact hr
  | _ => exact hr

end Operator

/-- Evaluating gives a value, costs no call and changes nothing. -/
def Yields (x : EvalM α) (a : α) (m : Machine) : Prop :=
  ∀ calls : Int, (x.run calls).outcome m = (.ok (a, calls), m)

namespace Yields

variable {m : Machine}

theorem value (a : α) : Yields (pure a : EvalM α) a m := fun _ => rfl

theorem bind {x : EvalM α} {f : α → EvalM β} {a : α} {b : β} (hx : Yields x a m)
    (hf : Yields (f a) b m) : Yields (x >>= f) b m := fun calls => by
  rw [StateT.run_bind, outcome_bind_ok (hx calls)]
  exact hf calls

theorem lift {x : Run α} {a : α} (hx : x.outcome m = (.ok a, m)) :
    Yields (liftM x : EvalM α) a m := fun calls => by
  show (x >>= fun a => pure (a, calls)).outcome m = _
  rw [outcome_bind_ok hx]
  rfl

end Yields

namespace Expr

variable {dialect : Dialect} {h h' : Heap} {scope : Scope} {m : Machine}

theorem toOption_eq_some {x : Except Fault α} {a : α} : x.toOption = some a ↔ x = .ok a := by
  cases x <;> simp [Except.toOption]

/-- A fixed expression is as it was when there are more lists. -/
theorem fixed?_grown (hg : h.Grown h') : ∀ {e : Expr} {v : Value},
    e.fixed? dialect h scope = some v → e.fixed? dialect h' scope = some v
  | .lit _, _, hv | .var _, _, hv => hv
  | .unary op operand, v, hv => by
    rw [fixed?] at hv ⊢
    obtain ⟨w, hw, hv⟩ := Option.bind_eq_some_iff.1 hv
    refine Option.bind_eq_some_iff.2 ⟨w, fixed?_grown hg hw, ?_⟩
    split_ifs at hv ⊢ with hint
    exact Operator.integer?_of_run hv (Operator.applyUnary_of_integer hint hv h')
  | .binary op left right, v, hv => by
    rw [fixed?] at hv ⊢
    obtain ⟨a, ha, hv⟩ := Option.bind_eq_some_iff.1 hv
    obtain ⟨b, hb, hv⟩ := Option.bind_eq_some_iff.1 hv
    refine Option.bind_eq_some_iff.2 ⟨a, fixed?_grown hg ha,
      Option.bind_eq_some_iff.2 ⟨b, fixed?_grown hg hb, ?_⟩⟩
    split_ifs at hv ⊢ with hint
    exact Operator.integer?_of_run hv (Operator.apply_of_integer hint.2.1 hint.2.2 hv h')
  | .index target position, v, hv => by
    rw [fixed?] at hv ⊢
    obtain ⟨a, ha, hv⟩ := Option.bind_eq_some_iff.1 hv
    obtain ⟨b, hb, hv⟩ := Option.bind_eq_some_iff.1 hv
    refine Option.bind_eq_some_iff.2 ⟨a, fixed?_grown hg ha,
      Option.bind_eq_some_iff.2 ⟨b, fixed?_grown hg hb, ?_⟩⟩
    rw [toOption_eq_some] at hv ⊢
    exact Operator.item_of_grown hg hv

/-- Evaluating a fixed expression gives its value and changes nothing. -/
theorem eval_of_fixed (host : Host) : ∀ {e : Expr} {v : Value},
    e.fixed? host.dialect m.heap scope = some v → Yields (Eval.eval host scope e) v m
  | .lit l, v, hv => by
    cases hv
    rw [Eval.eval]
    exact .value _
  | .var name, v, hv => by
    rw [Eval.eval]
    refine .lift ?_
    rw [Eval.lookup, show scope.get? name = some v from hv]
    rfl
  | .unary op operand, v, hv => by
    rw [fixed?] at hv
    obtain ⟨w, hw, hv⟩ := Option.bind_eq_some_iff.1 hv
    split_ifs at hv with hint
    rw [Eval.eval]
    refine (eval_of_fixed host hw).bind (.lift ?_)
    rw [outcome_onHeap, Operator.applyUnary_of_integer hint hv]
  | .binary op left right, v, hv => by
    rw [fixed?] at hv
    obtain ⟨a, ha, hv⟩ := Option.bind_eq_some_iff.1 hv
    obtain ⟨b, hb, hv⟩ := Option.bind_eq_some_iff.1 hv
    split_ifs at hv with hint
    obtain ⟨hop, hia, hib⟩ := hint
    have happly :
        Yields (liftM (Run.onHeap (Operator.apply host.dialect op a b)) : EvalM Value) v m := by
      refine .lift ?_
      rw [outcome_onHeap, Operator.apply_of_integer hia hib hv]
    rw [Eval.eval]
    refine (eval_of_fixed host ha).bind ?_
    have hshort : op ∉ [.and, .or, .logicalAnd, .logicalOr] := by
      rintro hshort
      cases hd : host.dialect <;> rw [hd] at hop <;> revert hop hshort <;> cases op <;> decide
    cases op <;> first | exact (eval_of_fixed host hb).bind happly | exact absurd (by decide) hshort
  | .index target position, v, hv => by
    rw [fixed?] at hv
    obtain ⟨a, ha, hv⟩ := Option.bind_eq_some_iff.1 hv
    obtain ⟨b, hb, hv⟩ := Option.bind_eq_some_iff.1 hv
    rw [Eval.eval]
    refine (eval_of_fixed host ha).bind ((eval_of_fixed host hb).bind (.lift ?_))
    rw [outcome_fromHeap, toOption_eq_some.1 hv]

/-- A variable, or an element whose container and index are fixed. -/
def isFixed (dialect : Dialect) (h : Heap) (scope : Scope) : Expr → Bool
  | .var _ => true
  | .index container position =>
    (container.fixed? dialect h scope).isSome && (position.fixed? dialect h scope).isSome
  | _ => false

end Expr

/-- A computation that only adds to the heap. -/
def Run.Adds (x : Run α) : Prop := ∀ m : Machine, m.heap.Grown (x.outcome m).2.heap

namespace Run.Adds

theorem value (a : α) : Adds (pure a) := fun m => .refl m.heap

theorem given (x : Except Fault α) : Adds (ofExcept x : Run α) := fun m => by
  rw [outcome_ofExcept]
  exact .refl _

theorem fromHeap (read : Heap → Except Fault α) : Adds (Run.fromHeap read) := fun m => by
  rw [outcome_fromHeap]
  exact .refl _

theorem bind {x : Run α} {f : α → Run β} (hx : Adds x) (hf : ∀ a, Adds (f a)) :
    Adds (x >>= f) := by
  intro m
  have hg := hx m
  rcases hr : x.outcome m with ⟨fault | a, m'⟩ <;> rw [hr] at hg
  · rw [outcome_bind_error hr]
    exact hg
  · rw [outcome_bind_ok hr]
    exact hg.trans (hf a m')

theorem combine (host : Host) (op : BinaryOp) (v w : Value) : Adds (host.combine op v w) := by
  intro m
  have hg := Operator.adds_apply host.dialect op v w m.heap
  rw [Host.combine, outcome_recover, outcome_onHeap]
  revert hg
  rcases (Operator.apply host.dialect op v w).run.run m.heap with ⟨fault | a, h⟩ <;> exact id

end Run.Adds

namespace Host

variable {host : Host} {scope : Scope} {m : Machine} {e target : Expr}

theorem evaluate_of_run {v : Value} {m' : Machine} (calls : Int)
    (h : ((Eval.eval host scope e).run host.limits.maxCallsPerExpression).outcome m =
      (.ok (v, calls), m')) : (host.evaluate scope e).outcome m = (.ok v, m') := by
  rw [evaluate, outcome_recover, StateT.run'_eq, map_eq_pure_bind, outcome_bind_ok h]
  rfl

theorem evaluate_of_fixed {v : Value} (hv : e.fixed? host.dialect m.heap scope = some v) :
    (host.evaluate scope e).outcome m = (.ok v, m) :=
  evaluate_of_run _ (Expr.eval_of_fixed host hv _)

/-- The value of a target before an assignment, where `absent` stands for that of a variable without
one. -/
def current (host : Host) (absent : Value) (target : Expr) (scope : Scope) : Run Value :=
  target.name?.elim (host.evaluate scope target) fun name => pure ((scope.get? name).getD absent)

theorem evaluate_eq_current (host : Host) (target : Expr) (scope : Scope) :
    host.evaluate scope target = host.current .unknown target scope := by
  cases target with
  | var name =>
    refine ext_outcome fun m => ?_
    show _ = (pure ((scope.get? name).getD .unknown) : Run Value).outcome m
    cases hv : scope.get? name with
    | some v => exact evaluate_of_fixed hv
    | none =>
      rw [evaluate, outcome_recover, Eval.eval, Eval.lookup, hv]
      rfl
  | _ => rfl

theorem currentValue_eq_current (host : Host) (target : Expr) (scope : Scope) :
    Braced.currentValue host target scope = host.current .none target scope := by
  cases target <;> rfl

theorem evaluate_element {container position : Expr} {base index : Value}
    (hb : container.fixed? host.dialect m.heap scope = some base)
    (hi : position.fixed? host.dialect m.heap scope = some index) :
    (host.evaluate scope (.index container position)).outcome m =
      (Run.recover (Run.fromHeap (Operator.item host.dialect · base index))).outcome m := by
  rw [evaluate, outcome_recover, outcome_recover, StateT.run'_eq, map_eq_pure_bind,
    Eval.eval, StateT.run_bind, bind_assoc, outcome_bind_ok (Expr.eval_of_fixed host hb _),
    StateT.run_bind, bind_assoc, outcome_bind_ok (Expr.eval_of_fixed host hi _),
    StateT.run_monadLift]
  simp only [bind_assoc, pure_bind, bind_pure, monadLift_self]

/-- A fixed target denotes a place: the value of the target is read there, and while there are only
more lists, writing to the target writes there. -/
theorem locate_of_fixed (hf : target.isFixed host.dialect m.heap scope) :
    ∃ place, (host.locate scope target).outcome m = (.ok place, m) ∧
      (∀ absent, (host.current absent target scope).outcome m =
        (place.read host.dialect absent scope).outcome m) ∧
      ∀ m', m.heap.Grown m'.heap → ∀ v, (host.store target v scope).outcome m' =
        (place.write host.dialect v scope).outcome m' := by
  cases target with
  | var name => exact ⟨.named name, rfl, fun _ => rfl, fun _ _ _ => rfl⟩
  | index container position =>
    obtain ⟨⟨base, hb⟩, ⟨index, hi⟩⟩ := (Bool.and_eq_true_iff.1 hf).imp
      Option.isSome_iff_exists.1 Option.isSome_iff_exists.1
    have hlocate (m' : Machine) (hg : m.heap.Grown m'.heap) :
        (host.locate scope (.index container position)).outcome m' =
          (.ok (.element base index container.name?), m') := by
      rw [locate, outcome_bind_ok (evaluate_of_fixed (Expr.fixed?_grown hg hb)),
        outcome_bind_ok (evaluate_of_fixed (Expr.fixed?_grown hg hi))]
      rfl
    refine ⟨_, hlocate m (.refl _), fun _ => evaluate_element hb hi, fun m' hg v => ?_⟩
    rw [store_eq, outcome_bind_ok (hlocate m' hg)]
  | _ => exact absurd hf Bool.false_ne_true

end Host

/-! ### Assignments that find their targets once -/

namespace Host

/-- Locate a target, read it, and write there what is made of its value. -/
def updateOnce (host : Host) (absent : Value) (target : Expr) (make : Value → Run α)
    (result : α → Value) (scope : Scope) : Run (α × Scope) := do
  let place ← host.locate scope target
  let current ← place.read host.dialect absent scope
  let made ← make current
  let written ← place.write host.dialect (result made) scope
  pure (made, written.2)

/-- Locate each target and write its value, from left to right. -/
def storeEachOnce (host : Host) (pairs : List (Expr × Value)) (scope : Scope) : Run Scope :=
  pairs.foldlM (fun scope pair => do
    let place ← host.locate scope pair.1
    let written ← place.write host.dialect pair.2 scope
    pure written.2) scope

end Host

namespace Indented

/-- Combine the value of the target, which is located once, with another one. -/
def assignCombinedOnce (host : Host) (line : Nat) (target : Expr) (a : Assignment) (op : BinaryOp)
    (scope : Scope) : Run Scope := do
  let v ← host.evaluateText scope a.value
  let updated ← host.updateOnce .unknown target (host.combine op · v) id scope
  let operand ← host.describe v
  let described ← host.describe updated.1
  host.record line .assignment (s!"{String.ofList a.target} {Assignment.opSymbol a.op} " ++ operand
    ++ " → " ++ described) updated.2
  pure updated.2

/-- Run an assignment whose targets are located once. -/
def assignOnce (host : Host) (line : Nat) (a : Assignment) (scope : Scope) :
    Run (Option Scope) := do
  if 2 ≤ a.chain.1.length then
    let some targets ← host.parseTargets a.chain.1 | pure none
    let v ← host.evaluateText scope a.chain.2
    let scope ← host.storeEachOnce (targets.map (·, v)) scope
    let described ← host.describe v
    let shown := joinWith " = " (a.chain.1.map String.ofList)
    host.record line .assignment (s!"{shown} = " ++ described) scope
    pure (some scope)
  else
    match a.op, ← host.parseTargets (splitCommas a.target) with
    | some op, some [target] => pure (some (← assignCombinedOnce host line target a op scope))
    | none, some (target :: targets) =>
      let values ← unpacked host (targets.length + 1) a.value scope
      let scope ← host.storeEachOnce ((target :: targets).zip values) scope
      let described ← host.describeAll values
      host.record line .assignment (s!"{String.ofList a.target} = " ++ described) scope
      pure (some scope)
    | _, _ => pure none

end Indented

namespace Braced

/-- Write a value to a target, which is located once, as the kind of number that it replaces. -/
def keepOnce (host : Host) (target : Expr) (v : Value) (scope : Scope) : Run (Value × Scope) :=
  host.updateOnce .none target (fun current => ofExcept (keepKind current v)) id scope

/-- What an assignment makes of the value that it replaces, and the text that describes it. -/
def assigned (host : Host) (a : Assignment) (v current : Value) : Run (Value × Text) :=
  a.op.elim
    (do
      let result ← ofExcept (keepKind current v)
      let described ← host.describe result
      pure (result, s!"{String.ofList a.target} = " ++ described))
    fun op => do
      let result ← ofExcept (keepKind current (← host.combine op current v))
      let operand ← host.describe v
      let described ← host.describe result
      pure (result, s!"{String.ofList a.target} {Assignment.opSymbol a.op} " ++ operand ++ " → " ++
        described)

/-- Run an assignment whose targets are located once. -/
def assignOnce (host : Host) (line : Nat) (a : Assignment) (scope : Scope) :
    Run (Option Scope) := do
  if a.op ∈ [some .floorDiv, some .pow] then pure none
  else if 2 ≤ a.chain.1.length then
    let some targets ← host.parseTargets a.chain.1 | pure none
    let v ← host.evaluateText scope a.chain.2
    let kept ← targets.reverse.foldlM (fun kept target => keepOnce host target kept.1 kept.2)
      (v, scope)
    let described ← host.describe kept.1
    let shown := joinWith " = " (a.chain.1.map String.ofList)
    host.record line .assignment (s!"{shown} = " ++ described) kept.2
    pure (some kept.2)
  else
    let some target ← host.parseTarget a.target | pure none
    let v ← host.evaluateText scope a.value
    let updated ← host.updateOnce .none target (assigned host a v) Prod.fst scope
    host.record line .assignment updated.1.2 updated.2
    pure (some updated.2)

/-- Run an increment or decrement whose target is located once. -/
def incrementOnce (host : Host) (line : Nat) (target : List Char) (change : Change)
    (shown : String) (scope : Scope) : Run (Option Scope) := do
  let some e ← host.parseTarget target | pure none
  let updated ← host.updateOnce .unknown e (host.combine change.op · (.int 1)) id scope
  let described ← host.describe updated.1
  host.record line .assignment (s!"{shown} → " ++ described) updated.2
  pure (some updated.2)

end Braced

/-! ### One evaluation and two -/

/-- A computation that changes nothing. -/
def Run.Still (x : Run α) : Prop := ∀ m, (x.outcome m).2 = m

namespace Run.Still

theorem value (a : α) : Still (pure a) := fun _ => rfl

theorem bind {x : Run α} {f : α → Run β} (hx : Still x) (hf : ∀ a, Still (f a)) :
    Still (x >>= f) := by
  intro m
  have hm := hx m
  rcases hr : x.outcome m with ⟨fault | a, m'⟩ <;> rw [hr] at hm <;> cases hm
  · rw [outcome_bind_error hr]
  · rw [outcome_bind_ok hr, hf]

theorem mapM {f : α → Run β} (hf : ∀ a, Still (f a)) : ∀ l : List α, Still (l.mapM f)
  | [] => value []
  | a :: l => by
    rw [List.mapM_cons]
    exact (hf a).bind fun b => (mapM hf l).bind fun bs => value (b :: bs)

theorem read (place : Place) (dialect : Dialect) (absent : Value) (scope : Scope) :
    Still (place.read dialect absent scope) := by
  intro m
  cases place with
  | element base index holder =>
    rw [Place.read, outcome_recover, outcome_fromHeap]
    rcases Operator.item dialect m.heap base index with fault | v <;> rfl
  | _ => rfl

theorem parse (host : Host) (text : List Char) : Still (host.parse text) := fun m => by
  rw [Host.parse, outcome_ofExcept]

theorem parseTarget (host : Host) (text : List Char) : Still (host.parseTarget text) :=
  (parse host text).bind fun _ => value _

theorem parseTargets (host : Host) (texts : List (List Char)) : Still (host.parseTargets texts) :=
  (mapM (parse host) texts).bind fun parsed => by split <;> exact value _

/-- The state is the same afterwards. -/
theorem eq_of_outcome {x : Run α} {m m' : Machine} {result : Except Fault α} (hx : Still x)
    (h : x.outcome m = (result, m')) : m' = m := by
  rw [← hx m, h]

end Run.Still

namespace Host

variable {host : Host} {scope : Scope} {m : Machine} {target : Expr}

theorem storeEach_eq_once (host : Host) (pairs : List (Expr × Value)) (scope : Scope) :
    host.storeEach pairs scope = host.storeEachOnce pairs scope := by
  unfold storeEachOnce
  induction pairs generalizing scope with
  | nil => rfl
  | cons pair pairs ih =>
    rw [storeEach, List.foldlM_cons, store_eq]
    simp only [bind_assoc, pure_bind, ih]

/-- To read a fixed target, make something of its value and write to the target is to update the
element that it denotes. -/
theorem update_of_fixed (hf : target.isFixed host.dialect m.heap scope) (absent : Value)
    {make : Value → Run α} (hmake : ∀ v, (make v).Adds) (result : α → Value)
    (rest : α × Scope → Run β) :
    (host.updateOnce absent target make result scope >>= rest).outcome m =
      (host.current absent target scope >>= fun v => make v >>= fun made =>
        host.store target (result made) scope >>= fun written =>
          rest (made, written.2)).outcome m := by
  obtain ⟨place, hlocate, hread, hwrite⟩ := locate_of_fixed hf
  unfold updateOnce
  simp only [bind_assoc, pure_bind]
  rw [outcome_bind_ok hlocate, outcome_bind (host.current _ _ _), hread absent, ← outcome_bind]
  refine outcome_bind_congr fun v m₁ hv => ?_
  obtain rfl := (Still.read place _ _ _).eq_of_outcome hv
  refine outcome_bind_congr fun made m₂ hmade => ?_
  have hg : m₁.heap.Grown m₂.heap := by
    have := hmake v m₁
    rwa [hmade] at this
  rw [outcome_bind (host.store _ _ _), hwrite m₂ hg, ← outcome_bind]

end Host

/-- What a computation gives, if it does not fail, passes a test. -/
def Run.ensures (x : Run α) (m : Machine) (test : α → Machine → Bool) : Bool :=
  let r := x.outcome m
  r.1.toOption.all (test · r.2)

theorem Run.ensures_ok {x : Run α} {m m' : Machine} {test : α → Machine → Bool} {a : α}
    (h : x.ensures m test = true) (hx : x.outcome m = (.ok a, m')) : test a m' = true := by
  rw [Run.ensures, hx] at h
  exact h

theorem Run.Adds.describe (host : Host) (v : Value) : (host.describe v).Adds := .fromHeap _

namespace Indented

variable {host : Host} {a : Assignment} {scope : Scope} {m : Machine}

/-- The target of a compound assignment is fixed when its value is about to be read. -/
def targetFixed (host : Host) (a : Assignment) (scope : Scope) (m : Machine) : Bool :=
  a.op.isNone ||
    (host.parseTargets (splitCommas a.target)).ensures m fun targets m =>
      (host.evaluateText scope a.value).ensures m fun _ m =>
        (targets.getD []).all (·.isFixed host.dialect m.heap scope)

theorem assignCombined_of_fixed (line : Nat) {target : Expr} (op : BinaryOp)
    (hf : ∀ v m', (host.evaluateText scope a.value).outcome m = (.ok v, m') →
      target.isFixed host.dialect m'.heap scope) :
    (assignCombined host line target a op scope).outcome m =
      (assignCombinedOnce host line target a op scope).outcome m := by
  unfold assignCombined assignCombinedOnce
  refine outcome_bind_congr fun v m' hv => ?_
  rw [host.evaluate_eq_current]
  rw [Host.update_of_fixed (hf v m' hv) _ (fun current => .combine host op current v) id]
  rfl

/-- With a fixed target, an assignment is one that locates its target once. -/
theorem assign_of_fixed (line : Nat) (hf : targetFixed host a scope m = true) :
    (assign host line a scope).outcome m = (assignOnce host line a scope).outcome m := by
  unfold assign assignOnce
  rcases a.chain with ⟨_ | ⟨first, _ | ⟨second, more⟩⟩, value⟩
  case cons.cons =>
    refine Eq.trans ?_ (congrArg (outcome · m) (if_pos (Nat.le_add_left 2 more.length)).symm)
    refine outcome_bind_congr fun targets m' _ => ?_
    cases targets with
    | none => rfl
    | some targets =>
      dsimp only
      simp only [host.storeEach_eq_once]
  all_goals
    refine outcome_bind_congr fun targets m' htargets => ?_
    obtain rfl := (Still.parseTargets host _).eq_of_outcome htargets
    rcases hop : a.op with _ | op <;>
      rcases targets with _ | (_ | ⟨target, _ | ⟨second, more⟩⟩) <;> try rfl
    · dsimp only
      simp only [host.storeEach_eq_once]
      rfl
    · dsimp only
      simp only [host.storeEach_eq_once]
      rfl
    · have hcombined := assignCombined_of_fixed line op fun v m' hv =>
        by
          rw [targetFixed, hop, Option.isNone_some, Bool.false_or] at hf
          exact List.all_eq_true.1 (ensures_ok (ensures_ok hf htargets) hv) target
            (List.mem_singleton_self target)
      dsimp only
      rw [outcome_bind, hcombined, ← outcome_bind]

end Indented

namespace Braced

variable {host : Host} {a : Assignment} {scope : Scope} {m : Machine}

/-- Each of several targets is fixed when its turn comes. -/
def fixedInTurn (host : Host) : List Expr → Value → Scope → Machine → Bool
  | [], _, _, _ => true
  | target :: rest, v, scope, m =>
    target.isFixed host.dialect m.heap scope &&
      (keepOnce host target v scope).ensures m fun kept m => fixedInTurn host rest kept.1 kept.2 m

/-- The targets of an assignment are fixed when they are about to be read. -/
def targetsFixed (host : Host) (a : Assignment) (scope : Scope) (m : Machine) : Bool :=
  (host.parseTargets a.chain.1).ensures m fun targets m =>
    (host.evaluateText scope a.chain.2).ensures m fun v m =>
      fixedInTurn host (targets.getD []).reverse v scope m

theorem storeChain_of_fixed : ∀ {targets : List Expr} {v : Value} {scope : Scope} {m : Machine},
    fixedInTurn host targets v scope m = true →
    (storeChain host targets v scope).outcome m =
      (targets.foldlM (fun kept target => keepOnce host target kept.1 kept.2) (v, scope)).outcome m
  | [], _, _, _, _ => rfl
  | target :: rest, v, scope, m, h => by
    obtain ⟨hf, hrest⟩ := Bool.and_eq_true_iff.1 h
    rw [storeChain, List.foldlM_cons, host.currentValue_eq_current]
    refine (Host.update_of_fixed hf .none (fun current => .given (keepKind current v)) id
      fun kept => storeChain host rest kept.1 kept.2).symm.trans ?_
    refine outcome_bind_congr fun kept m' hkept => ?_
    have hturn := ensures_ok hrest hkept
    exact storeChain_of_fixed hturn

/-- The target has to be fixed in the state that evaluating the value leaves. -/
theorem assignOne_of_fixed (line : Nat) {target : Expr}
    (hf : ∀ v m', (host.evaluateText scope a.value).outcome m = (.ok v, m') →
      target.isFixed host.dialect m'.heap scope) :
    (assignOne host line target a scope).outcome m =
      (do
        let v ← host.evaluateText scope a.value
        let updated ← host.updateOnce .none target (assigned host a v) Prod.fst scope
        host.record line .assignment updated.1.2 updated.2
        pure updated.2).outcome m := by
  unfold assignOne
  refine outcome_bind_congr fun v m' hv => ?_
  rw [host.currentValue_eq_current]
  have hmake (current : Value) : (assigned host a v current).Adds := by
    unfold assigned
    cases a.op with
    | none => exact (Run.Adds.given _).bind fun _ => (Run.Adds.describe _ _).bind fun _ => .value _
    | some op =>
      exact (Run.Adds.combine _ _ _ _).bind fun _ => (Run.Adds.given _).bind fun _ =>
        (Run.Adds.describe _ _).bind fun _ => (Run.Adds.describe _ _).bind fun _ => .value _
  rw [Host.update_of_fixed (hf v m' hv) .none hmake Prod.fst]
  unfold assigned
  cases a with
  | mk target op value => cases op <;> simp only [Option.elim, bind_assoc, pure_bind]

theorem parseTargets_singleton {text : List Char} {target : Expr}
    (ht : (host.parseTarget text).outcome m = (.ok (some target), m)) :
    (host.parseTargets [text]).outcome m = (.ok (some [target]), m) := by
  unfold Host.parseTarget at ht
  rcases hp : (host.parse text).outcome m with ⟨fault | e, m'⟩
  · rw [outcome_bind_error hp] at ht
    cases ht
  obtain rfl := (Still.parse host text).eq_of_outcome hp
  rw [outcome_bind_ok hp] at ht
  have he : e.filter Expr.isTarget = some target := by
    injection ht with hresult
    injection hresult
  obtain ⟨rfl, htarget⟩ := Option.filter_eq_some_iff.1 he
  have hall : ([text].mapM host.parse).outcome m' = (.ok [some target], m') := by
    rw [List.mapM_cons, outcome_bind_ok hp]
    rfl
  rw [Host.parseTargets, outcome_bind_ok hall]
  simp [htarget]

/-- A plain assignment is a chain of one, unless its value is another one. -/
theorem chain_of_length_lt_two (h : ¬ 2 ≤ a.chain.1.length) : a.chain = ([a.target], a.value) := by
  have hlast : ∀ (fuel : Nat) (text : List Char), (Assignment.unchain fuel text).1 = [] →
      Assignment.unchain fuel text = ([], text) := by
    intro fuel text hnil
    unfold Assignment.unchain at hnil ⊢
    split
    · rfl
    · split <;> simp_all
  unfold Assignment.chain at h ⊢
  split at h
  · simp_all
  · have hnil : (Assignment.unchain a.value.length a.value).1 = [] := by
      apply List.length_eq_zero_iff.1
      simp_all
    simp_all

/-- With fixed targets, an assignment is one that locates each of them once. -/
theorem assign_of_fixed (line : Nat) (hf : targetsFixed host a scope m = true) :
    (assign host line a scope).outcome m = (assignOnce host line a scope).outcome m := by
  unfold assign assignOnce
  by_cases hop : a.op = some .floorDiv ∨ a.op = some .pow
  · rw [if_pos hop, if_pos (by simpa using hop)]
  rw [if_neg hop, if_neg (by simpa using hop)]
  by_cases hlen : 2 ≤ a.chain.1.length
  · rw [if_pos hlen]
    rw [targetsFixed] at hf
    rcases hchain : a.chain with ⟨_ | ⟨first, _ | ⟨second, more⟩⟩, value⟩ <;>
      rw [hchain] at hlen hf <;> try simp at hlen
    refine outcome_bind_congr fun targets m' htargets => ?_
    obtain rfl := (Still.parseTargets host _).eq_of_outcome htargets
    cases targets with
    | none => rfl
    | some targets =>
      refine outcome_bind_congr fun v m₁ hv => ?_
      have hturn := ensures_ok (ensures_ok hf htargets) hv
      dsimp only [Option.getD_some] at hturn
      rw [outcome_bind, storeChain_of_fixed hturn, ← outcome_bind]
  · rw [if_neg hlen]
    have hchain := chain_of_length_lt_two hlen
    rw [targetsFixed, hchain] at hf
    rw [hchain]
    refine outcome_bind_congr fun target m' htarget => ?_
    obtain rfl := (Still.parseTarget host _).eq_of_outcome htarget
    cases target with
    | none => rfl
    | some target =>
      have hone := assignOne_of_fixed line fun v m₁ hv =>
        (Bool.and_eq_true_iff.1
          (ensures_ok (ensures_ok hf (parseTargets_singleton htarget)) hv)).1
      dsimp only
      rw [outcome_bind, hone, ← outcome_bind]
      simp only [bind_assoc, pure_bind]

theorem increment_of_fixed (line : Nat) {target : List Char} (change : Change) (shown : String)
    (hf : (host.parseTarget target).ensures m (fun e m =>
      e.all (·.isFixed host.dialect m.heap scope)) = true) :
    (increment host line target change shown scope).outcome m =
      (incrementOnce host line target change shown scope).outcome m := by
  unfold increment incrementOnce
  refine outcome_bind_congr fun e m' he => ?_
  cases e with
  | none => rfl
  | some e =>
    obtain rfl := (Still.parseTarget host target).eq_of_outcome he
    dsimp only
    rw [Host.update_of_fixed (ensures_ok hf he) _
      (fun current => .combine host change.op current (.int 1)) id, host.evaluate_eq_current]
    rfl

end Braced

/-- An assignment locates each of its targets once: always if it is a plain one of the indented
dialect, and otherwise if the targets are fixed when they are about to be read. -/
theorem assignments_locate_once (host : Host) (line : Nat) (scope : Scope) (m : Machine) :
    (∀ a, Indented.targetFixed host a scope m = true →
      (Indented.assign host line a scope).outcome m =
        (Indented.assignOnce host line a scope).outcome m) ∧
    (∀ a, Braced.targetsFixed host a scope m = true →
      (Braced.assign host line a scope).outcome m =
        (Braced.assignOnce host line a scope).outcome m) ∧
    ∀ target change shown,
      (host.parseTarget target).ensures m (fun e m =>
        e.all (·.isFixed host.dialect m.heap scope)) = true →
      (Braced.increment host line target change shown scope).outcome m =
        (Braced.incrementOnce host line target change shown scope).outcome m :=
  ⟨fun _ hf => Indented.assign_of_fixed line hf, fun _ hf => Braced.assign_of_fixed line hf,
    fun _ change shown hf => Braced.increment_of_fixed line change shown hf⟩

section Examples

/-- A host without functions of its own. -/
def lonelyHost (dialect : Dialect) : Host :=
  { dialect, limits := {}, call := fun _ _ => throw .undefined }

/-- Two lists, the second of which holds positions in the first. -/
def twoLists : Machine := { heap := { cells := #[[.int 1, .int 2], [.int 0, .int 1]] } }

/-- Two variables with a list each. -/
def twoListsScope : Scope := Table.ofList [("a", .list 0), ("b", .list 1)]

/-- `a[b[0] + 1] += 5` -/
def shiftedAssignment : Assignment := ⟨"a[b[0] + 1]".toList, some .add, "5".toList⟩

/-- `a[b[0]] = b[a[0]] = 7` -/
def crossedAssignment : Assignment := ⟨"a[b[0]]".toList, none, "b[a[0]] = 7".toList⟩

/-- `a[b.pop()] += 10` -/
def poppedAssignment : Assignment := ⟨"a[b.pop()]".toList, some .add, "10".toList⟩

/-- The lists after a statement of the two lists. -/
def listsAfter (x : Run α) : List (List Value) := (x.outcome twoLists).2.heap.cells.toList

theorem assignments_locate_once_nested :
    let A := lonelyHost .indented
    let B := lonelyHost .braced
    ((Indented.assign A 0 shiftedAssignment twoListsScope).outcome twoLists =
        (Indented.assignOnce A 0 shiftedAssignment twoListsScope).outcome twoLists ∧
      listsAfter (Indented.assign A 0 shiftedAssignment twoListsScope) =
        [[.int 1, .int 7], [.int 0, .int 1]]) ∧
    ((Braced.assign B 0 crossedAssignment twoListsScope).outcome twoLists =
        (Braced.assignOnce B 0 crossedAssignment twoListsScope).outcome twoLists ∧
      listsAfter (Braced.assign B 0 crossedAssignment twoListsScope) =
        [[.int 7, .int 2], [.int 0, .int 7]]) ∧
    (Braced.increment B 0 "a[b[1]]".toList .down "a[b[1]]--" twoListsScope).outcome twoLists =
        (Braced.incrementOnce B 0 "a[b[1]]".toList .down "a[b[1]]--" twoListsScope).outcome
          twoLists ∧
      listsAfter (Braced.increment B 0 "a[b[1]]".toList .down "a[b[1]]--" twoListsScope) =
        [[.int 1, .int 1], [.int 0, .int 1]] := by
  intro A B
  obtain ⟨hA, hB, hstep⟩ :
      Indented.targetFixed A shiftedAssignment twoListsScope twoLists = true ∧
      Braced.targetsFixed B crossedAssignment twoListsScope twoLists = true ∧
      (B.parseTarget "a[b[1]]".toList).ensures twoLists (fun e m =>
        e.all (·.isFixed B.dialect m.heap twoListsScope)) = true := by
    decide +kernel
  exact ⟨⟨(assignments_locate_once A 0 twoListsScope twoLists).1 _ hA, by decide +kernel⟩,
    ⟨(assignments_locate_once B 0 twoListsScope twoLists).2.1 _ hB, by decide +kernel⟩,
    (assignments_locate_once B 0 twoListsScope twoLists).2.2 _ _ _ hstep, by decide +kernel⟩

/-- A call in the index moves the assignment on to another element: the last element is read, and
the first one is written. -/
theorem assignment_moves_on :
    ((runProgram .indented {} (layout .indented
      "a = [1, 2]\nb = [0, 1]\na[b.pop()] += 10".toList)).outcome {}).2.heap.cells.toList =
        [[.int 12, .int 2], []] ∧
    listsAfter (Indented.assign (lonelyHost .indented) 2 poppedAssignment twoListsScope) =
      [[.int 12, .int 2], []] ∧
    listsAfter (Indented.assignOnce (lonelyHost .indented) 2 poppedAssignment twoListsScope) =
      [[.int 1, .int 12], [.int 0]] := by
  decide +kernel

end Examples

end Stepwise
