import Mathlib.Tactic.SplitIfs
import Stepwise.Proofs.AssignmentTargets
import Stepwise.Proofs.Reachability
import Stepwise.Proofs.Tables

/-!
# Writing to elements

Reading and writing elements are separate computations, each with its own tests of the index. If
nothing is called in a target, evaluating its parts changes no list and prints nothing
(`gentle_eval`), so the effect of a write is that of the write itself: one cell of one list, or one
code point of the text in one variable. A write that fails leaves everything as it was, and a write
to a list succeeds exactly if the element can be read (`store_element`).
-/

namespace Stepwise

open Run Text

variable {α β : Type}

/-! ### Expressions without calls -/

mutual

/-- No function and no method is called in the expression. -/
def Expr.callFree : Expr → Bool
  | .lit _ => true
  | .var _ => true
  | .list items => Expr.allCallFree items
  | .unary _ operand => operand.callFree
  | .binary _ left right => left.callFree && right.callFree
  | .index target position => target.callFree && position.callFree
  | .call _ _ => false
  | .method _ _ _ => false

/-- None of several expressions has a call in it. -/
def Expr.allCallFree : List Expr → Bool
  | [] => true
  | e :: rest => e.callFree && Expr.allCallFree rest

end

/-- Every list is as it was, and so are the steps, the output and all else that is recorded. -/
structure Machine.Untouched (m m' : Machine) : Prop where
  recorder : m'.recorder = m.recorder
  lists : m.heap.Grown m'.heap

namespace Machine.Untouched

variable {m m' m'' : Machine}

theorem refl (m : Machine) : m.Untouched m := ⟨rfl, .refl _⟩

theorem trans (h : m.Untouched m') (h' : m'.Untouched m'') : m.Untouched m'' :=
  ⟨h'.recorder.trans h.recorder, h.lists.trans h'.lists⟩

end Machine.Untouched

/-- An evaluation that calls nothing. -/
structure Gentle (x : EvalM α) : Prop where
  untouched : ∀ (calls : Int) (m : Machine), m.Untouched ((x.run calls).outcome m).2
  /-- As many calls are left as before. -/
  free : ∀ {calls calls' : Int} {m m' : Machine} {a : α},
    (x.run calls).outcome m = (.ok (a, calls'), m') → calls' = calls

namespace Gentle

theorem value (a : α) : Gentle (pure a : EvalM α) where
  untouched _ m := .refl m
  free h := by
    cases h
    rfl

theorem outcome_lift (x : Run α) (calls : Int) (m : Machine) :
    ((liftM x : EvalM α).run calls).outcome m =
      ((x.outcome m).1.map (·, calls), (x.outcome m).2) := by
  show (x >>= fun a => pure (a, calls)).outcome m = _
  rcases hr : x.outcome m with ⟨fault | a, m'⟩
  · exact outcome_bind_error hr _
  · exact outcome_bind_ok hr _

theorem lift {x : Run α} (hx : ∀ m : Machine, m.Untouched (x.outcome m).2) :
    Gentle (liftM x : EvalM α) where
  untouched calls m := by
    rw [outcome_lift]
    exact hx m
  free {calls calls' m m' a} h := by
    rw [outcome_lift] at h
    rcases hr : x.outcome m with ⟨fault | b, m₁⟩ <;> rw [hr] at h <;> cases h
    rfl

theorem bind {x : EvalM α} {f : α → EvalM β} (hx : Gentle x) (hf : ∀ a, Gentle (f a)) :
    Gentle (x >>= f) where
  untouched calls m := by
    have hm := hx.untouched calls m
    rw [StateT.run_bind]
    rcases hr : (x.run calls).outcome m with ⟨fault | ⟨a, calls₁⟩, m₁⟩ <;> rw [hr] at hm
    · rw [outcome_bind_error hr]
      exact hm
    · rw [outcome_bind_ok hr]
      exact hm.trans ((hf a).untouched calls₁ m₁)
  free {calls calls' m m' b} h := by
    rw [StateT.run_bind] at h
    rcases hr : (x.run calls).outcome m with ⟨fault | ⟨a, calls₁⟩, m₁⟩
    · rw [outcome_bind_error hr] at h
      cases h
    · rw [outcome_bind_ok hr] at h
      exact ((hf a).free h).trans (hx.free hr)

theorem onHeap {act : HeapM α} (h : act.Adds) : Gentle (liftM (Run.onHeap act) : EvalM α) :=
  .lift fun m => by
    rw [outcome_onHeap]
    exact ⟨rfl, h m.heap⟩

theorem still {x : Run α} (hx : x.Still) : Gentle (liftM x : EvalM α) :=
  .lift fun m => by
    rw [hx m]
    exact .refl m

theorem whenTrue (v : Value) {x y : EvalM α} (hx : Gentle x) (hy : Gentle y) :
    Gentle (do if ← Run.isTrue v then x else y) :=
  (still fun _ => rfl).bind fun b => by cases b <;> assumption

theorem truthOf (w : Value) :
    Gentle (do pure (Operator.truth .braced (← Run.isTrue w)) : EvalM Value) :=
  (still fun _ => rfl).bind fun _ => value _

end Gentle

theorem Operator.adds_applyUnary (op : UnaryOp) (v : Value) : (applyUnary op v).Adds := by
  unfold applyUnary
  split
  · exact (HeapM.Adds.given _).bind fun _ => .identify _
  · split
    · exact .value _
    · exact .value _
    · exact (HeapM.Adds.given _).bind fun _ => .value _
  · exact HeapM.Adds.heap.bind fun _ => .value _
  · exact HeapM.Adds.heap.bind fun _ => .value _

section Evaluating

variable (host : Host) (scope : Scope)

theorem Run.Still.lookup (name : String) : (Eval.lookup scope name).Still := by
  unfold Eval.lookup
  cases scope.get? name <;> exact fun _ => rfl

mutual

/-- Evaluating an expression without calls only adds to the heap. -/
theorem gentle_eval : ∀ e : Expr, e.callFree = true → Gentle (Eval.eval host scope e)
  | .lit _, _ => by
    rw [Eval.eval]
    exact .value _
  | .var name, _ => by
    rw [Eval.eval]
    exact .still (.lookup scope name)
  | .list items, he => by
    rw [Expr.callFree] at he
    rw [Eval.eval]
    exact (gentle_evalAll items he).bind fun values => .onHeap (.newList values)
  | .unary op operand, he => by
    rw [Expr.callFree] at he
    rw [Eval.eval]
    exact (gentle_eval operand he).bind fun v => .onHeap (Operator.adds_applyUnary op v)
  | .binary op left right, he => by
    rw [Expr.callFree, Bool.and_eq_true] at he
    rw [Eval.eval]
    refine (gentle_eval left he.1).bind fun v => ?_
    have hw := gentle_eval right he.2
    cases op with
    | and => exact .whenTrue v hw (.value v)
    | or => exact .whenTrue v (.value v) hw
    | logicalAnd => exact .whenTrue v (hw.bind fun w => .truthOf w) (.value _)
    | logicalOr => exact .whenTrue v (.value _) (hw.bind fun w => .truthOf w)
    | _ => exact hw.bind fun w => .onHeap (Operator.adds_apply _ _ v w)
  | .index target position, he => by
    rw [Expr.callFree, Bool.and_eq_true] at he
    rw [Eval.eval]
    refine (gentle_eval target he.1).bind fun v => (gentle_eval position he.2).bind fun i =>
      .still fun m => ?_
    rw [outcome_fromHeap]
  | .call _ _, he => absurd he (by rw [Expr.callFree]; exact Bool.false_ne_true)
  | .method _ _ _, he => absurd he (by rw [Expr.callFree]; exact Bool.false_ne_true)

theorem gentle_evalAll : ∀ es : List Expr, Expr.allCallFree es = true →
    Gentle (Eval.evalAll host scope es)
  | [], _ => by
    rw [Eval.evalAll]
    exact .value []
  | e :: es, he => by
    rw [Expr.allCallFree, Bool.and_eq_true] at he
    rw [Eval.evalAll]
    exact (gentle_eval e he.1).bind fun v => (gentle_evalAll es he.2).bind fun values => .value _

end

end Evaluating

/-! ### Values of expressions -/

namespace Host

variable {host : Host} {scope : Scope} {e : Expr} {m m' : Machine} {v : Value}

/-- An expression is evaluated without a fault. -/
def Succeeds (host : Host) (scope : Scope) (e : Expr) (m : Machine) : Prop :=
  ∃ v m', ((Eval.eval host scope e).run' host.limits.maxCallsPerExpression).outcome m = (.ok v, m')

theorem succeeds_iff : host.Succeeds scope e m ↔
    ∃ v calls m', ((Eval.eval host scope e).run host.limits.maxCallsPerExpression).outcome m =
      (.ok (v, calls), m') := by
  rw [Succeeds, StateT.run'_eq, map_eq_pure_bind]
  rcases hr : ((Eval.eval host scope e).run host.limits.maxCallsPerExpression).outcome m with
    ⟨fault | ⟨v, calls⟩, m'⟩
  · rw [outcome_bind_error hr]
    exact ⟨fun ⟨_, _, h⟩ => (nomatch h), fun ⟨_, _, _, h⟩ => (nomatch h)⟩
  · rw [outcome_bind_ok hr]
    exact ⟨fun _ => ⟨v, calls, m', rfl⟩, fun _ => ⟨v, m', rfl⟩⟩

/-- A value comes out of an evaluation without a fault, or stands for a fault. -/
theorem evaluate_ok (h : (host.evaluate scope e).outcome m = (.ok v, m')) :
    (∃ calls, ((Eval.eval host scope e).run host.limits.maxCallsPerExpression).outcome m =
      (.ok (v, calls), m')) ∨
    (v = .unknown ∧ ∃ fault,
      ((Eval.eval host scope e).run host.limits.maxCallsPerExpression).outcome m =
        (.error fault, m')) := by
  rw [evaluate, outcome_recover, StateT.run'_eq, map_eq_pure_bind] at h
  rcases hr : ((Eval.eval host scope e).run host.limits.maxCallsPerExpression).outcome m with
    ⟨fault | ⟨w, calls⟩, m₁⟩
  · rw [outcome_bind_error hr] at h
    dsimp only at h
    split_ifs at h
    · cases h
      exact .inr ⟨rfl, fault, rfl⟩
    · cases h
  · rw [outcome_bind_ok hr] at h
    cases h
    exact .inl ⟨calls, rfl⟩

theorem untouched_evaluate (he : e.callFree = true)
    (h : (host.evaluate scope e).outcome m = (.ok v, m')) : m.Untouched m' := by
  have hm := (gentle_eval host scope e he).untouched host.limits.maxCallsPerExpression m
  rcases evaluate_ok h with ⟨calls, hr⟩ | ⟨-, fault, hr⟩ <;> rw [hr] at hm <;> exact hm

/-- To read an element is to evaluate its container, its index, and to take the item there. -/
theorem run_index {t i : Expr} {calls calls₁ : Int} {c : Value} {m₁ : Machine}
    (hc : ((Eval.eval host scope t).run calls).outcome m = (.ok (c, calls₁), m₁)) :
    ((Eval.eval host scope (.index t i)).run calls).outcome m =
      ((Eval.eval host scope i).run calls₁ >>= fun k =>
        (Run.fromHeap fun h => Operator.item host.dialect h c k.1) >>= fun w =>
          pure (w, k.2)).outcome m₁ := by
  rw [Eval.eval, StateT.run_bind, outcome_bind_ok hc]
  rfl

/-- The value of an element whose index is written out. -/
theorem evaluate_index_int {n : Int} {c w : Value}
    (hc : (host.evaluate scope e).outcome m = (.ok c, m')) (hne : c ≠ .unknown)
    (hitem : Operator.item host.dialect m'.heap c (.int n) = .ok w) :
    (host.evaluate scope (.index e (.lit (.int n)))).outcome m = (.ok w, m') := by
  rcases evaluate_ok hc with ⟨calls, hr⟩ | ⟨hu, -⟩
  · refine evaluate_of_run calls ?_
    rw [run_index hr, Eval.eval]
    show ((Run.fromHeap fun h => Operator.item host.dialect h c (.int n)) >>= fun w =>
      pure (w, calls)).outcome m' = _
    rw [outcome_bind_ok (by rw [outcome_fromHeap, hitem])]
    rfl
  · exact absurd hu hne

end Host

/-! ### What a write does -/

/-- The indices of a list. In the indented dialect negative ones count from the end. -/
def InRange (dialect : Dialect) (length : Nat) (n : Int) : Prop :=
  (if dialect = .indented then -(length : Int) ≤ n else 0 ≤ n) ∧ n < length

instance (dialect : Dialect) (length : Nat) (n : Int) : Decidable (InRange dialect length n) :=
  inferInstanceAs (Decidable (_ ∧ _))

/-- The position that an index means. -/
def positionOf (length : Nat) (n : Int) : Nat := (if n < 0 then length + n else n).toNat

/-- A value is a list, and another one is an index of it. -/
structure Heap.HasIndex (h : Heap) (dialect : Dialect) (c k : Value) (cell : Nat) (n : Int) :
    Prop where
  list : c = .list cell
  index : k.int? = some n
  inRange : InRange dialect (h.items cell).length n

/-- In the braced dialect, a variable holds a text, a value is an index of it, and another one is
the number of a code point. -/
structure TakesPoint (dialect : Dialect) (t : Expr) (c k v : Value) (name : String) (s : Text)
    (n p : Int) : Prop where
  braced : dialect = .braced
  holder : t = .var name
  text : c = .str s
  index : k.int? = some n
  inRange : 0 ≤ n ∧ n < s.length
  number : v.int? = some p
  isPoint : 0 ≤ p ∧ p ≤ 0x10FFFF

theorem Heap.HasIndex.unique {h : Heap} {dialect : Dialect} {c k : Value} {cell cell' : Nat}
    {n n' : Int} (hx : h.HasIndex dialect c k cell n) (hx' : h.HasIndex dialect c k cell' n') :
    cell' = cell ∧ n' = n := by
  have hcell := hx'.list.symm.trans hx.list
  have hindex := hx'.index.symm.trans hx.index
  cases hcell
  cases hindex
  exact ⟨rfl, rfl⟩

theorem TakesPoint.unique {dialect : Dialect} {t : Expr} {c k v : Value} {name name' : String}
    {s s' : Text} {n n' p p' : Int} (h : TakesPoint dialect t c k v name s n p)
    (h' : TakesPoint dialect t c k v name' s' n' p') :
    name' = name ∧ s' = s ∧ n' = n ∧ p' = p := by
  have hname := h'.holder.symm.trans h.holder
  have htext := h'.text.symm.trans h.text
  have hindex := h'.index.symm.trans h.index
  have hnumber := h'.number.symm.trans h.number
  cases hname
  cases htext
  cases hindex
  cases hnumber
  exact ⟨rfl, rfl, rfl, rfl⟩

/-- A list is no text. -/
theorem Heap.HasIndex.not_takesPoint {h : Heap} {dialect : Dialect} {t : Expr} {c k v : Value}
    {cell : Nat} {n : Int} (hx : h.HasIndex dialect c k cell n) (name : String) (s : Text)
    (n' p : Int) : ¬ TakesPoint dialect t c k v name s n' p :=
  fun h' => nomatch hx.list.symm.trans h'.text

/-- The machine with an item of a list replaced. -/
def Machine.withItem (m : Machine) (cell position : Nat) (v : Value) : Machine :=
  { m with heap := m.heap.write cell ((m.heap.items cell).set position v) }

/-- All that a write to an element can do once its container and its index are known. -/
inductive Writes (dialect : Dialect) (t : Expr) (c k v : Value) (scope : Scope) (m : Machine) :
    Bool → Scope → Machine → Prop
  | item {cell : Nat} {n : Int} : m.heap.HasIndex dialect c k cell n →
      Writes dialect t c k v scope m true scope
        (m.withItem cell (positionOf (m.heap.items cell).length n) v)
  | point {name : String} {s : Text} {n p : Int} (q : CodePoint) : (q.val : Int) = p →
      TakesPoint dialect t c k v name s n p →
      Writes dialect t c k v scope m true (scope.put name (.str (s.set n.toNat q))) m
  | nothing : (∀ cell n, ¬ m.heap.HasIndex dialect c k cell n) →
      (∀ name s n p, ¬ TakesPoint dialect t c k v name s n p) →
      Writes dialect t c k v scope m false scope m

section Writing

variable {dialect : Dialect} {t : Expr} {c k v w : Value}

theorem position?_eq (length : Nat) (n : Int) :
    Operator.position? length n =
      if -(length : Int) ≤ n ∧ n < length then some (positionOf length n) else none := by
  grind [Operator.position?, positionOf]

theorem InRange.position? {length : Nat} {n : Int} (h : InRange dialect length n) :
    Operator.position? length n = some (positionOf length n) ∧ positionOf length n < length := by
  grind [InRange, position?_eq, positionOf]

/-- Unless the index is negative in the braced dialect, there is a position exactly in the range. -/
theorem position?_eq_none {length : Nat} {n : Int} (hn : ¬ (dialect = .braced ∧ n < 0))
    (h : ¬ InRange dialect length n) : Operator.position? length n = none := by
  rw [position?_eq, if_neg]
  cases dialect <;> simp_all [InRange]

theorem not_inRange {length : Nat} {n : Int} (hn : dialect = .braced ∧ n < 0) :
    ¬ InRange dialect length n := by
  grind [InRange]

/-- The item that an index means. In the braced dialect it cannot be negative. -/
theorem item_list {h : Heap} {cell : Nat} {n : Int} (hk : k.int? = some n) :
    Operator.item dialect h (.list cell) k =
      if dialect = .braced ∧ n < 0 then .error .undefined
      else
        ((Operator.position? (h.items cell).length n).bind ((h.items cell)[·]?)).elim
          (.error .undefined) .ok := by
  unfold Operator.item
  rw [hk]
  dsimp only
  by_cases hneg : dialect = .braced ∧ n < 0
  · rw [if_pos hneg, if_pos hneg]
    rfl
  · rw [if_neg hneg, if_neg hneg]
    cases (Operator.position? (h.items cell).length n).bind ((h.items cell)[·]?) <;> rfl

/-- An item can be read exactly at an index. -/
theorem item_list_iff {h : Heap} {cell : Nat} :
    (∃ w, Operator.item dialect h (.list cell) k = .ok w) ↔
      ∃ n, h.HasIndex dialect (.list cell) k cell n := by
  cases hk : k.int? with
  | none =>
    unfold Operator.item
    rw [hk]
    exact ⟨fun ⟨_, h⟩ => (nomatch h), fun ⟨_, h⟩ => (nomatch hk.symm.trans h.index)⟩
  | some n =>
    rw [item_list hk]
    by_cases hneg : dialect = .braced ∧ n < 0
    · rw [if_pos hneg]
      refine ⟨fun ⟨_, h⟩ => (nomatch h), fun ⟨n', h⟩ => ?_⟩
      obtain rfl : n = n' := Option.some.inj (hk.symm.trans h.index)
      exact absurd h.inRange (not_inRange hneg)
    · rw [if_neg hneg]
      by_cases hr : InRange dialect (h.items cell).length n
      · obtain ⟨hposition, hlt⟩ := hr.position?
        rw [hposition, Option.bind_some, List.getElem?_eq_getElem hlt]
        exact ⟨fun _ => ⟨n, rfl, hk, hr⟩, fun _ => ⟨_, rfl⟩⟩
      · rw [position?_eq_none hneg hr, Option.bind_none]
        refine ⟨fun ⟨_, h⟩ => (nomatch h), fun ⟨n', h⟩ => ?_⟩
        obtain rfl : n = n' := Option.some.inj (hk.symm.trans h.index)
        exact absurd h.inRange hr

/-- The item at the index that was just written. -/
theorem item_of_set {h : Heap} {cell : Nat} {n : Int} {items : List Value}
    (hitems : h.items cell = items.set (positionOf items.length n) w)
    (hr : InRange dialect items.length n) :
    Operator.item dialect h (.list cell) (.int n) = .ok w := by
  obtain ⟨hposition, hlt⟩ := hr.position?
  have hneg : ¬ (dialect = .braced ∧ n < 0) := fun h => not_inRange h hr
  rw [item_list rfl, if_neg hneg, hitems, List.length_set, hposition, Option.bind_some,
    List.getElem?_set_self hlt]
  rfl

theorem item_text {h : Heap} {s : Text} {n : Int} {q : CodePoint} (hn : 0 ≤ n)
    (hq : s[n.toNat]? = some q) : Operator.item .braced h (.str s) (.int n) = .ok (.int q.val) := by
  have hlt := (List.getElem?_eq_some_iff.1 hq).1
  have hposition : Operator.position? s.length n = some n.toNat := by
    grind [position?_eq, positionOf]
  unfold Operator.item
  rw [show (Value.int n).int? = some n from rfl]
  dsimp only
  rw [if_neg (by omega), hposition, Option.bind_some, hq]
  rfl

theorem replacePoint?_eq_some {s s' : Text} {n : Int} (h : Host.replacePoint? s n v = some s') :
    ∃ q : CodePoint, v.int? = some (q.val : Int) ∧ n < s.length ∧ s' = s.set n.toNat q := by
  unfold Host.replacePoint? at h
  obtain ⟨q, hq, h⟩ := Option.bind_eq_some_iff.1 h
  obtain ⟨p, hp, hq⟩ := Option.bind_eq_some_iff.1 hq
  unfold CodePoint.ofInt? at hq
  split_ifs at h hq with hlt hpoint
  cases h
  cases hq
  exact ⟨_, by rw [hp]; exact congrArg some (Int.toNat_of_nonneg hpoint.1).symm, hlt, rfl⟩

theorem replacePoint?_of_takes {name : String} {s : Text} {n p : Int}
    (h : TakesPoint dialect t c k v name s n p) : (Host.replacePoint? s n v).isSome = true := by
  have hp : 0 ≤ p ∧ p < 0x110000 := ⟨h.isPoint.1, by have := h.isPoint.2; omega⟩
  simp [Host.replacePoint?, h.number, CodePoint.ofInt?, hp, h.inRange.2]

theorem outcome_storeItem (cell : Nat) (n : Int) (v : Value) (m : Machine) :
    (Host.storeItem cell n v).outcome m =
      (Operator.position? (m.heap.items cell).length n).elim (.ok false, m) fun i =>
        (.ok true, m.withItem cell i v) := by
  rw [Host.storeItem, outcome_bind_ok (outcome_get m)]
  dsimp only
  cases Operator.position? (m.heap.items cell).length n <;> rfl

theorem name?_eq_some {name : String} (h : t.name? = some name) : t = .var name := by
  cases t <;> cases h
  rfl

/-- What is written depends on the values of the container and of the index only. -/
theorem write_writes (dialect : Dialect) (t : Expr) (c k v : Value) (scope : Scope) (m : Machine) :
    ∃ written scope' m',
      ((Place.element c k t.name?).write dialect v scope).outcome m =
        (.ok (written, scope'), m') ∧
      Writes dialect t c k v scope m written scope' m' := by
  rw [Place.write]
  cases hk : k.int? with
  | none =>
    have hindex (n : Int) : k.int? ≠ some n := by rw [hk]; rintro ⟨⟩
    exact ⟨false, scope, m, rfl, .nothing (fun _ n h => hindex n h.index)
      fun _ _ n _ h => hindex n h.index⟩
  | some n =>
    have hindex {n' : Int} (h : k.int? = some n') : n = n' := Option.some.inj (hk.symm.trans h)
    rw [Option.elim_some]
    unfold Place.writeAt
    by_cases hneg : dialect = .braced ∧ n < 0
    · rw [if_pos hneg]
      refine ⟨false, scope, m, rfl, .nothing (fun _ _ h => ?_) fun _ _ _ _ h => ?_⟩
      · obtain rfl := hindex h.index
        exact not_inRange hneg h.inRange
      · obtain rfl := hindex h.index
        exact absurd h.inRange.1 (by omega)
    · rw [if_neg hneg]
      split
      · rename_i cell
        have hother : ∀ name s n p, ¬ TakesPoint dialect t (.list cell) k v name s n p := by
          intro name s n p h
          cases h.text
        by_cases hr : InRange dialect (m.heap.items cell).length n
        · refine ⟨true, scope, _, ?_, .item ⟨rfl, hk, hr⟩⟩
          rw [outcome_bind_ok (by rw [outcome_storeItem, hr.position?.1]; rfl)]
          rfl
        · refine ⟨false, scope, m, ?_, .nothing (fun cell' n' h => hr ?_) hother⟩
          · rw [outcome_bind_ok (by rw [outcome_storeItem, position?_eq_none hneg hr]; rfl)]
            rfl
          · cases h.list
            exact hindex h.index ▸ h.inRange
      · rename_i s name hname
        have hother : ∀ cell n, ¬ m.heap.HasIndex dialect (.str s) k cell n := by
          intro cell n h
          cases h.list
        by_cases hd : dialect = .braced
        · rw [if_pos hd, Place.writePoint]
          cases hrep : Host.replacePoint? s n v with
          | none =>
            refine ⟨false, scope, m, rfl, .nothing hother fun _ _ _ _ h => ?_⟩
            cases h.text
            obtain rfl := hindex h.index
            have hsome := replacePoint?_of_takes h
            rw [hrep] at hsome
            cases hsome
          | some s' =>
            obtain ⟨q, hq, hlt, rfl⟩ := replacePoint?_eq_some hrep
            have hpoint : (0 : Int) ≤ q.val ∧ (q.val : Int) ≤ 0x10FFFF := by
              have := q.isLt
              omega
            exact ⟨true, _, m, rfl, .point q rfl ⟨hd, name?_eq_some hname, rfl, hk,
              ⟨by grind, hlt⟩, hq, hpoint⟩⟩
        · rw [if_neg hd]
          exact ⟨false, scope, m, rfl, .nothing hother fun _ _ _ _ h => hd h.braced⟩
      · rename_i hlist htext
        refine ⟨false, scope, m, rfl, .nothing (fun _ _ h => hlist _ h.list) fun name s _ _ h => ?_⟩
        exact htext s name h.text (by rw [h.holder]; rfl)

end Writing

/-! ### The effect of a write -/

/-- An item of one list is replaced, and all else is as it was. -/
structure ListWritten (host : Host) (scope : Scope) (m m' : Machine) (cell : Nat) (n : Int)
    (v : Value) : Prop where
  recorder : m'.recorder = m.recorder
  lists : ∀ (other : Nat) (items : List Value), m.heap.cells[other]? = some items →
    m'.heap.cells[other]? =
      some (if other = cell then items.set (positionOf items.length n) v else items)
  /-- Whatever denotes the list shows the new item: a variable, an element of another list, … -/
  seen : ∀ e : Expr, e.callFree = true → ∀ m'' : Machine,
    (host.evaluate scope e).outcome m' = (.ok (.list cell), m'') →
      (host.evaluate scope (.index e (.lit (.int n)))).outcome m' = (.ok v, m'')

/-- A code point of the text in one variable is replaced, and all else is as it was. -/
structure TextWritten (host : Host) (scope scope' : Scope) (m m' : Machine) (name : String)
    (s : Text) (n p : Int) : Prop where
  untouched : m.Untouched m'
  names : scope'.entries.map Prod.fst = scope.entries.map Prod.fst
  others : ∀ x, x ≠ name → scope'.get? x = scope.get? x
  text : ∃ s' : Text, scope'.get? name = some (.str s') ∧ s'.length = s.length ∧
    ∀ j : Nat, (j : Int) ≠ n → s'[j]? = s[j]?
  read : (host.evaluate scope' (.index (.var name) (.lit (.int n)))).outcome m' =
    (.ok (.int p), m')

theorem Table.map_fst_put {name : String} {old : α} (value : α) : ∀ {entries : List (String × α)},
    entries.lookup name = some old →
      (putIn name value entries).map Prod.fst = entries.map Prod.fst
  | [], h => by cases h
  | (n, w) :: rest, h => by
    rw [putIn]
    split_ifs with hn
    · rfl
    · rw [List.lookup_cons, show (name == n) = false by grind] at h
      rw [List.map_cons, List.map_cons, map_fst_put value h]

section Effects

variable {host : Host} {scope : Scope} {t i : Expr} {c k v : Value} {m m₁ m₂ : Machine}

theorem listWritten {cell : Nat} {n : Int} (hm : m.Untouched m₂)
    (h : m₂.heap.HasIndex host.dialect c k cell n) :
    ListWritten host scope m
      (m₂.withItem cell (positionOf (m₂.heap.items cell).length n) v) cell n v := by
  have hlt := h.inRange.position?.2
  have hcell := Heap.lt_size_of_lt_length hlt
  refine ⟨hm.recorder, fun other items hitems => ?_, fun e he m'' hlist => ?_⟩
  · have hitems' := hm.lists other items hitems
    have hsame : other = cell → m₂.heap.items cell = items := by
      rintro rfl
      rw [Heap.items, Array.getD_eq_getD_getElem?, hitems']
      rfl
    show (m₂.heap.cells.setIfInBounds cell _)[other]? = _
    rw [Array.getElem?_setIfInBounds]
    split_ifs with hc ho ho
    · rw [hsame ho]
    · exact absurd hc.symm ho
    · exact absurd ho.symm hc
    · exact hitems'
  · have hwritten : (m₂.withItem cell (positionOf (m₂.heap.items cell).length n) v).heap.items cell
        = (m₂.heap.items cell).set (positionOf (m₂.heap.items cell).length n) v := by
      rw [Machine.withItem, Heap.items_write, if_pos ⟨rfl, hcell⟩]
    have hne : (m₂.withItem cell (positionOf (m₂.heap.items cell).length n) v).heap.items cell
        ≠ [] := by
      rw [hwritten]
      exact List.ne_nil_of_length_pos (by rw [List.length_set]; omega)
    refine Host.evaluate_index_int hlist (by rintro ⟨⟩) (item_of_set ?_ h.inRange)
    rw [(Host.untouched_evaluate he hlist).lists.items_eq hne, hwritten]

theorem get?_of_evaluate {name : String} {s : Text}
    (h : (host.evaluate scope (.var name)).outcome m = (.ok (.str s), m₁)) :
    scope.get? name = some (.str s) := by
  rw [host.evaluate_eq_current] at h
  change (pure ((scope.get? name).getD .unknown) : Run Value).outcome m = _ at h
  cases hv : scope.get? name with
  | none =>
    rw [hv] at h
    cases h
  | some w =>
    rw [hv] at h
    cases h
    rfl

theorem textWritten {name : String} {s : Text} {n p : Int} {q : CodePoint} (hq : (q.val : Int) = p)
    (hm : m.Untouched m₂) (hget : scope.get? name = some (.str s))
    (h : TakesPoint host.dialect t c k v name s n p) :
    TextWritten host scope (scope.put name (.str (s.set n.toNat q))) m m₂ name s n p := by
  obtain ⟨hn, hlt⟩ := h.inRange
  have hput : (scope.put name (.str (s.set n.toNat q))).get? name =
      some (.str (s.set n.toNat q)) := by
    rw [Table.get?_put, if_pos rfl]
  refine ⟨hm, Table.map_fst_put _ hget, fun x hx => ?_, ⟨_, hput, List.length_set, ?_⟩, ?_⟩
  · rw [Table.get?_put, if_neg hx]
  · intro j hj
    rw [List.getElem?_set_ne]
    omega
  · refine Host.evaluate_index_int (c := .str (s.set n.toNat q)) ?_ nofun ?_
    · exact Host.evaluate_of_fixed hput
    · rw [h.braced, ← hq]
      exact item_text hn (List.getElem?_set_self (by omega))

/-- A list and an index were found exactly if the element can be read. -/
theorem succeeds_index_iff {cell : Nat} (ht : t.callFree = true)
    (hc : (host.evaluate scope t).outcome m = (.ok (.list cell), m₁))
    (hk : (host.evaluate scope i).outcome m₁ = (.ok k, m₂)) :
    host.Succeeds scope (.index t i) m ↔
      ∃ n, m₂.heap.HasIndex host.dialect (.list cell) k cell n := by
  obtain ⟨calls, hrun⟩ := (Host.evaluate_ok hc).resolve_right fun h => nomatch h.1
  obtain rfl := (gentle_eval host scope t ht).free hrun
  rw [Host.succeeds_iff, Host.run_index hrun, ← item_list_iff]
  rcases Host.evaluate_ok hk with ⟨calls', hrun'⟩ | ⟨rfl, fault, hrun'⟩
  · have hread := outcome_fromHeap (Operator.item host.dialect · (.list cell) k) m₂
    rw [outcome_bind_ok hrun']
    rcases hitem : Operator.item host.dialect m₂.heap (.list cell) k with fault | w <;>
      rw [hitem] at hread
    · rw [outcome_bind_error hread]
      exact ⟨fun ⟨_, _, _, h⟩ => (nomatch h), fun ⟨_, h⟩ => (nomatch h)⟩
    · rw [outcome_bind_ok hread]
      exact ⟨fun _ => ⟨w, rfl⟩, fun _ => ⟨w, calls', m₂, rfl⟩⟩
  · rw [outcome_bind_error hrun']
    exact ⟨fun ⟨_, _, _, h⟩ => (nomatch h), fun ⟨_, h⟩ => (nomatch h)⟩

end Effects

/-- A write to an element whose container and index have the values `c` and `k`, and in which
nothing is called, succeeds exactly if it is about an item of a list or a code point of the text in
a variable. That item or code point is all that it changes, and if it fails it changes nothing. A
list takes a value exactly where it has one. -/
theorem store_element {host : Host} {scope : Scope} {t i : Expr} {c k : Value} {m m₁ m₂ : Machine}
    (v : Value) (ht : t.callFree = true) (hi : i.callFree = true)
    (hc : (host.evaluate scope t).outcome m = (.ok c, m₁))
    (hk : (host.evaluate scope i).outcome m₁ = (.ok k, m₂)) :
    ∃ (written : Bool) (scope' : Scope) (m' : Machine),
      (host.store (.index t i) v scope).outcome m = (.ok (written, scope'), m') ∧
      (written = true ↔ (∃ cell n, m₂.heap.HasIndex host.dialect c k cell n) ∨
        ∃ name s n p, TakesPoint host.dialect t c k v name s n p) ∧
      (∀ cell n, m₂.heap.HasIndex host.dialect c k cell n →
        scope' = scope ∧ ListWritten host scope m m' cell n v) ∧
      (∀ name s n p, TakesPoint host.dialect t c k v name s n p →
        TextWritten host scope scope' m m' name s n p) ∧
      (written = false → scope' = scope ∧ m.Untouched m') ∧
      ∀ cell, c = .list cell → (written = true ↔ host.Succeeds scope (.index t i) m) := by
  have hm : m.Untouched m₂ :=
    (Host.untouched_evaluate ht hc).trans (Host.untouched_evaluate hi hk)
  have hlocate : (host.locate scope (.index t i)).outcome m =
      (.ok (.element c k t.name?), m₂) := by
    rw [Host.locate, outcome_bind_ok hc, outcome_bind_ok hk]
    rfl
  obtain ⟨written, scope', m', hrun, hwrites⟩ := write_writes host.dialect t c k v scope m₂
  refine ⟨written, scope', m', by rw [host.store_eq, outcome_bind_ok hlocate, hrun], ?_⟩
  have hreads (cell : Nat) (hlist : c = .list cell) : host.Succeeds scope (.index t i) m ↔
      ∃ n, m₂.heap.HasIndex host.dialect c k cell n := by
    subst hlist
    exact succeeds_index_iff ht hc hk
  cases hwrites with
  | item h =>
    refine ⟨iff_of_true rfl (.inl ⟨_, _, h⟩), fun cell n h' => ?_,
      fun name s n p h' => absurd h' (h.not_takesPoint name s n p), by rintro ⟨⟩,
      fun cell hlist => ?_⟩
    · obtain ⟨rfl, rfl⟩ := h.unique h'
      exact ⟨rfl, listWritten hm h⟩
    · obtain rfl : _ = cell := Value.list.inj (h.list.symm.trans hlist)
      exact iff_of_true rfl ((hreads _ hlist).2 ⟨_, h⟩)
  | point q hq h =>
    refine ⟨iff_of_true rfl (.inr ⟨_, _, _, _, h⟩),
      fun cell n h' => absurd h (h'.not_takesPoint _ _ _ _), fun name s n p h' => ?_, by rintro ⟨⟩,
      fun cell hlist => ?_⟩
    · obtain ⟨rfl, rfl, rfl, rfl⟩ := h.unique h'
      rw [h.holder, h.text] at hc
      exact textWritten hq hm (get?_of_evaluate hc) h
    · cases hlist.symm.trans h.text
  | nothing hlist htext =>
    refine ⟨iff_of_false Bool.false_ne_true ?_, fun cell n h => absurd h (hlist cell n),
      fun name s n p h => absurd h (htext name s n p), fun _ => ⟨rfl, hm⟩, fun cell hc => ?_⟩
    · rintro (⟨cell, n, h⟩ | ⟨name, s, n, p, h⟩)
      · exact hlist cell n h
      · exact htext name s n p h
    · exact iff_of_false Bool.false_ne_true fun h => Exists.elim ((hreads cell hc).1 h) (hlist cell)

/-- A list of two integers that two variables share, also as an item of another list. -/
def sharedLists : Machine := { heap := { cells := #[[.int 1, .int 2], [.list 0, .int 7]] } }

/-- Variables of which two hold the same list. -/
def sharedScope : Scope :=
  Table.ofList [("a", .list 0), ("b", .list 0), ("d", .list 1), ("word", .str "cat")]

/-- `d[0][-1] = 9` in the one dialect, which the variable `b` shows too, and `word[0] = 98` in the
other. -/
theorem store_element_shared :
    let A := lonelyHost .indented
    let B := lonelyHost .braced
    let t : Expr := .index (.var "d") (.lit (.int 0))
    (∃ m', (A.store (.index t (.lit (.int (-1)))) (.int 9) sharedScope).outcome sharedLists =
        (.ok (true, sharedScope), m') ∧
      ListWritten A sharedScope sharedLists m' 0 (-1) (.int 9) ∧
      (A.evaluate sharedScope (.index (.var "b") (.lit (.int (-1))))).outcome m' =
        (.ok (.int 9), m')) ∧
    ∃ scope' m', (B.store (.index (.var "word") (.lit (.int 0))) (.int 98) sharedScope).outcome
        sharedLists = (.ok (true, scope'), m') ∧
      TextWritten B sharedScope scope' sharedLists m' "word" "cat" 0 98 := by
  intro A B t
  constructor
  · have hc : (A.evaluate sharedScope t).outcome sharedLists = (.ok (.list 0), sharedLists) :=
      Host.evaluate_of_fixed rfl
    have hk : (A.evaluate sharedScope (.lit (.int (-1)))).outcome sharedLists =
        (.ok (.int (-1)), sharedLists) := Host.evaluate_of_fixed rfl
    have hindex : sharedLists.heap.HasIndex A.dialect (.list 0) (.int (-1)) 0 (-1) :=
      ⟨rfl, rfl, by decide⟩
    obtain ⟨written, scope', m', hrun, hwritten, hlist, -⟩ := store_element (.int 9) rfl rfl hc hk
    obtain ⟨rfl, hlists⟩ := hlist 0 (-1) hindex
    obtain rfl := hwritten.2 (.inl ⟨0, -1, hindex⟩)
    exact ⟨m', hrun, hlists, hlists.seen (.var "b") rfl m' (Host.evaluate_of_fixed rfl)⟩
  · have hc : (B.evaluate sharedScope (.var "word")).outcome sharedLists =
        (.ok (.str "cat"), sharedLists) := Host.evaluate_of_fixed rfl
    have hk : (B.evaluate sharedScope (.lit (.int 0))).outcome sharedLists =
        (.ok (.int 0), sharedLists) := Host.evaluate_of_fixed rfl
    have hpoint : TakesPoint B.dialect (.var "word") (.str "cat") (.int 0) (.int 98) "word" "cat" 0
        98 := ⟨rfl, rfl, rfl, rfl, by decide, rfl, by decide⟩
    obtain ⟨written, scope', m', hrun, hwritten, -, htext, -⟩ :=
      store_element (.int 98) rfl rfl hc hk
    obtain rfl := hwritten.2 (.inr ⟨_, _, _, _, hpoint⟩)
    exact ⟨scope', m', hrun, htext _ _ _ _ hpoint⟩

end Stepwise
