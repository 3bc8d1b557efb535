import Mathlib.Data.List.FinRange
import Mathlib.Logic.Equiv.Fin.Rotate
import Mathlib.Logic.Equiv.Fintype
import Mathlib.Tactic.FinCases
import Stepwise.Eval.Session
import Stepwise.Proofs.ElementStores
import Stepwise.Proofs.Tuples

/-!
# Permutations by assignment

A tuple assignment reads all the sources before it writes the first target, but the indices of the
targets are evaluated between the writes. They come to the same as before if they do not depend on
any list (`IndexMeans.fixed?`), so the writes go to the positions that the sources were read from.
Writes to different places do not disturb each other (`read_writes`). Hence nothing is lost and
nothing doubled, whatever the permutation (`simple_permutes`).
-/

namespace Stepwise

open Run Source Text Token

variable {host : Host} {scope : Scope} {m : Machine} {n : Nat}

theorem Run.outcome_mapM {α β : Type} {f : α → Run β} {g : α → Except Fault β}
    (h : ∀ a, (f a).outcome m = (g a, m)) : ∀ l : List α, (l.mapM f).outcome m = (l.mapM g, m)
  | [] => rfl
  | a :: l => by
    have ha := h a
    have hl := outcome_mapM h l
    rw [List.mapM_cons, List.mapM_cons]
    rcases hga : g a with fault | b <;> rw [hga] at ha
    · rw [outcome_bind_error ha]
      rfl
    rcases hgl : l.mapM g with fault | bs <;> rw [hgl] at hl
    · rw [outcome_bind_ok ha, outcome_bind_error hl]
      rfl
    · rw [outcome_bind_ok ha, outcome_bind_ok hl]
      rfl

/-! ### Writes to different places -/

/-- After writes to different places each of them holds what was written to it, and all else is as
it was. -/
theorem read_writes {σ κ ν : Type} [DecidableEq κ] (read : σ → κ → Option ν)
    (write : σ → κ × ν → σ) (valid : σ → κ → Prop)
    (hread : ∀ s w k, valid s w.1 → read (write s w) k = if k = w.1 then some w.2 else read s k)
    (hvalid : ∀ s w k, valid s k → valid (write s w) k) :
    ∀ {writes : List (κ × ν)} {s : σ}, (∀ w ∈ writes, valid s w.1) →
      (writes.map Prod.fst).Nodup →
        (∀ w ∈ writes, read (writes.foldl write s) w.1 = some w.2) ∧
          ∀ k ∉ writes.map Prod.fst, read (writes.foldl write s) k = read s k
  | [], _, _, _ => ⟨List.forall_mem_nil _, fun _ _ => rfl⟩
  | w :: writes, s, hs, hnodup => by
    rw [List.forall_mem_cons] at hs
    rw [List.map_cons, List.nodup_cons] at hnodup
    obtain ⟨hmem, hother⟩ := read_writes read write valid hread hvalid
      (fun w' hw' => hvalid s w _ (hs.2 w' hw')) hnodup.2
    rw [List.foldl_cons, List.forall_mem_cons, List.map_cons]
    refine ⟨⟨?_, hmem⟩, fun k hk => ?_⟩
    · rw [hother w.1 hnodup.1, hread s w _ hs.1, if_pos rfl]
    · rw [List.mem_cons, not_or] at hk
      rw [hother k hk.2, hread s w _ hs.1, if_neg hk.1]

/-- The variables after several writes. -/
def Table.puts (t : Table Value) (writes : List (String × Value)) : Table Value :=
  writes.foldl (fun t w => t.put w.1 w.2) t

theorem Table.get?_puts (t : Table Value) {writes : List (String × Value)}
    (h : (writes.map Prod.fst).Nodup) :
    (∀ w ∈ writes, (t.puts writes).get? w.1 = some w.2) ∧
      ∀ name ∉ writes.map Prod.fst, (t.puts writes).get? name = t.get? name :=
  read_writes get? (fun t w => t.put w.1 w.2) (fun _ _ => True)
    (fun t w name _ => get?_put t w.1 w.2 name) (fun _ _ _ => id) (fun _ _ => trivial) h

/-- Writing variables that are there keeps their order. -/
theorem Table.map_fst_puts : ∀ {writes : List (String × Value)} {t : Table Value},
    (∀ w ∈ writes, (t.get? w.1).isSome = true) →
      (t.puts writes).entries.map Prod.fst = t.entries.map Prod.fst
  | [], _, _ => rfl
  | (name, v) :: writes, t, h => by
    rw [List.forall_mem_cons] at h
    obtain ⟨old, hold⟩ := Option.isSome_iff_exists.1 h.1
    have hrest : ∀ w ∈ writes, ((t.put name v).get? w.1).isSome = true := by
      intro w hw
      rw [get?_put]
      split_ifs
      · rfl
      · exact h.2 w hw
    exact (map_fst_puts hrest).trans (map_fst_put v hold)

/-- The items of a list after several writes. -/
def sets (items : List Value) (writes : List (Nat × Value)) : List Value :=
  writes.foldl (fun items w => items.set w.1 w.2) items

theorem length_sets (items : List Value) (writes : List (Nat × Value)) :
    (sets items writes).length = items.length := by
  induction writes generalizing items with
  | nil => rfl
  | cons w writes ih => exact (ih _).trans List.length_set

theorem getElem?_sets (items : List Value) {writes : List (Nat × Value)}
    (hlt : ∀ w ∈ writes, w.1 < items.length) (h : (writes.map Prod.fst).Nodup) :
    (∀ w ∈ writes, (sets items writes)[w.1]? = some w.2) ∧
      ∀ j ∉ writes.map Prod.fst, (sets items writes)[j]? = items[j]? := by
  refine read_writes (fun (items : List Value) j => items[j]?) (fun items w => items.set w.1 w.2)
    (fun items j => j < items.length) (fun items w j hw => ?_) (fun items w j hj => ?_) hlt h
  · rw [List.getElem?_set]
    grind
  · rwa [List.length_set]

theorem Heap.write_items (h : Heap) (cell : Nat) : h.write cell (h.items cell) = h := by
  have hcells : h.cells.setIfInBounds cell (h.items cell) = h.cells := by
    refine Array.ext_getElem? fun i => ?_
    rw [Array.getElem?_setIfInBounds, items, Array.getD_eq_getD_getElem?]
    grind
  rw [write, hcells]

theorem Heap.write_write (h : Heap) (cell : Nat) (items items' : List Value) :
    (h.write cell items).write cell items' = h.write cell items' := by
  simp [Heap.write]

namespace Indented

/-- Nothing prevents an assignment from being recorded: there is a step left, and the values and
the variables can be shown. -/
structure Recordable (host : Host) (values : List Value) (scope : Scope) (m : Machine) : Prop where
  budget : (m.recorder.stepCount + 1 : Nat) ≤ host.limits.maxSteps
  described : ∀ v ∈ values, ∃ text, describe m.heap v = .ok text
  shown : ∃ bindings, m.heap.snapshotScope scope = .ok bindings

/-- Recording an assignment changes no list and returns the variables it is given, if it can. -/
theorem outcome_reported (hd : host.dialect = .indented) (line : Nat) (target : List Char)
    (values : List Value) (scope : Scope) (m : Machine) :
    ((reported host line target values scope).outcome m).2.heap = m.heap ∧
      ∀ s, ((reported host line target values scope).outcome m).1 = .ok s ↔
        s = scope ∧ Recordable host values scope m := by
  have hdescribe : (values.mapM host.describe).outcome m =
      (values.mapM (describe m.heap), m) := by
    refine outcome_mapM (fun v => ?_) values
    rw [Host.describe, outcome_fromHeap, hd]
  rcases Heap.mapM_ok_or_error (describe m.heap) values with
    ⟨texts, htexts, hdescribed⟩ | ⟨fault, hfault, v, hv, hundescribed⟩
  · have hstep := Record.outcome_step host.limits line .assignment
      (s!"{String.ofList target} = " ++ joined ", " texts) scope m
    rw [htexts] at hdescribe
    rw [reported, Host.describeAll, bind_assoc, outcome_bind_ok hdescribe, pure_bind]
    split_ifs at hstep with hbudget
    · rw [Host.record, outcome_bind_error hstep]
      refine ⟨rfl, fun s => ⟨fun h => (by cases h), fun h => ?_⟩⟩
      exact absurd hbudget (Int.not_lt.2 h.2.budget)
    split at hstep
    · rename_i fault hsnapshot
      rw [Host.record, outcome_bind_error hstep]
      refine ⟨rfl, fun s => ⟨fun h => (by cases h), fun h => ?_⟩⟩
      obtain ⟨bindings, hbindings⟩ := h.2.shown
      rw [hsnapshot] at hbindings
      cases hbindings
    · rename_i bindings hsnapshot
      rw [Host.record, outcome_bind_ok hstep]
      refine ⟨rfl, fun s => ⟨fun h => ?_, fun h => (by rw [h.1]; rfl)⟩⟩
      cases h
      exact ⟨rfl, Int.not_lt.1 hbudget, hdescribed, bindings, hsnapshot⟩
  · rw [hfault] at hdescribe
    rw [reported, Host.describeAll, bind_assoc, outcome_bind_error hdescribe]
    refine ⟨rfl, fun s => ⟨fun h => (by cases h), fun h => ?_⟩⟩
    obtain ⟨text, htext⟩ := h.2.described v hv
    rw [hundescribed] at htext
    cases htext

end Indented

theorem forall₂_ofFn {α β : Type} {R : α → β → Prop} {f : Fin n → α} {g : Fin n → β}
    (h : ∀ i, R (f i) (g i)) : List.Forall₂ R (List.ofFn f) (List.ofFn g) := by
  rw [List.forall₂_iff_get]
  refine ⟨by simp, fun i hi hi' => ?_⟩
  simp [h]

theorem zip_ofFn {α β : Type} (f : Fin n → α) (g : Fin n → β) :
    (List.ofFn f).zip (List.ofFn g) = List.ofFn fun i => (f i, g i) := by
  refine List.ext_getElem (by simp) fun i hi hi' => ?_
  simp

namespace Host

theorem outcome_evaluateText {text : List Char} {e : Expr} {v : Value}
    (hd : host.dialect = .indented) (h : Part text e)
    (hv : e.fixed? .indented m.heap scope = some v) :
    (host.evaluateText scope text).outcome m = (.ok v, m) := by
  unfold evaluateText
  dsimp only
  rw [h.piece.trimmed, if_neg (by simp [h.piece.nonempty]), hd, h.parse]
  exact evaluate_of_fixed (hd ▸ hv)

theorem outcome_evaluateTexts (hd : host.dialect = .indented) {texts : List (List Char)}
    {values : List Value} (h : List.Forall₂ (fun text v => ∃ e, Part text e ∧
      e.fixed? .indented m.heap scope = some v) texts values) :
    (host.evaluateTexts scope texts).outcome m = (.ok values, m) := by
  induction h with
  | nil => rfl
  | cons hv _ ih =>
    obtain ⟨e, hpart, hv⟩ := hv
    rw [evaluateTexts, outcome_bind_ok (outcome_evaluateText hd hpart hv), outcome_bind_ok ih]
    rfl

theorem storeEach_vars (host : Host) : ∀ (writes : List (String × Value)) (scope : Scope),
    host.storeEach (writes.map fun w => (.var w.1, w.2)) scope = pure (scope.puts writes)
  | [], _ => rfl
  | (name, v) :: writes, scope => by
    rw [List.map_cons, storeEach]
    show host.storeEach (writes.map fun w => (.var w.1, w.2)) (scope.put name v) = _
    rw [storeEach_vars host writes]
    rfl

/-- Storing an element replaces one item of the list and leaves the variables. -/
theorem outcome_store_element {name : String} {cell : Nat} {e : Expr} {k : Int}
    (hd : host.dialect = .indented) (hlist : scope.get? name = some (.list cell))
    (hk : IndexMeans scope e k) (hr : InRange .indented (m.heap.items cell).length k) (v : Value) :
    (host.store (.index (.var name) e) v scope).outcome m =
      (.ok (true, scope), m.withItem cell (positionOf (m.heap.items cell).length k) v) := by
  have hbase : (host.evaluate scope (.var name)).outcome m = (.ok (.list cell), m) :=
    evaluate_of_fixed hlist
  have hindex : (host.evaluate scope e).outcome m = (.ok (.int k), m) :=
    evaluate_of_fixed (hd ▸ hk.fixed? m.heap)
  have hitem : (storeItem cell k v).outcome m =
      (.ok true, m.withItem cell (positionOf (m.heap.items cell).length k) v) := by
    rw [outcome_storeItem, hr.position?.1]
    rfl
  rw [store_eq, locate, bind_assoc, outcome_bind_ok hbase, bind_assoc, outcome_bind_ok hindex,
    pure_bind]
  show (Place.writeAt host.dialect (.list cell) (some name) v scope k).outcome m = _
  unfold Place.writeAt
  rw [if_neg (by simp [hd]), outcome_bind_ok hitem]
  rfl

/-- The indices of the targets do not depend on the list, so the writes are those to the positions
that they meant before the first one. -/
theorem outcome_storeEach_elements {name : String} {cell : Nat} (hd : host.dialect = .indented)
    (hlist : scope.get? name = some (.list cell)) :
    ∀ {writes : List (Expr × Int × Value)} {m : Machine},
      (∀ w ∈ writes, IndexMeans scope w.1 w.2.1 ∧
        InRange .indented (m.heap.items cell).length w.2.1) →
      (host.storeEach (writes.map fun w => (.index (.var name) w.1, w.2.2)) scope).outcome m =
        (.ok scope, { m with heap := m.heap.write cell (sets (m.heap.items cell)
          (writes.map fun w => (positionOf (m.heap.items cell).length w.2.1, w.2.2))) })
  | [], m, _ => by
    show _ = (_, { m with heap := m.heap.write cell (m.heap.items cell) })
    rw [Heap.write_items]
    rfl
  | (e, k, v) :: writes, m, h => by
    obtain ⟨⟨hk, hr⟩, hrest⟩ := List.forall_mem_cons.1 h
    have hlt := hr.position?.2
    have hcell := Heap.lt_size_of_lt_length hlt
    have hitems : (m.withItem cell (positionOf (m.heap.items cell).length k) v).heap.items cell =
        (m.heap.items cell).set (positionOf (m.heap.items cell).length k) v := by
      rw [Machine.withItem, Heap.items_write, if_pos ⟨rfl, hcell⟩]
    rw [List.map_cons, storeEach, outcome_bind_ok (outcome_store_element hd hlist hk hr v)]
    dsimp only
    rw [outcome_storeEach_elements hd hlist (by rw [hitems, List.length_set]; exact hrest), hitems,
      List.length_set, Machine.withItem, Heap.write_write]
    rfl

end Host

namespace Indented

/-- The assignment of the parts to themselves in another order. -/
def permutation (part : Fin n → List Char) (p : Equiv.Perm (Fin n)) : List Char :=
  tupleAssignment (List.ofFn part) (List.ofFn fun i => part (p i))

/-- The assignment of the parts, which have these values, to themselves in another order leaves
these variables and lists. -/
structure Assigns (host : Host) (line : Nat) (part : Fin n → List Char) (p : Equiv.Perm (Fin n))
    (v : Fin n → Value) (scope : Scope) (m : Machine) (scope' : Scope) (heap : Heap) : Prop where
  /-- What is left to do is to describe the values and to record the step. -/
  reports : (simple host line (permutation part p) scope).outcome m =
    (reported host line (tupleText (List.ofFn part)) (List.ofFn fun i => v (p i)) scope').outcome
      { m with heap }
  /-- These are the lists, whether or not that can be done. -/
  lists : ((simple host line (permutation part p) scope).outcome m).2.heap = heap
  /-- The statement returns exactly if it can, and then these variables. -/
  returns : ∀ s, ((simple host line (permutation part p) scope).outcome m).1 = .ok s ↔
    s = scope' ∧ Recordable host (List.ofFn fun i => v (p i)) scope' { m with heap }

/-- All the values are read before the first one is written. -/
theorem permutation_assigns (hd : host.dialect = .indented) (line : Nat) (hn : 2 ≤ n)
    (p : Equiv.Perm (Fin n)) {part : Fin n → List Char} {e : Fin n → Expr} {v : Fin n → Value}
    {scope' : Scope} {heap : Heap} (hpart : ∀ i, Part (part i) (e i))
    (hv : ∀ i, (e i).fixed? .indented m.heap scope = some (v i))
    (hstore : (host.storeEach (List.ofFn fun i => (e i, v (p i))) scope).outcome m =
      (.ok scope', { m with heap })) :
    Assigns host line part p v scope m scope' heap := by
  have hsources : ∀ t ∈ List.ofFn fun i => part (p i), Piece t := by
    intro t ht
    obtain ⟨i, rfl⟩ := List.mem_ofFn.1 ht
    exact (hpart (p i)).piece
  have hvalues : (host.evaluateTexts scope (List.ofFn fun i => part (p i))).outcome m =
      (.ok (List.ofFn fun i => v (p i)), m) :=
    Host.outcome_evaluateTexts hd (forall₂_ofFn fun i => ⟨_, hpart (p i), hv (p i)⟩)
  have hrun : (simple host line (permutation part p) scope).outcome m =
      (reported host line (tupleText (List.ofFn part)) (List.ofFn fun i => v (p i)) scope').outcome
        { m with heap } := by
    rw [← zip_ofFn] at hstore
    rw [permutation, simple_tuple hd line scope (forall₂_ofFn hpart) hsources (by simp)
      (by simpa using hn), outcome_bind_ok hvalues, outcome_bind_ok hstore]
  obtain ⟨hlists, hreturns⟩ := outcome_reported hd line (tupleText (List.ofFn part))
    (List.ofFn fun i => v (p i)) scope' { m with heap }
  rw [← hrun] at hlists hreturns
  exact ⟨hrun, hlists, hreturns⟩

/-- Variables are permuted, since all values are read before the first is written. -/
theorem permutes_variables (hd : host.dialect = .indented) (line : Nat) (hn : 2 ≤ n)
    (p : Equiv.Perm (Fin n)) {x : Fin n → String} {v : Fin n → Value}
    (hinj : Function.Injective x) (hx : ∀ i, IsVariable (x i))
    (hv : ∀ i, scope.get? (x i) = some (v i)) :
    ∃ scope', Assigns host line (fun i => (x i).toList) p v scope m scope' m.heap ∧
      (∀ i, scope'.get? (x i) = some (v (p i))) ∧
      (∀ name, (∀ i, name ≠ x i) → scope'.get? name = scope.get? name) ∧
      scope'.entries.map Prod.fst = scope.entries.map Prod.fst := by
  have hnames : (List.ofFn fun i => (x i, v (p i))).map Prod.fst = List.ofFn x := by
    rw [List.map_ofFn]
    rfl
  have hnodup : ((List.ofFn fun i => (x i, v (p i))).map Prod.fst).Nodup := by
    rw [hnames]
    exact List.nodup_ofFn.2 hinj
  obtain ⟨hwritten, hother⟩ := scope.get?_puts hnodup
  have hstore : (host.storeEach (List.ofFn fun i => (.var (x i), v (p i))) scope).outcome m =
      (.ok (scope.puts (List.ofFn fun i => (x i, v (p i)))), m) := by
    have hpairs := Host.storeEach_vars host (List.ofFn fun i => (x i, v (p i))) scope
    rw [List.map_ofFn] at hpairs
    exact congrArg (·.outcome m) hpairs
  refine ⟨_, permutation_assigns hd line hn p (fun i => .var (hx i)) hv hstore, fun i => ?_,
    fun name hname => ?_, Table.map_fst_puts fun w hw => ?_⟩
  · exact hwritten (x i, v (p i)) (List.mem_ofFn.2 ⟨i, rfl⟩)
  · refine hother name ?_
    rw [hnames, List.mem_ofFn]
    rintro ⟨i, rfl⟩
    exact hname i rfl
  · obtain ⟨i, rfl⟩ := List.mem_ofFn.1 hw
    rw [hv]
    rfl

/-- An element of the list in a variable. -/
def elementText (name : String) (index : List Char) : List Char :=
  name.toList ++ '[' :: (index ++ [']'])

/-- The items at some positions of a list have been rearranged. -/
structure Rearranged (p : Equiv.Perm (Fin n)) (position : Fin n → Nat)
    (items items' : List Value) : Prop where
  length : items'.length = items.length
  moved : ∀ i, items'[position i]? = items[position (p i)]?
  kept : ∀ j, (∀ i, j ≠ position i) → items'[j]? = items[j]?

/-- No item is lost and none is doubled. -/
theorem Rearranged.perm {p : Equiv.Perm (Fin n)} {position : Fin n → Nat}
    {items items' : List Value} (h : Rearranged p position items items')
    (hinj : Function.Injective position) (hlt : ∀ i, position i < items.length) :
    items'.Perm items := by
  -- The permutation of the places that moves the positions as `p` does and keeps all others.
  let place : Fin n ↪ Fin items.length :=
    ⟨fun i => ⟨position i, hlt i⟩, fun i j hij => hinj (Fin.val_eq_of_eq hij)⟩
  have hitems : items' = List.ofFn (items.get ∘ p.viaFintypeEmbedding place) := by
    refine List.ext_getElem (by simp [h.length]) fun j hj hj' => ?_
    have hjlt : j < items.length := h.length ▸ hj
    rw [List.getElem_ofFn, Function.comp_apply, List.get_eq_getElem]
    refine Option.some.inj ?_
    rw [← List.getElem?_eq_getElem, ← List.getElem?_eq_getElem]
    by_cases hplace : ∃ i, place i = ⟨j, hjlt⟩
    · obtain ⟨i, hi⟩ := hplace
      rw [← hi, p.viaFintypeEmbedding_apply_image place i]
      have hij : position i = j := Fin.val_eq_of_eq hi
      rw [← hij]
      exact h.moved i
    · rw [p.viaFintypeEmbedding_apply_notMem_range place hplace]
      exact h.kept j fun i hi => hplace ⟨i, Fin.ext hi.symm⟩
  rw [hitems]
  exact ((p.viaFintypeEmbedding place).ofFn_comp_perm items.get).trans (by rw [List.ofFn_get])

/-- Writing the items of some positions to others. -/
theorem rearranged_sets {p : Equiv.Perm (Fin n)} {position : Fin n → Nat} {items : List Value}
    {v : Fin n → Value} (hinj : Function.Injective position)
    (hv : ∀ i, items[position i]? = some (v i)) :
    Rearranged p position items (sets items (List.ofFn fun i => (position i, v (p i)))) := by
  have hpositions : (List.ofFn fun i => (position i, v (p i))).map Prod.fst =
      List.ofFn position := by
    rw [List.map_ofFn]
    rfl
  have hlt : ∀ w ∈ List.ofFn fun i => (position i, v (p i)), w.1 < items.length := by
    intro w hw
    obtain ⟨i, rfl⟩ := List.mem_ofFn.1 hw
    exact (List.getElem?_eq_some_iff.1 (hv i)).1
  obtain ⟨hwritten, hother⟩ := getElem?_sets items hlt (hpositions ▸ List.nodup_ofFn.2 hinj)
  refine ⟨length_sets _ _, fun i => ?_, fun j hj => hother j ?_⟩
  · rw [hwritten (position i, v (p i)) (List.mem_ofFn.2 ⟨i, rfl⟩), hv]
  · rw [hpositions, List.mem_ofFn]
    rintro ⟨i, rfl⟩
    exact hj i rfl

theorem fixed?_element {name : String} {cell : Nat} {e : Expr} {k : Int} {heap : Heap}
    (hlist : scope.get? name = some (.list cell)) (hk : IndexMeans scope e k)
    (hr : InRange .indented (heap.items cell).length k) :
    (Expr.index (.var name) e).fixed? .indented heap scope =
      (heap.items cell)[positionOf (heap.items cell).length k]? := by
  rw [Expr.fixed?, Expr.fixed?, hlist, hk.fixed? heap]
  show (Operator.item .indented heap (.list cell) (.int k)).toOption = _
  rw [item_list rfl, if_neg (by simp), hr.position?.1, Option.bind_some,
    List.getElem?_eq_getElem hr.position?.2]
  rfl

/-- Elements are permuted, since all values are read before the first is written. -/
theorem permutes_elements (hd : host.dialect = .indented) (line : Nat) (hn : 2 ≤ n)
    (p : Equiv.Perm (Fin n)) {name : String} {cell : Nat} {index : Fin n → List Char}
    {e : Fin n → Expr} {k : Fin n → Int} {v : Fin n → Value} (hname : IsVariable name)
    (hlist : scope.get? name = some (.list cell))
    (hindex : ∀ i, Expr.parse .indented (index i) = .ok (e i) ∧ IndexMeans scope (e i) (k i))
    (hrange : ∀ i, InRange .indented (m.heap.items cell).length (k i))
    (hinj : Function.Injective fun i => positionOf (m.heap.items cell).length (k i))
    (hv : ∀ i, (m.heap.items cell)[positionOf (m.heap.items cell).length (k i)]? = some (v i)) :
    ∃ items, Assigns host line (fun i => elementText name (index i)) p v scope m scope
        (m.heap.write cell items) ∧
      Rearranged p (fun i => positionOf (m.heap.items cell).length (k i)) (m.heap.items cell)
        items := by
  have hstore := @Host.outcome_storeEach_elements host scope name cell hd hlist
    (List.ofFn fun i => (e i, k i, v (p i))) m (by
      intro w hw
      obtain ⟨i, rfl⟩ := List.mem_ofFn.1 hw
      exact ⟨(hindex i).2, hrange i⟩)
  simp only [List.map_ofFn, Function.comp_def] at hstore
  refine ⟨_, permutation_assigns hd line hn p (fun i => ?_) (fun i => ?_) hstore,
    rearranged_sets hinj hv⟩
  · exact .element hname ((hindex i).2.balanced (hindex i).1) (hindex i).1
  · rw [fixed?_element hlist (hindex i).2 (hrange i), hv]

/-- Tuple assignments permute without loss. Variables get each other's old values, and no list, no
other variable and not their order changes. Of elements of a list the same holds for the items at
their positions, if these are different and the indices do not depend on any list. -/
theorem simple_permutes (hd : host.dialect = .indented) (line : Nat) (scope : Scope) (m : Machine)
    (hn : 2 ≤ n) (p : Equiv.Perm (Fin n)) (v : Fin n → Value) :
    (∀ x : Fin n → String, Function.Injective x → (∀ i, IsVariable (x i)) →
      (∀ i, scope.get? (x i) = some (v i)) →
      ∃ scope', Assigns host line (fun i => (x i).toList) p v scope m scope' m.heap ∧
        (∀ i, scope'.get? (x i) = some (v (p i))) ∧
        (∀ name, (∀ i, name ≠ x i) → scope'.get? name = scope.get? name) ∧
        scope'.entries.map Prod.fst = scope.entries.map Prod.fst) ∧
    ∀ (name : String) (cell : Nat) (index : Fin n → List Char) (e : Fin n → Expr) (k : Fin n → Int),
      IsVariable name → scope.get? name = some (.list cell) →
      (∀ i, Expr.parse .indented (index i) = .ok (e i) ∧ IndexMeans scope (e i) (k i)) →
      (∀ i, InRange .indented (m.heap.items cell).length (k i)) →
      (Function.Injective fun i => positionOf (m.heap.items cell).length (k i)) →
      (∀ i, (m.heap.items cell)[positionOf (m.heap.items cell).length (k i)]? = some (v i)) →
      ∃ items, Assigns host line (fun i => elementText name (index i)) p v scope m scope
          (m.heap.write cell items) ∧
        (m.heap.write cell items).items cell = items ∧
        (∀ other, other ≠ cell → (m.heap.write cell items).items other = m.heap.items other) ∧
        Rearranged p (fun i => positionOf (m.heap.items cell).length (k i)) (m.heap.items cell)
          items ∧
        items.Perm (m.heap.items cell) := by
  refine ⟨fun x hinj hx hv => permutes_variables hd line hn p hinj hx hv, ?_⟩
  intro name cell index e k hname hlist hindex hrange hinj hv
  obtain ⟨items, hassigns, hrearranged⟩ :=
    permutes_elements hd line hn p hname hlist hindex hrange hinj hv
  have hlt := fun i => (hrange i).position?.2
  have hcell : cell < m.heap.cells.size := Heap.lt_size_of_lt_length (hlt ⟨0, by omega⟩)
  refine ⟨items, hassigns, ?_, fun other hother => ?_, hrearranged, hrearranged.perm hinj hlt⟩
  · rw [Heap.items_write, if_pos ⟨rfl, hcell⟩]
  · rw [Heap.items_write, if_neg fun h => hother h.1]

/-- Some variables, one of which holds the only list of `rotationMachine`. -/
def rotationScope : Scope :=
  ⟨[("x", .bool true), ("a", .list 0), ("y", .bool false), ("i", .int 1), ("z", .none)]⟩

/-- A state with one list of four numbers. -/
def rotationMachine : Machine :=
  { heap := { cells := #[[.int 10, .int 20, .int 30, .int 40]] } }

theorem not_bottomless_rotationMachine (v : Value) : ¬ rotationMachine.heap.Bottomless v := by
  have hflat : ∀ cell, ∀ w ∈ rotationMachine.heap.items cell, ∃ k, w = .int k := by
    rintro (_ | cell) w hw
    · revert w
      exact List.forall_mem_cons.2 ⟨⟨_, rfl⟩, by simp⟩
    · cases hw
  rintro ⟨cell, -, w, hw, hreaches⟩
  obtain ⟨k, rfl⟩ := hflat cell w hw
  cases hreaches

/-- Three indices as they are written. -/
def rotationText : Fin 3 → List Char := ![ "2*i-1".toList, "-1".toList, "(i-1)".toList]

/-- The expressions of these indices. -/
def rotationIndex : Fin 3 → Expr :=
  ![.binary .sub (.binary .mul (.lit (.int 2)) (.var "i")) (.lit (.int 1)),
    .unary .neg (.lit (.int 1)), .binary .sub (.var "i") (.lit (.int 1))]

theorem parse_rotationText : ∀ i, Expr.parse .indented (rotationText i) =
    .ok (rotationIndex i) := by
  have hone : Operand .indented (.lit (.int (1 : Nat))) [⟨.number, Nat.toDigits 10 1⟩] :=
    .int (by decide)
  have htwo : Operand .indented (.lit (.int (2 : Nat))) [⟨.number, Nat.toDigits 10 2⟩] :=
    .int (by decide)
  have hi : Operand .indented (.var "i") [ofName "i"] := .var (by decide) (by decide) (by decide)
  have hproduct : Written .indented 5 (.binary .mul (.lit (.int (2 : Nat))) (.var "i")) _ :=
    .binary (by decide) (by decide) (.operand htwo) (.operand hi)
  have hdifference : Written .indented 1 (.binary .sub (.var "i") (.lit (.int (1 : Nat)))) _ :=
    .binary (by decide) (by decide) (.operand hi) (.operand hone)
  intro i
  fin_cases i
  · exact Written.parse (.binary (by decide) (by decide) hproduct (.operand hone))
      (by decide)
  · exact Written.parse (.unary (by decide) (by decide) (.operand hone))
      (by decide)
  · exact Written.parse (.operand (.paren hdifference)) (by decide)

theorem indexMeans_rotationIndex : ∀ i, IndexMeans rotationScope (rotationIndex i)
    (![1, -1, 0] i) := by
  have hi : IndexMeans rotationScope (.var "i") 1 := .var rfl
  have hsub : BinaryOp.sub.function? = some (· - ·) := rfl
  have hmul : BinaryOp.mul.function? = some (· * ·) := rfl
  intro i
  fin_cases i
  · exact .function hsub (.function hmul (.int 2) hi) (.int 1)
  · exact .neg (.int 1)
  · exact .function hsub hi (.int 1)

/-- Three variables in a ring, and three elements, one of them counted from the end. -/
theorem simple_permutes_rotated :
    let host := Session.hostOf .indented {} []
    (∃ scope', ((simple host 1 "x, y, z = y, z, x".toList rotationScope).outcome
          rotationMachine).1 = .ok scope' ∧
      scope'.get? "x" = some (.bool false) ∧ scope'.get? "y" = some .none ∧
        scope'.get? "z" = some (.bool true) ∧ scope'.get? "a" = some (.list 0)) ∧
    ((simple host 1 "a[2*i-1], a[-1], a[(i-1)] = a[-1], a[(i-1)], a[2*i-1]".toList
        rotationScope).outcome rotationMachine).2.heap.items 0 =
      [.int 20, .int 40, .int 30, .int 10] := by
  intro host
  have hpermutes := fun v => @simple_permutes host 3 rfl 1 rotationScope rotationMachine
    (by decide) (finRotate 3) v
  have hnames : ∀ i, IsVariable (![ "x", "y", "z"] i) := by
    intro i
    fin_cases i <;> exact ⟨by decide, by decide, by decide⟩
  constructor
  · have htext : permutation (fun i => (![ "x", "y", "z"] i).toList) (finRotate 3) =
        "x, y, z = y, z, x".toList := by decide
    obtain ⟨scope', hassigns, hmoved, hkept, -⟩ := (hpermutes ![.bool true, .bool false, .none]).1
      ![ "x", "y", "z"] (by decide) hnames (by decide)
    have hreturns := hassigns.returns scope'
    rw [htext] at hreturns
    refine ⟨scope', hreturns.2 ⟨rfl, ?_, ?_, ?_⟩, hmoved 0, hmoved 1, hmoved 2,
      hkept "a" (by decide)⟩
    · decide
    · exact List.forall_mem_ofFn_iff.2 fun i => by fin_cases i <;> exact ⟨_, rfl⟩
    · rcases rotationMachine.heap.snapshotScope_cases scope' with ⟨bindings, h, -⟩ | ⟨-, e, -, h⟩
      · exact ⟨bindings, h⟩
      · exact absurd h (not_bottomless_rotationMachine e.2)
  · have htext : permutation (fun i => elementText "a" (rotationText i)) (finRotate 3) =
        "a[2*i-1], a[-1], a[(i-1)] = a[-1], a[(i-1)], a[2*i-1]".toList := by decide
    obtain ⟨items, hassigns, hitems, -, hrearranged, -⟩ :=
      (hpermutes ![.int 20, .int 40, .int 10]).2 "a" 0 rotationText rotationIndex ![1, -1, 0]
        ⟨by decide, by decide, by decide⟩ rfl
        (fun i => ⟨parse_rotationText i, indexMeans_rotationIndex i⟩) (by decide) (by decide)
        (by decide)
    have hlists := hassigns.lists
    rw [htext] at hlists
    rw [hlists, hitems]
    refine List.ext_getElem? fun j => ?_
    obtain _ | _ | _ | _ | j := j
    · exact hrearranged.moved 2
    · exact hrearranged.moved 0
    · exact hrearranged.kept 2 (by decide)
    · exact hrearranged.moved 1
    · rw [List.getElem?_eq_none, List.getElem?_eq_none]
      · simp
      · rw [hrearranged.length]
        exact Nat.le_add_left 4 j

end Indented

end Stepwise
