import Stepwise.Proofs.Outcome

/-!
# What steps show

A step shows its variables as data. The parts of a datum that are no lists, at any depth, are its
leaves. The unknown value is never among the leaves of what is shown, and every other leaf comes
from a value.
-/

namespace Stepwise

mutual

/-- The parts of a datum that are no lists, at any depth. -/
def Datum.leaves : Datum → List Datum
  | .list items => Datum.leavesAll items
  | d => [d]

/-- The leaves of several values. -/
def Datum.leavesAll : List Datum → List Datum
  | [] => []
  | d :: rest => d.leaves ++ Datum.leavesAll rest

end

namespace Datum

theorem mem_leavesAll {leaf : Datum} : ∀ {items : List Datum},
    leaf ∈ leavesAll items ↔ ∃ d ∈ items, leaf ∈ d.leaves
  | [] => by simp [leavesAll]
  | d :: rest => by rw [leavesAll, List.mem_append, mem_leavesAll]; simp

mutual

theorem leaves_masked : ∀ d : Datum, d.masked.leaves = d.leaves.map masked
  | .list items => by rw [masked, leaves, leaves, leavesAll_masked items]
  | .none | .unknown | .bool _ | .int _ | .float _ | .complex _ _ | .str _ => rfl

theorem leavesAll_masked : ∀ items : List Datum,
    leavesAll (maskedAll items) = (leavesAll items).map masked
  | [] => rfl
  | d :: rest => by
    rw [maskedAll, leavesAll, leavesAll, leaves_masked d, leavesAll_masked rest, List.map_append]

end

theorem masked_ne_unknown (d : Datum) : d.masked ≠ .unknown := by
  cases d <;> simp [masked]

/-- The unknown value is not shown at any depth. -/
theorem unknown_notMem_leaves_masked (d : Datum) : .unknown ∉ d.masked.leaves := by
  rw [leaves_masked, List.mem_map]
  rintro ⟨leaf, -, h⟩
  exact leaf.masked_ne_unknown h

end Datum

section Results

variable {α β : Type}

theorem exists_of_bind_ok {x : Except Fault α} {f : α → Except Fault β} {b : β}
    (h : x >>= f = .ok b) : ∃ a, x = .ok a ∧ f a = .ok b := by
  cases x with
  | error fault => cases h
  | ok a => exact ⟨a, rfl, h⟩

theorem mem_of_mapM_ok {f : α → Except Fault β} : ∀ {as : List α} {bs : List β},
    as.mapM f = .ok bs → ∀ b ∈ bs, ∃ a ∈ as, f a = .ok b
  | [], _, h, b, hb => by
    cases h
    cases hb
  | a :: as, _, h, b, hb => by
    rw [List.mapM_cons] at h
    obtain ⟨c, hc, h⟩ := exists_of_bind_ok h
    obtain ⟨cs, hcs, h⟩ := exists_of_bind_ok h
    cases h
    rcases List.mem_cons.1 hb with rfl | hb
    · exact ⟨a, List.mem_cons_self, hc⟩
    · obtain ⟨a', ha', hfb⟩ := mem_of_mapM_ok hcs b hb
      exact ⟨a', List.mem_cons_of_mem a ha', hfb⟩

theorem map_eq_of_mapM_ok {γ : Type} {f : α → Except Fault β} {g : α → γ} {g' : β → γ}
    (hf : ∀ a b, f a = .ok b → g' b = g a) : ∀ {as : List α} {bs : List β},
      as.mapM f = .ok bs → bs.map g' = as.map g
  | [], _, h => by
    cases h
    rfl
  | a :: as, _, h => by
    rw [List.mapM_cons] at h
    obtain ⟨c, hc, h⟩ := exists_of_bind_ok h
    obtain ⟨cs, hcs, h⟩ := exists_of_bind_ok h
    cases h
    rw [List.map_cons, List.map_cons, hf a c hc, map_eq_of_mapM_ok hf hcs]

end Results

namespace Heap

/-- What is shown of a variable is what is shown of its value. -/
theorem mem_of_snapshotScope {h : Heap} {scope : Scope} {bindings : Table Datum}
    (hb : h.snapshotScope scope = .ok bindings) : ∀ e ∈ bindings.entries,
      ∃ v, (e.1, v) ∈ scope.entries ∧ h.snapshot v = .ok e.2 := by
  intro e he
  unfold snapshotScope at hb
  obtain ⟨shown, hm, hb⟩ := exists_of_bind_ok hb
  cases hb
  obtain ⟨⟨name, v⟩, hmem, hv⟩ := mem_of_mapM_ok hm e he
  obtain ⟨d, hd, hv⟩ := exists_of_bind_ok hv
  cases hv
  exact ⟨v, hmem, hd⟩

/-- Variables are shown with their names, in order. -/
theorem names_of_snapshotScope {h : Heap} {scope : Scope} {bindings : Table Datum}
    (hb : h.snapshotScope scope = .ok bindings) :
    bindings.entries.map Prod.fst = scope.entries.map Prod.fst := by
  unfold snapshotScope at hb
  obtain ⟨shown, hm, hb⟩ := exists_of_bind_ok hb
  cases hb
  refine map_eq_of_mapM_ok (fun e b he => ?_) hm
  obtain ⟨d, -, he⟩ := exists_of_bind_ok he
  cases he
  rfl

/-- What is shown of a value is what can be seen of it, but for the unknown value. -/
theorem snapshot_eq_ok {h : Heap} {v : Value} {d : Datum} (hd : h.snapshot v = .ok d) :
    ∃ seen, h.view? v = some seen ∧ d = seen.masked := by
  unfold snapshot at hd
  split at hd
  · cases hd
    exact ⟨_, ‹_›, rfl⟩
  · cases hd

theorem unknown_notMem_of_snapshotScope {h : Heap} {scope : Scope} {bindings : Table Datum}
    (hb : h.snapshotScope scope = .ok bindings) :
    ∀ e ∈ bindings.entries, .unknown ∉ e.2.leaves := by
  intro e he
  obtain ⟨v, -, hv⟩ := mem_of_snapshotScope hb e he
  obtain ⟨seen, -, hd⟩ := snapshot_eq_ok hv
  rw [hd]
  exact seen.unknown_notMem_leaves_masked

end Heap

end Stepwise
