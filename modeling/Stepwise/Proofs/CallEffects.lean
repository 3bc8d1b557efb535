import Stepwise.Proofs.Reachability
import Stepwise.Proofs.RegimeRuns

/-!
# A call touches only what it is given

Lists are shared by reference, so a call can change a list of its caller. It can do so only through
its arguments: a list that they do not reach has the same items after the call, however the call
ends. The variables of the caller are no part of the state of a run, so what a variable shows changes
only through a list that it shares with the arguments. And the value of a call reaches only lists
that the arguments reached before and lists that were made during the call.
-/

namespace Stepwise

open Source Run

namespace Heap

/-- A cell of the heap that none of the values reaches. -/
def Apart (h : Heap) (values : List Value) (cell : Nat) : Prop :=
  cell < h.cells.size ∧ ¬ h.ReachedFrom values cell

theorem apart_iff {h : Heap} {values : List Value} {cell : Nat} (hc : ¬ h.Apart values cell) :
    h.ReachedFrom values cell ∨ h.cells.size ≤ cell := by
  by_cases hlt : cell < h.cells.size
  · exact .inl (not_not.1 fun hr => hc ⟨hlt, hr⟩)
  · exact .inr (Nat.le_of_not_lt hlt)

/-- A later heap in which the cells apart from the values are as they were and nothing else leads to
them. -/
structure KeepsApart (before : Heap) (values : List Value) (h : Heap) : Prop where
  size_le : before.cells.size ≤ h.cells.size
  kept : ∀ cell, before.Apart values cell → h.items cell = before.items cell
  closed : ∀ cell, ¬ before.Apart values cell → ∀ target, .list target ∈ h.items cell →
    ¬ before.Apart values target

theorem KeepsApart.refl (h : Heap) (values : List Value) : h.KeepsApart values h where
  size_le := Nat.le_refl _
  kept := fun _ _ => rfl
  closed := fun cell hc target ht hapart => by
    rcases apart_iff hc with hr | hbeyond
    · exact hapart.2 (hr.item ht)
    · rw [items_beyond hbeyond] at ht
      cases ht

/-- Nothing that is held reaches a cell that is kept apart. -/
theorem KeepsApart.not_apart {before h : Heap} {values : List Value}
    (hk : before.KeepsApart values h) {v : Value} {target : Nat} (hreach : h.Reaches v target)
    (hv : ∀ cell, v = .list cell → ¬ before.Apart values cell) :
    ¬ before.Apart values target := by
  induction hreach with
  | here cell => exact hv cell rfl
  | @item cell target v hmem _ ih =>
    exact ih fun cell' heq => hk.closed cell (hv cell rfl) cell' (heq ▸ hmem)

end Heap

/-- Values that do not lead to a cell that is kept apart. -/
def ValueInvariant.apart (dialect : Dialect) (before : Heap) (args : List Value) :
    ValueInvariant dialect where
  Val := fun v => ∀ cell, v = .list cell → ¬ before.Apart args cell
  Inv := before.KeepsApart args
  atom := fun h cell hv => by
    rw [hv] at h
    cases h
  complex := fun _ _ _ _ cell hv => by cases hv
  item := fun hk hc v hv cell heq => hk.closed _ (hc _ rfl) cell (heq ▸ hv)
  alloc := fun {h items} hk hv => by
    have hnew : ¬ before.Apart args h.cells.size :=
      fun hapart => Nat.not_lt_of_le hk.size_le hapart.1
    refine ⟨fun cell heq => ?_, ?_, fun cell hapart => ?_, fun cell hc target ht => ?_⟩
    · cases heq
      exact hnew
    · exact Nat.le_trans hk.size_le (by simp [Heap.alloc])
    · rw [Heap.items_alloc, if_neg, hk.kept cell hapart]
      rintro rfl
      exact hnew hapart
    · rw [Heap.items_alloc] at ht
      split_ifs at ht
      · exact hv _ ht target rfl
      · exact hk.closed cell hc target ht
  write := fun {h cell items} hk hc hv => by
    refine ⟨?_, fun cell' hapart => ?_, fun cell' hc' target ht => ?_⟩
    · exact Nat.le_trans hk.size_le (by simp [Heap.write])
    · rw [Heap.items_write, if_neg, hk.kept cell' hapart]
      rintro ⟨rfl, -⟩
      exact hc cell' rfl hapart
    · rw [Heap.items_write] at ht
      split_ifs at ht
      · exact hv _ ht target rfl
      · exact hk.closed cell' hc' target ht
  nans := fun _ hk => ⟨hk.size_le, hk.kept, hk.closed⟩

/-- Nothing is asked of lines and steps. -/
def Regime.ofValues {dialect : Dialect} (V : ValueInvariant dialect) (p : Program)
    (limits : Limits) : Regime dialect p limits where
  values := V
  region := fun _ => .everywhere dialect p
  Busy := fun _ => True
  Calm := fun _ => True
  Over := fun _ => True
  Wrecked := fun _ => True
  busy_of_calm := id
  wrecked_of_busy := id
  write := fun _ _ => id
  warn := fun _ => id
  count := id
  calm_step := fun _ _ _ _ _ _ _ => trivial
  over_return := fun _ _ _ _ _ => trivial
  calm_call := fun _ _ _ _ _ _ => trivial
  call_block := fun _ _ => trivial
  busy_pop := fun _ => id
  over_pop := fun _ => id
  wrecked_pop := fun _ => id

/-- A call of a function of the program keeps an invariant of values and of the heap. -/
theorem ValueInvariant.call {dialect : Dialect} (V : ValueInvariant dialect) (p : Program)
    (limits : Limits) (room : Nat) (name : String) {args : List Value} (ha : V.All args)
    {m : Machine} (hm : V.Inv m.heap) {result : Except Fault Value} {m' : Machine}
    (h : (callFunction dialect (semanticsOf dialect) p (functionTable dialect p) limits room name
      args).outcome m = (result, m')) :
    m'.recorder.frames = m.recorder.frames ∧ V.Inv m'.heap ∧ ∀ v, result = .ok v → V.Val v := by
  have hG : (Regime.ofValues V p limits).PassesHeaders := .inl fun _ => id
  have hends := Regime.call (Regime.runsLines hG) room m.recorder.frames name ha m rfl hm trivial
  rw [h] at hends
  cases result with
  | error fault => exact ⟨hends.1, hends.2.1, fun _ h => by cases h⟩
  | ok v =>
    refine ⟨hends.1, hends.2.1, fun w hw => ?_⟩
    cases hw
    exact hends.2.2.1

/-- What a call with these arguments may do. -/
structure TouchesOnly (args : List Value) (before : Machine) (result : Except Fault Value)
    (after : Machine) : Prop where
  /-- No list vanishes. -/
  size_le : before.heap.cells.size ≤ after.heap.cells.size
  /-- A list that the arguments do not reach keeps its items. -/
  lists : ∀ cell, cell < before.heap.cells.size → ¬ before.heap.ReachedFrom args cell →
    after.heap.items cell = before.heap.items cell
  /-- The calls under way are the same, with the same arguments. -/
  frames : after.recorder.frames = before.recorder.frames
  /-- The caller's variables are shown with the same names in the same order. -/
  names : ∀ (scope : Scope) (shown shown' : Table Datum),
    before.heap.snapshotScope scope = .ok shown → after.heap.snapshotScope scope = .ok shown' →
      shown'.entries.map Prod.fst = shown.entries.map Prod.fst
  /-- A variable whose value shares no list with the arguments is shown as before. -/
  values : ∀ v : Value, (∀ cell, before.heap.Reaches v cell → cell < before.heap.cells.size ∧
    ¬ before.heap.ReachedFrom args cell) → after.heap.snapshot v = before.heap.snapshot v
  /-- The value reaches only lists that the arguments reached, and new ones. -/
  returned : ∀ v, result = .ok v → ∀ cell, after.heap.Reaches v cell →
    before.heap.ReachedFrom args cell ∨ before.heap.cells.size ≤ cell

/-- A call touches only what it is given, in any state and however it ends. -/
theorem callFunction_touchesOnly (dialect : Dialect) (p : Program) (limits : Limits) (room : Nat)
    (name : String) (args : List Value) (m : Machine) :
    let run := (callFunction dialect (semanticsOf dialect) p (functionTable dialect p) limits room
      name args).run.run m
    TouchesOnly args m run.1 run.2 := by
  intro run
  have ha : (ValueInvariant.apart dialect m.heap args).All args := fun v hv cell heq hapart =>
    hapart.2 ⟨v, hv, heq ▸ .here cell⟩
  obtain ⟨hframes, hk, hv⟩ := (ValueInvariant.apart dialect m.heap args).call p limits room name
    ha (.refl m.heap args) (show _ = (run.1, run.2) from rfl)
  have lists : ∀ cell, cell < m.heap.cells.size → ¬ m.heap.ReachedFrom args cell →
      run.2.heap.items cell = m.heap.items cell := fun cell hlt hr => hk.kept cell ⟨hlt, hr⟩
  refine ⟨hk.size_le, lists, hframes, ?_, fun v hapart => ?_, fun v hresult cell hreach => ?_⟩
  · intro scope shown shown' hshown hshown'
    rw [Heap.names_of_snapshotScope hshown, Heap.names_of_snapshotScope hshown']
  · have hview := Heap.view?_congr hk.size_le
      fun cell hreach => lists cell (hapart cell hreach).1 (hapart cell hreach).2
    unfold Heap.snapshot
    rw [hview]
  · exact Heap.apart_iff (hk.not_apart hreach (hv v hresult))

end Stepwise
