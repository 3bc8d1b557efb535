import Stepwise.Proofs.Reachability
import Stepwise.Proofs.Snapshots
import Stepwise.Proofs.WatchedRuns

/-!
# The braced dialect has plain values only

In the braced dialect comparisons and logical operators give integers, so no truth value ever comes
up, and no complex number either. A value is plain if it is neither of the two, and a state is plain
if all it holds is plain: the items of its lists, the arguments of the calls under way and the
variables of the steps recorded so far. A run that insists on plain values at every line and at
every call is the run itself. In particular every value that is converted to a kind of number, and
every value that such a value replaces, is plain.
-/

namespace Stepwise

open Source Run

variable {α : Type}

/-- Neither a truth value nor a complex number. -/
def Value.isPlain : Value → Bool
  | .bool _ | .complex _ _ _ => false
  | _ => true

/-- No truth value and no complex number stands in a datum, at any depth. -/
def Datum.isPlain (d : Datum) : Bool :=
  d.leaves.all fun
    | .bool _ | .complex _ _ => false
    | _ => true

/-- All items of all lists are plain. -/
def Heap.isPlain (h : Heap) : Bool := h.cells.toList.all fun items => items.all Value.isPlain

/-- All arguments of a call are plain. -/
def Frame.isPlain (frame : Frame) : Bool := frame.args.entries.all fun e => e.2.isPlain

/-- All values that a step shows are plain. -/
def Step.isPlain (s : Step) : Bool :=
  s.bindings.entries.all (fun e => e.2.isPlain) && s.callStack.all Frame.isPlain

/-- All values that have been recorded are plain. -/
def Recorder.isPlain (r : Recorder) : Bool := r.log.all Step.isPlain && r.frames.all Frame.isPlain

/-- All values of the state are plain. -/
def Machine.isPlain (m : Machine) : Bool := m.heap.isPlain && m.recorder.isPlain

/-- Look for values that are not plain. -/
def Watch.plain : Watch := ⟨Machine.isPlain, Value.isPlain⟩

section Heaps

variable {h : Heap}

theorem Heap.isPlain_iff : h.isPlain = true ↔ ∀ cell, ∀ v ∈ h.items cell, v.isPlain = true := by
  unfold Heap.isPlain Heap.items
  simp only [List.all_eq_true, Array.mem_toList_iff, Array.getD_eq_getD_getElem?]
  refine ⟨fun hall cell v hv => ?_, fun hall items hi v hv => ?_⟩
  · cases hc : h.cells[cell]? with
    | none =>
      rw [hc] at hv
      cases hv
    | some items =>
      rw [hc] at hv
      exact hall items (Array.mem_of_getElem? hc) v hv
  · obtain ⟨cell, hc⟩ := Array.mem_iff_getElem?.1 hi
    exact hall cell v (by rw [hc]; exact hv)

/-- Holding plain values only is an invariant. -/
def ValueInvariant.plain : ValueInvariant .braced where
  Val := fun v => v.isPlain = true
  Inv := fun h => h.isPlain = true
  atom := fun {v} hv => by cases v <;> first | rfl | cases hv
  complex := fun hv => by cases hv
  item := fun hi _ => Heap.isPlain_iff.1 hi _
  alloc := fun {h items} hi hv => by
    refine ⟨rfl, Heap.isPlain_iff.2 fun cell => ?_⟩
    rw [Heap.items_alloc]
    split_ifs
    · exact hv
    · exact Heap.isPlain_iff.1 hi cell
  write := fun {h cell items} hi _ hv => by
    refine Heap.isPlain_iff.2 fun cell' => ?_
    rw [Heap.items_write]
    split_ifs
    · exact hv
    · exact Heap.isPlain_iff.1 hi cell'
  nans := fun _ => id

theorem Datum.isPlain_masked {d : Datum} (hd : d.isPlain = true) : d.masked.isPlain = true := by
  unfold isPlain at hd ⊢
  rw [leaves_masked, List.all_map]
  refine List.all_eq_true.2 fun leaf hl => ?_
  have hleaf := List.all_eq_true.1 hd leaf hl
  cases leaf <;> first | rfl | cases hleaf

/-- What can be seen of a plain value in a plain heap is plain. -/
theorem Heap.isPlain_of_unfold (hh : h.isPlain = true) : ∀ {n : Nat} {v : Value} {d : Datum},
    v.isPlain = true → h.unfold n v = some d → d.isPlain = true
  | n, .none, _, _, hd | n, .unknown, _, _, hd | n, .int _, _, _, hd | n, .float _, _, _, hd
  | n, .nan _, _, _, hd | n, .str _, _, _, hd => by
    cases n <;> cases hd <;> rfl
  | 0, .list _, _, _, hd => by cases hd
  | n + 1, .list cell, _, _, hd => by
    rw [unfold] at hd
    obtain ⟨items, hitems, rfl⟩ := Option.map_eq_some_iff.1 hd
    unfold Datum.isPlain
    rw [Datum.leaves, List.all_eq_true]
    intro leaf hleaf
    obtain ⟨d, hd, hl⟩ := Datum.mem_leavesAll.1 hleaf
    obtain ⟨v, hv, hvd⟩ := mem_of_mapM_some hitems d hd
    have hplain := isPlain_of_unfold hh (isPlain_iff.1 hh cell v hv) hvd
    exact List.all_eq_true.1 hplain leaf hl

/-- What a step shows of plain values is plain. -/
theorem ValueInvariant.Shows.isPlain {bindings : Table Datum}
    (hb : ValueInvariant.plain.Shows bindings) :
    bindings.entries.all (fun e => e.2.isPlain) = true := by
  obtain ⟨h, scope, hh, hs, hshown⟩ := hb
  refine List.all_eq_true.2 fun e he => ?_
  obtain ⟨v, hv, hsnap⟩ := Heap.mem_of_snapshotScope hshown e he
  obtain ⟨seen, hseen, hd⟩ := Heap.snapshot_eq_ok hsnap
  rw [hd]
  exact Datum.isPlain_masked (Heap.isPlain_of_unfold hh (hs _ hv) hseen)

end Heaps

namespace Recorder

variable {r : Recorder}

theorem isPlain_iff : r.isPlain = true ↔
    (∀ s ∈ r.log, s.isPlain = true) ∧ ∀ frame ∈ r.frames, frame.isPlain = true := by
  rw [isPlain, Bool.and_eq_true, List.all_eq_true, List.all_eq_true]

theorem isPlain_recorded (hr : r.isPlain = true) (line : Int) (kind : StepKind) (explanation : Text)
    {bindings : Table Datum} (hb : bindings.entries.all (fun e => e.2.isPlain) = true) :
    (r.recorded line kind explanation bindings).isPlain = true := by
  obtain ⟨hlog, hframes⟩ := isPlain_iff.1 hr
  refine isPlain_iff.2 ⟨?_, hframes⟩
  rintro s (_ | ⟨_, hs⟩)
  · rw [Step.isPlain, hb, Bool.true_and, List.all_eq_true]
    exact fun frame hf => hframes frame (List.mem_reverse.1 hf)
  · exact hlog s hs

theorem isPlain_push (hr : r.isPlain = true) (function : String) {args : Table Datum}
    (ha : args.entries.all (fun e => e.2.isPlain) = true) :
    (r.push ⟨function, args⟩).isPlain = true := by
  obtain ⟨hlog, hframes⟩ := isPlain_iff.1 hr
  exact isPlain_iff.2 ⟨hlog, List.forall_mem_cons.2 ⟨ha, hframes⟩⟩

theorem isPlain_pop (hr : r.isPlain = true) : r.pop.isPlain = true := by
  obtain ⟨hlog, hframes⟩ := isPlain_iff.1 hr
  exact isPlain_iff.2 ⟨hlog, fun frame hf => hframes frame (List.mem_of_mem_tail hf)⟩

end Recorder

/-- Plain values, also in a run that is being given up. -/
def Regime.plain (p : Program) (limits : Limits) : Regime .braced p limits where
  values := .plain
  region := fun _ => .everywhere .braced p
  Busy := fun r => r.isPlain = true
  Calm := fun r => r.isPlain = true
  Over := fun r => r.isPlain = true
  Wrecked := fun r => r.isPlain = true
  busy_of_calm := id
  wrecked_of_busy := id
  write := fun _ _ => id
  warn := fun _ => id
  count := id
  calm_step := fun kind explanation hr _ _ _ hb =>
    Recorder.isPlain_recorded hr _ kind explanation hb.isPlain
  over_return := fun explanation hr _ _ hb =>
    Recorder.isPlain_recorded hr _ _ explanation hb.isPlain
  calm_call := fun explanation hr _ _ _ hb =>
    Recorder.isPlain_recorded (Recorder.isPlain_push hr _ hb.isPlain) _ _ explanation hb.isPlain
  call_block := fun _ _ => trivial
  busy_pop := fun _ => Recorder.isPlain_pop
  over_pop := fun _ => Recorder.isPlain_pop
  wrecked_pop := fun _ => Recorder.isPlain_pop

theorem Watch.plain_fits (p : Program) (limits : Limits) : plain.Fits (Regime.plain p limits) where
  value := id
  busy := fun hi hr => Bool.and_eq_true_iff.2 ⟨hi, hr⟩
  returned := fun hi hr => Bool.and_eq_true_iff.2 ⟨hi, hr⟩

/-- From a plain state the computation leads to a plain state, however it ends, and its result
passes the test. -/
def StaysPlain (x : Run α) (test : α → Bool) : Prop :=
  ∀ m : Machine, m.isPlain = true →
    (x.run.run m).2.isPlain = true ∧ ∀ a, (x.run.run m).1 = .ok a → test a = true

/-- A computation that keeps to the regime of plain values stays plain. -/
theorem Regime.Holds.staysPlain {p : Program} {limits : Limits} {E : Fault → Prop} {x : Run α}
    {S : α → Prop} {Q : α → Recorder → Prop} {test : α → Bool}
    (hx : ∀ frames, (Regime.plain p limits).Holds frames E (fun r => r.isPlain = true) x S Q)
    (hq : ∀ a r, Q a r → r.isPlain = true) (ht : ∀ a, S a → test a = true) :
    StaysPlain x test := by
  intro m hm
  obtain ⟨hheap, hrecorder⟩ := Bool.and_eq_true_iff.1 hm
  have hends := hx m.recorder.frames m rfl hheap hrecorder
  change (Regime.plain p limits).Ends _ _ _ _ (x.run.run m) at hends
  rcases hr : x.run.run m with ⟨fault | a, m'⟩ <;> rw [hr] at hends
  · obtain ⟨-, hheap', -, hleft⟩ := hends
    exact ⟨Bool.and_eq_true_iff.2 ⟨hheap', wrecked_of_left hleft⟩, fun _ h => by cases h⟩
  · obtain ⟨-, hheap', hs, hq'⟩ := hends
    refine ⟨Bool.and_eq_true_iff.2 ⟨hheap', hq a _ hq'⟩, fun b hb => ?_⟩
    cases hb
    exact ht a hs

namespace Braced

/-- What a host of the braced dialect does with plain values. -/
structure HandlesPlain (host : Host) : Prop where
  /-- Calls with plain arguments return plain values. -/
  call : ∀ name args, args.all Value.isPlain = true → StaysPlain (host.call name args) Value.isPlain
  /-- The value of a text, which is coerced where it is declared or kept in kind where it is
  assigned. -/
  text : ∀ scope text, Watch.plain.scope scope = true →
    StaysPlain (host.evaluateText scope text) Value.isPlain
  /-- The value that an assignment replaces. -/
  current : ∀ scope text target, Watch.plain.scope scope = true →
    Expr.parse? .braced text = .ok (some target) →
      StaysPlain (currentValue host target scope) Value.isPlain
  /-- The value of a compound assignment before it is kept in kind. -/
  combined : ∀ op v w, op ≠ .pow → v.isPlain = true → w.isPlain = true →
    StaysPlain (host.combine op v w) Value.isPlain
  /-- A value that is kept in kind, which a chain of assignments hands on. -/
  kept : ∀ current v w, v.isPlain = true → keepKind current v = .ok w → w.isPlain = true
  /-- A statement, with the variables it leaves and the value it returns. -/
  statement : ∀ line text scope, Watch.plain.scope scope = true →
    StaysPlain (statement host line text scope) Watch.plain.flow

end Braced

theorem Regime.handlesPlain {p : Program} {limits : Limits} {host : Host}
    (H : (Regime.plain p limits).Serves host) : Braced.HandlesPlain host := by
  have hscoped : ∀ {scope : Scope}, Watch.plain.scope scope = true →
      (Regime.plain p limits).values.Scoped scope := fun hs => List.all_eq_true.1 hs
  refine ⟨fun name args ha => ?_, fun scope text hs => ?_, fun scope text target hs ht => ?_,
    fun op v w hop hv hw => ?_, fun current v w hv => ?_, fun line text scope hs => ?_⟩
  · exact Holds.staysPlain (fun frames => H.call frames name (List.all_eq_true.1 ha))
      (fun _ _ => id) fun _ => id
  · exact Holds.staysPlain (fun _ => evaluateText H (hscoped hs) text) (fun _ _ => id) fun _ => id
  · exact Holds.staysPlain
      (fun _ => currentValue H (hscoped hs) (Expr.ofDialect_of_parse? ht)) (fun _ _ => id)
      fun _ => id
  · exact Holds.staysPlain (fun _ => combine H (fun _ => hop) hv hw) (fun _ _ => id) fun _ => id
  · exact gives_keepKind (G := Regime.plain p limits) current hv w
  · exact Holds.staysPlain (fun _ => Regime.statement H trivial (hscoped hs) rfl text)
      (fun _ _ => calm_of_after fun _ => id) fun _ => (Watch.plain_fits p limits).flow

/-- In the braced dialect no run ever holds a truth value or a complex number: watching out for them
changes nothing, the state that the run ends in is plain however it ends, and so is all that its
conversions of numbers are given. -/
theorem runProgram_braced_plain (limits : Limits) (source : String) :
    let p := layout .braced source.toList
    (Watch.plain.program .braced limits p).run.run {} = (runProgram .braced limits p).run.run {} ∧
      ((runProgram .braced limits p).run.run {}).2.isPlain = true ∧
        ∀ room, Braced.HandlesPlain ⟨.braced, limits, callFunction .braced (semanticsOf .braced) p
          (functionTable .braced p) limits room⟩ := by
  intro p
  have hG : (Regime.plain p limits).PassesHeaders := .inl fun _ => id
  have hstart (frames : List Frame) : (Regime.plain p limits).Starts frames :=
    ⟨trivial, fun _ _ => trivial⟩
  have hruns : StaysPlain (runProgram .braced limits p) fun _ => true :=
    Regime.Holds.staysPlain (fun frames => Regime.program hG (hstart frames))
      (fun _ _ h => h.elim id id) fun _ _ => rfl
  refine ⟨?_, ?_, fun room => ?_⟩
  · exact (Watch.plain_fits p limits).program_eq (layout_numbered _ _) hG (hstart []) rfl rfl
  · exact (hruns {} rfl).1
  · exact Regime.handlesPlain ⟨rfl, rfl, Regime.call (Regime.runsLines hG) room⟩

end Stepwise
