import Stepwise.Proofs.Operations

/-!
# What a snapshot shows

A step shows each variable as the unfolding of its value, with none in place of the unknown value.
`Heap.Shows` says what that is without any bound on its depth: a list is shown as the list of what
its items are shown as, and all else as it is. A snapshot gives the unfolding if there is one
(`Heap.snapshot_eq_ok_iff`), and there is one unless the value reaches a list that contains itself;
that a list is reached on several ways does no harm. A step holds data and no lists of the heap, and
nothing that happens later takes a step back or changes it (`Run.AddsSteps`).
-/

namespace Stepwise

open Run

variable {α β : Type}

/-! ### Unfolding a value -/

/-- What a value that is no list is shown as. -/
def Value.shown? : Value → Option Datum
  | .none | .unknown => some .none
  | .bool b => some (.bool b)
  | .int n => some (.int n)
  | .float x => some (.float x)
  | .nan _ => some (.float Number.notANumber)
  | .complex re im _ => some (.complex re im)
  | .str s => some (.str s)
  | .list _ => Option.none

namespace Heap

mutual

/-- The value is shown as the datum. -/
inductive Shows (h : Heap) : Value → Datum → Prop
  | leaf {v : Value} {d : Datum} : v.shown? = some d → Shows h v d
  | list {cell : Nat} {ds : List Datum} : ShowsAll h (h.items cell) ds →
      Shows h (.list cell) (.list ds)

/-- The values are shown as the data, one by one. -/
inductive ShowsAll (h : Heap) : List Value → List Datum → Prop
  | nil : ShowsAll h [] []
  | cons {v : Value} {vs : List Value} {d : Datum} {ds : List Datum} : Shows h v d →
      ShowsAll h vs ds → ShowsAll h (v :: vs) (d :: ds)

end

variable {h : Heap}

theorem showsAll_of_mapM {n : Nat} (hn : ∀ v d, h.unfold n v = some d → h.Shows v d.masked) :
    ∀ {vs : List Value} {ds : List Datum}, vs.mapM (h.unfold n) = some ds →
      h.ShowsAll vs (Datum.maskedAll ds)
  | [], ds, hds => by
    cases hds
    exact .nil
  | v :: vs, ds, hds => by
    simp only [List.mapM_cons, Option.pure_def, Option.bind_eq_bind, Option.bind_eq_some_iff,
      Option.some.injEq] at hds
    obtain ⟨d, hd, rest, hrest, rfl⟩ := hds
    exact .cons (hn v d hd) (showsAll_of_mapM hn hrest)

/-- What comes into sight at some depth is the unfolding. -/
theorem shows_of_unfold : ∀ {n : Nat} {v : Value} {d : Datum}, h.unfold n v = some d →
    h.Shows v d.masked
  | 0, .list _, _, hd => by cases hd
  | n + 1, .list cell, d, hd => by
    rw [unfold] at hd
    obtain ⟨ds, hds, rfl⟩ := Option.map_eq_some_iff.1 hd
    rw [Datum.masked]
    exact .list (showsAll_of_mapM (fun _ _ => shows_of_unfold) hds)
  | _, .none, _, hd | _, .unknown, _, hd | _, .bool _, _, hd | _, .int _, _, hd
  | _, .float _, _, hd | _, .nan _, _, hd | _, .complex _ _ _, _, hd | _, .str _, _, hd => by
    rw [unfold] at hd
    cases hd
    exact .leaf rfl

theorem unfold_mono {n k : Nat} (hnk : n ≤ k) {v : Value} {d : Datum}
    (hd : h.unfold n v = some d) : h.unfold k v = some d := by
  induction hnk with
  | refl => exact hd
  | step _ ih => exact unfold_succ ih

theorem unfold_of_shown? {v : Value} {d : Datum} (hd : v.shown? = some d) (n : Nat) :
    ∃ seen, h.unfold n v = some seen ∧ seen.masked = d := by
  cases v <;> cases hd <;> exact ⟨_, by rw [unfold], rfl⟩

mutual

/-- An unfolding is finite, so all of it comes into sight at some depth. -/
theorem Shows.unfold : ∀ {v : Value} {d : Datum}, h.Shows v d →
    ∃ n seen, h.unfold n v = some seen ∧ seen.masked = d
  | _, _, .leaf hd => ⟨0, unfold_of_shown? hd 0⟩
  | _, _, .list hds => by
    obtain ⟨n, seen, hseen, rfl⟩ := hds.unfold
    exact ⟨n + 1, .list seen, by rw [Heap.unfold, hseen]; rfl, rfl⟩

theorem ShowsAll.unfold : ∀ {vs : List Value} {ds : List Datum}, h.ShowsAll vs ds →
    ∃ n seen, vs.mapM (h.unfold n) = some seen ∧ Datum.maskedAll seen = ds
  | _, _, .nil => ⟨0, [], rfl, rfl⟩
  | v :: vs, _, .cons hd hds => by
    obtain ⟨n, seen, hseen, rfl⟩ := hd.unfold
    obtain ⟨k, rest, hrest, rfl⟩ := hds.unfold
    refine ⟨max n k, seen :: rest, ?_, rfl⟩
    rw [List.mapM_cons, unfold_mono (Nat.le_max_left n k) hseen,
      mapM_congr_some (fun _ _ _ => unfold_mono (Nat.le_max_right n k)) hrest]
    rfl

end

/-- A snapshot gives the unfolding of a value. -/
theorem snapshot_eq_ok_iff {v : Value} {d : Datum} : h.snapshot v = .ok d ↔ h.Shows v d := by
  constructor
  · intro hd
    obtain ⟨seen, hseen, rfl⟩ := snapshot_eq_ok hd
    exact shows_of_unfold hseen
  · intro hd
    obtain ⟨n, seen, hseen, rfl⟩ := hd.unfold
    have hview : h.view? v = some seen := by
      rw [← unfold_eq_view? (Nat.le_max_right n (h.cells.size + 1))]
      exact unfold_mono (Nat.le_max_left _ _) hseen
    rw [snapshot, hview]
    rfl

end Heap

theorem forall₂_of_mapM_ok {f : α → Except Fault β} : ∀ {as : List α} {bs : List β},
    as.mapM f = .ok bs → List.Forall₂ (fun a b => f a = .ok b) as bs
  | [], _, h => by
    cases h
    exact .nil
  | a :: as, _, h => by
    rw [List.mapM_cons] at h
    obtain ⟨b, hb, h⟩ := exists_of_bind_ok h
    obtain ⟨bs, hbs, h⟩ := exists_of_bind_ok h
    cases h
    exact .cons hb (forall₂_of_mapM_ok hbs)

/-- Variables are shown with their names and the unfoldings of their values, in their order. -/
theorem Heap.shows_of_snapshotScope {h : Heap} {scope : Scope} {bindings : Table Datum}
    (hb : h.snapshotScope scope = .ok bindings) :
    List.Forall₂ (fun e shown => shown.1 = e.1 ∧ h.Shows e.2 shown.2) scope.entries
      bindings.entries := by
  unfold Heap.snapshotScope at hb
  obtain ⟨entries, hentries, hb⟩ := exists_of_bind_ok hb
  cases hb
  refine (forall₂_of_mapM_ok hentries).imp fun e shown he => ?_
  obtain ⟨d, hd, he⟩ := exists_of_bind_ok he
  cases he
  exact ⟨rfl, snapshot_eq_ok_iff.1 hd⟩

/-! ### Steps stay as they are -/

/-- A computation that only adds steps to those recorded so far, however it ends. -/
def Run.AddsSteps (x : Run α) : Prop :=
  ∀ m : Machine, m.recorder.steps <+: (x.outcome m).2.recorder.steps

namespace Run.AddsSteps

theorem of_log {x : Run α} (h : ∀ m : Machine, (x.outcome m).2.recorder.log = m.recorder.log) :
    AddsSteps x := fun m => by
  rw [Recorder.steps, Recorder.steps, h m]

theorem bind {x : Run α} {f : α → Run β} (hx : AddsSteps x) (hf : ∀ a, AddsSteps (f a)) :
    AddsSteps (x >>= f) := by
  intro m
  have hm := hx m
  rcases hr : x.outcome m with ⟨fault | a, m'⟩ <;> rw [hr] at hm
  · rw [outcome_bind_error hr]
    exact hm
  · rw [outcome_bind_ok hr]
    exact hm.trans (hf a m')

theorem value (a : α) : AddsSteps (pure a) := of_log fun _ => rfl

theorem stepOf (limits : Limits) (line : Int) (kind : String) (explanation : Text)
    (scope : Scope) :
    AddsSteps (Record.stepOf limits line (StepKind.ofName kind) explanation scope) := by
  intro m
  rcases Record.outcome_stepOf_cases limits line kind explanation scope m with
    ⟨fault, -, hm⟩ | ⟨k, bindings, -, -, -, hm⟩ <;> rw [hm]
  · exact List.prefix_rfl
  · exact List.reverse_prefix.2 (List.suffix_cons _ _)

theorem continueLoop (limits : Limits) (line iteration cost : Int) :
    AddsSteps (Record.continueLoop limits line iteration cost) := by
  refine of_log fun m => ?_
  rw [Record.outcome_continueLoop]
  split_ifs <;> rfl

theorem enter (limits : Limits) (function : String) (params : List String) (line : Int)
    (args : List Value) (explanation : Text) {body : Scope → Run α}
    (hbody : ∀ scope, AddsSteps (body scope)) :
    AddsSteps (Record.enter limits function params line args explanation body) := by
  intro m
  rw [Record.outcome_enter]
  split_ifs
  · exact List.prefix_rfl
  cases m.heap.snapshotScope (Record.bindParams params args) with
  | error fault => exact List.prefix_rfl
  | ok shown =>
    have hcall := (stepOf limits line "function_call" explanation
      (Record.bindParams params args)).bind (fun _ => hbody (Record.bindParams params args))
      (m.push ⟨function, shown⟩)
    change _ <+: ((Record.step limits line .functionCall explanation
      (Record.bindParams params args) >>= fun _ => _).outcome _).2.recorder.steps at hcall
    dsimp only
    split <;> rename_i hr <;> rw [hr] at hcall <;> exact hcall

mutual

theorem act (limits : Limits) : ∀ act : Act, AddsSteps (act.run limits)
  | .write _ _ => of_log fun _ => rfl
  | .record line kind explanation scope => by
    rw [Act.run]
    exact (stepOf limits line kind explanation scope).bind fun _ => value _
  | .proceed line iteration cost => by
    rw [Act.run]
    exact (continueLoop limits line iteration cost).bind fun _ => value _
  | .alter _ => of_log fun _ => rfl
  | .raise _ => of_log fun _ => rfl
  | .invoke function params line args explanation body returned => by
    rw [Act.run]
    exact (enter limits function params line args explanation fun _ =>
      (acts limits body).bind fun _ => value _).bind fun _ => value _

theorem acts (limits : Limits) : ∀ acts : List Act, AddsSteps (Act.runAll limits acts)
  | [] => of_log fun _ => rfl
  | a :: as => by
    rw [Act.runAll]
    exact (act limits a).bind fun _ => acts limits as

end

end Run.AddsSteps

/-- The machine after further operations, whether or not they are cut short. -/
def Machine.after (limits : Limits) (m : Machine) (acts : List Act) : Machine :=
  acts.foldl (fun m act => ((act.run limits).outcome m).2) m

theorem Machine.steps_after (limits : Limits) (acts : List Act) : ∀ m : Machine,
    m.recorder.steps <+: (m.after limits acts).recorder.steps := by
  induction acts with
  | nil => exact fun _ => List.prefix_rfl
  | cons act acts ih => exact fun m => (AddsSteps.act limits act m).trans (ih _)

/-- The variables of a scope cannot be shown exactly if one of them reaches a list that contains
itself. Otherwise each is shown as the unfolding of its value, in order. A step that is recorded
holds just that, and stays as it is whatever is done to the lists later. -/
theorem snapshotScope_unfolds (h : Heap) (scope : Scope) :
    (h.snapshotScope scope = .error .bottomless ↔
      ∃ e ∈ scope.entries, ∃ cell, h.Reaches e.2 cell ∧ h.ReachedFrom (h.items cell) cell) ∧
    ((∀ e ∈ scope.entries, ¬ ∃ cell, h.Reaches e.2 cell ∧ h.ReachedFrom (h.items cell) cell) →
      ∃ bindings, h.snapshotScope scope = .ok bindings ∧
        List.Forall₂ (fun e shown => shown.1 = e.1 ∧ h.Shows e.2 shown.2) scope.entries
          bindings.entries) ∧
    ∀ (limits : Limits) (recorder : Recorder) (line : Int) (kind : StepKind) (explanation : Text)
      (m : Machine),
      (Record.step limits line kind explanation scope).outcome ⟨h, recorder⟩ = (.ok (), m) →
      ∃ s : Step, m.recorder.steps = recorder.steps ++ [s] ∧
        h.snapshotScope scope = .ok s.bindings ∧
        ∀ acts : List Act, recorder.steps ++ [s] <+: (m.after limits acts).recorder.steps := by
  rcases h.snapshotScope_cases scope with ⟨bindings, hok, hscope⟩ | ⟨herror, hscope⟩
  · refine ⟨?_, fun _ => ⟨bindings, hok, Heap.shows_of_snapshotScope hok⟩, ?_⟩
    · rw [hok]
      exact iff_of_false (by rintro ⟨⟩) fun ⟨e, he, hb⟩ => hscope e he hb
    · intro limits recorder line kind explanation m hm
      rw [Record.outcome_step, hok] at hm
      split_ifs at hm
      · cases hm
      obtain rfl : Machine.recorded ⟨h, recorder⟩ line kind explanation bindings = m :=
        congrArg Prod.snd hm
      have hsteps : (Machine.recorded ⟨h, recorder⟩ line kind explanation bindings).recorder.steps
          = recorder.steps ++ [_] := List.reverse_cons
      exact ⟨_, hsteps, hok, fun acts => hsteps ▸ Machine.steps_after limits acts _⟩
  · refine ⟨iff_of_true herror hscope, fun hnone => ?_, ?_⟩
    · obtain ⟨e, he, hb⟩ := hscope
      exact absurd hb (hnone e he)
    · intro limits recorder line kind explanation m hm
      rw [Record.outcome_step, herror] at hm
      split_ifs at hm <;> cases hm

/-- Two lists that hold each other. -/
def entangledLists : Heap := { cells := #[[.int 1, .list 1], [.list 0]] }

/-- A list twice in another one, with the unknown value in it. -/
def doubledList : Heap := { cells := #[[.int 1, .unknown], [.list 0, .list 0]] }

/-- The lists that hold each other cannot be shown. The list that is there twice is shown twice, and
stays in the step when all lists are gone. -/
theorem snapshotScope_unfolds_shared :
    let scope : Scope := Table.ofList [("a", .list 1), ("b", .list 0)]
    entangledLists.snapshotScope scope = .error .bottomless ∧
    ∃ bindings, doubledList.snapshotScope scope = .ok bindings ∧
      List.Forall₂ (fun e shown => shown.1 = e.1 ∧ doubledList.Shows e.2 shown.2) scope.entries
        bindings.entries ∧
      ∃ m s, (Record.step {} 0 .assignment [] scope).outcome ⟨doubledList, {}⟩ = (.ok (), m) ∧
        s.bindings = bindings ∧ [s] <+: (m.after {} [.alter fun _ => {}]).recorder.steps := by
  intro scope
  obtain ⟨hfails, -, -⟩ := snapshotScope_unfolds entangledLists scope
  obtain ⟨-, hshown, hsteps⟩ := snapshotScope_unfolds doubledList scope
  have hcycle : entangledLists.Reaches (.list 1) 0 :=
    .item (List.mem_singleton_self _) (.here 0)
  refine ⟨hfails.2 ⟨("a", .list 1), List.mem_cons_self, 0, hcycle, .list 1,
    List.mem_cons_of_mem _ (List.mem_singleton_self _), hcycle⟩, ?_⟩
  have hflat : ∀ e ∈ scope.entries, ¬ doubledList.Bottomless e.2 := by
    intro e he
    rw [← Heap.view?_eq_none_iff]
    rcases List.mem_cons.1 he with rfl | he
    · rintro ⟨⟩
    · rw [List.mem_singleton.1 he]
      rintro ⟨⟩
  obtain ⟨bindings, hok, hall⟩ := hshown hflat
  refine ⟨bindings, hok, hall, ?_⟩
  have hrecord : (Record.step {} 0 .assignment [] scope).outcome ⟨doubledList, {}⟩ =
      (.ok (), Machine.recorded ⟨doubledList, {}⟩ 0 .assignment [] bindings) := by
    rw [Record.outcome_step, hok, if_neg (by decide)]
  obtain ⟨s, -, hs, hkept⟩ := hsteps {} {} 0 .assignment [] _ hrecord
  refine ⟨_, s, hrecord, ?_, hkept _⟩
  rw [hok] at hs
  exact (Except.ok.inj hs).symm

end Stepwise
