import Stepwise.Proofs.Regimes

/-!
# Statements keep to a regime

A statement of a line of the region starts calm with variables whose values may be held. It works,
records its step and is calm again, or it is a `return` and its call is over. The variables it leaves
and the value it returns may be held.
-/

namespace Stepwise

open Source Run

variable {α β : Type}

namespace Regime

variable {dialect : Dialect} {p : Program} {limits : Limits} {G : Regime dialect p limits}
  {frames : List Frame}

open Holds

section Flows

variable (G)

/-- Where statements leave the recorder: the call is over if they returned. -/
def After (flow : Flow) : Recorder → Prop := if flow.returned.isSome then G.Over else G.Calm

/-- A computation that runs statements keeps to the regime. -/
abbrev Flows (frames : List Frame) (x : Run Flow) : Prop :=
  G.Holds frames (Fatal dialect p) G.Calm x G.values.Flowing G.After

/-- Where a way to read a statement leaves the recorder: its step is recorded if it fits. -/
def Tried (fit : Option Scope) : Recorder → Prop := if fit.isSome then G.Calm else G.Busy

/-- A computation that reads a statement in one way keeps to the regime. -/
abbrev Tries (frames : List Frame) (x : Run (Option Scope)) : Prop :=
  G.Holds frames (Fatal dialect p) G.Busy x (fun fit => ∀ scope ∈ fit, G.values.Scoped scope)
    G.Tried

variable {G}

theorem flowing {scope : Scope} (hs : G.values.Scoped scope) : G.values.Flowing { scope } :=
  ⟨hs, fun _ h => by cases h⟩

theorem flowsOn {E : Fault → Prop} {scope : Scope} (hs : G.values.Scoped scope) :
    G.Holds frames E G.Calm (pure { scope }) G.values.Flowing G.After :=
  valueWith (flowing hs) fun _ h => h

theorem andThen {flow : Flow} (hflow : G.values.Flowing flow) {next : Block}
    (hn : ∀ scope, G.values.Scoped scope → G.Flows frames (next scope)) :
    G.Holds frames (Fatal dialect p) (G.After flow) (flow.andThen next) G.values.Flowing
      G.After := by
  obtain ⟨scope, _ | v⟩ := flow
  · exact hn scope hflow.1
  · exact valueWith hflow fun _ h => h

theorem inTurn {run : α → Block}
    (hr : ∀ piece scope, G.values.Scoped scope → G.Flows frames (run piece scope)) :
    ∀ (pieces : List α) {scope : Scope}, G.values.Scoped scope →
      G.Flows frames (Flow.inTurn run pieces scope)
  | [], _, hs => flowsOn hs
  | piece :: rest, scope, hs => (hr piece scope hs).bind fun _ hflow =>
      andThen hflow fun _ => inTurn hr rest

theorem unfit : G.Tries frames (pure none) :=
  valueWith (fun _ h => by cases h) fun _ h => h

/-- A reading that fits ends with its step. -/
theorem Records.fits {x : Run α} {S : α → Prop} (hx : G.Records frames x S) {f : α → Scope}
    (hf : ∀ a, S a → G.values.Scoped (f a)) : G.Tries frames (do pure (some (f (← x)))) := by
  refine hx.bind fun a ha => valueWith ?_ fun _ h => h
  rintro _ ⟨⟩
  exact hf a ha

end Flows

section Statements

variable {host : Host} (H : G.Serves host) {line : Nat} (hl : (G.region frames).Line line)
  {scope : Scope} (hs : G.values.Scoped scope)
include H hl hs

/-- A `return` ends its call. -/
theorem giveBack (text : List Char) : G.Flows frames (Indented.giveBack host line text scope) := by
  have recorded (explanation : Text) : G.Holds frames (Fatal dialect p) G.Busy
      (host.record line .functionReturn explanation scope) (fun _ => True) fun _ => G.Over := by
    unfold Host.record
    rw [H.limits]
    exact recordStep line .functionReturn explanation hs fun _ _ hframes hb hsteps hshows =>
      G.over_return explanation hb (hframes.symm ▸ hl) hsteps hshows
  have returned : ∀ v, G.values.Val v → G.Holds frames (Fatal dialect p) G.Busy
      (do let described ← host.describe v
          host.record line .functionReturn ("Return " ++ described) scope
          pure { scope, returned := some v : Flow }) G.values.Flowing G.After := by
    intro v hv
    refine (describe v).bind fun _ _ => (recorded _).bind fun _ _ => valueWith ⟨hs, ?_⟩ fun _ h => h
    rintro _ ⟨⟩
    exact hv
  unfold Indented.giveBack
  dsimp only
  refine fromCalm ?_
  split_ifs
  · exact (value ValueInvariant.val_none).bind returned
  · exact (evaluateText H hs text).bind returned

section IndentedStatements

omit hl in
theorem printing : ∀ (args : List (List Char)) (acc : Indented.Printing),
    G.Works frames (Indented.printing host scope args acc) fun _ => True
  | [], acc => value trivial
  | arg :: rest, acc => by
    have ih := fun acc (_ : True) => printing rest acc
    rw [Indented.printing]
    dsimp only
    split
    · exact (evaluateText H hs _).bind fun _ _ => (value trivial).bind ih
    · exact (evaluateText H hs _).bind fun v _ => (display v).bind fun _ _ =>
        (value trivial).bind ih
    · exact (evaluateText H hs _).bind fun v _ => (display v).bind fun _ _ =>
        (value trivial).bind ih
    · exact (value trivial).bind ih

theorem print (args : List Char) :
    G.Records frames (Indented.print host line args scope) fun _ => True :=
  (printing H hs _ _).bind fun _ _ => (Holds.mapM fun v _ => display v).bind fun _ _ =>
    (Holds.write _ _).bind fun _ _ => record H hs hl .print _ rfl

theorem assignChain (chain : List (List Char)) (value : List Char) :
    G.Tries frames (Indented.assignChain host line chain value scope) := by
  refine (parseTargets H chain).bind fun targets ht => ?_
  split
  · exact unfit
  · rename_i targets
    refine (evaluateText H hs value).bind fun v hv => ?_
    have pairs : ∀ pair ∈ targets.map (·, v), pair.1.OfDialect dialect ∧ G.values.Val pair.2 := by
      intro pair hp
      obtain ⟨t, hm, rfl⟩ := List.mem_map.1 hp
      exact ⟨ht targets rfl t hm, hv⟩
    exact (storeEach H pairs hs).bind fun scope hs => (describe v).bind fun _ _ =>
      (record H hs hl .assignment _ rfl).fits fun _ _ => hs

theorem assignCombined {target : Expr} (ht : target.OfDialect dialect) (a : Assignment)
    {op : BinaryOp} (hop : dialect = .braced → op ≠ .pow) :
    G.Records frames (Indented.assignCombined host line target a op scope) G.values.Scoped :=
  (evaluateText H hs a.value).bind fun v hv => (evaluate H hs ht).bind fun _ hcurrent =>
    (combine H hop hcurrent hv).bind fun result hresult => (store H hs ht hresult).bind
      fun _ hs' => (describe v).bind fun _ _ => (describe result).bind fun _ _ =>
        (record H hs' hl .assignment _ rfl).bind fun _ _ => value hs'

omit hl in
theorem unpacked (count : Nat) (text : List Char) :
    G.Works frames (Indented.unpacked host count text scope) G.values.All := by
  unfold Indented.unpacked
  split_ifs
  · exact (evaluateText H hs text).bind fun _ hv => value (.cons hv .nil)
  · dsimp only
    split_ifs
    · exact evaluateTexts H hs _
    · refine (evaluateText H hs text).bind fun packed hv => Holds.get.bind fun m hm => ?_
      split
      · refine value ?_
        split_ifs
        · exact ValueInvariant.all_sequence? hm hv ‹_›
        · exact .replicate ValueInvariant.val_unknown _
      · exact value (.replicate ValueInvariant.val_unknown _)

theorem assign (indented : dialect = .indented) (a : Assignment) :
    G.Tries frames (Indented.assign host line a scope) := by
  unfold Indented.assign
  split
  · exact assignChain H hl hs _ _
  · refine (parseTargets H _).bind fun targets ht => ?_
    split
    · exact unfit
    · exact unfit
    · refine (assignCombined H hl hs (ht _ rfl _ List.mem_cons_self) a ?_).fits fun _ => id
      rw [indented]
      exact fun h => by cases h
    · exact unfit
    · rename_i targets _ _
      refine (unpacked H hs _ a.value).bind fun values hv => ?_
      have pairs : ∀ pair ∈ targets.zip values,
          pair.1.OfDialect dialect ∧ G.values.Val pair.2 := fun pair hp =>
        ⟨ht targets rfl _ (List.of_mem_zip hp).1, hv _ (List.of_mem_zip hp).2⟩
      exact (storeEach H pairs hs).bind fun scope hs => (describeAll values).bind fun _ _ =>
        (record H hs hl .assignment _ rfl).fits fun _ _ => hs

theorem callMethodStatement (text : List Char) {receiver : Expr}
    (hr : receiver.OfDialect dialect) (name : String) {args : List Expr}
    (ha : Expr.OfDialectAll dialect args) :
    G.Records frames (Indented.callMethod host line text receiver name args scope)
      fun _ => True :=
  (evaluateEach H hs args ha).bind fun values hv => (callMethod H hs hr name hv).bind
    fun _ _ => (describeAll values).bind fun _ _ => record H hs hl .expression _ rfl

theorem evaluateOnly (text : List Char) {e : Option Expr}
    (he : ∀ e' ∈ e, e'.OfDialect dialect) :
    G.Records frames (Indented.evaluateOnly host line text e scope) fun _ => True := by
  unfold Indented.evaluateOnly
  split
  · have hm := he _ rfl
    exact callMethodStatement H hl hs text hm.2.1 _ hm.2.2
  · exact (evaluate H hs (he _ rfl)).bind fun _ _ => record H hs hl .expression _ rfl
  · exact record H hs hl .expression _ rfl

theorem simple (indented : dialect = .indented) (text : List Char) :
    G.Records frames (Indented.simple host line text scope) G.values.Scoped := by
  unfold Indented.simple
  split
  · exact (print H hl hs _).bind fun _ _ => value hs
  · refine (parse H text).bind fun e he => ?_
    have evaluated : G.Records frames
        (do Indented.evaluateOnly host line text e scope; pure scope) G.values.Scoped :=
      (evaluateOnly H hl hs text he).bind fun _ _ => value hs
    dsimp only
    split
    · refine (assign H hl hs indented _).bind ?_
      rintro (_ | scope') hscope
      · exact evaluated
      · exact value (hscope scope' rfl)
    · refine Holds.bind unfit ?_
      rintro (_ | scope') hscope
      · exact evaluated
      · exact value (hscope scope' rfl)

end IndentedStatements

section BracedStatements

variable (braced : dialect = .braced)

omit H hl hs in
theorem gives_coerce (isFloat : Bool) {v : Value} (hv : G.values.Val v) :
    Gives G.values.Val (Braced.coerce isFloat v) := by
  unfold Braced.coerce
  split
  · refine .bindAny fun x => .pure ?_
    split_ifs
    · exact ValueInvariant.val_float _
    · exact hv
  · split_ifs
    · exact .pure hv
    · split
      · exact .pure (ValueInvariant.val_int _)
      · exact .pure hv
  · exact .pure hv

omit H hl hs in
theorem coerced (isFloat : Bool) {v : Value} (hv : G.values.Val v) (braced : dialect = .braced) :
    G.Works frames (ofExcept (Braced.coerce isFloat v) : Run Value) G.values.Val :=
  worksOfExcept (Braced.faultsIn_coerce isFloat v) (.tooLarge braced) (gives_coerce isFloat hv)

omit H hl hs in
theorem gives_keepKind (current : Value) {v : Value} (hv : G.values.Val v) :
    Gives G.values.Val (Braced.keepKind current v) := by
  unfold Braced.keepKind
  split
  · exact gives_coerce false hv
  · exact .bindAny fun _ => .pure (ValueInvariant.val_float _)
  · exact .bindAny fun _ => .pure (ValueInvariant.val_float _)
  · exact .pure hv

omit H hl hs in
theorem kept (current : Value) {v : Value} (hv : G.values.Val v) (braced : dialect = .braced) :
    G.Works frames (ofExcept (Braced.keepKind current v) : Run Value) G.values.Val :=
  worksOfExcept (Braced.faultsIn_keepKind current v) (.tooLarge braced) (gives_keepKind current hv)

omit H hl hs in
theorem madeList {items : List Value} (hi : G.values.All items) :
    G.Works frames (Run.onHeap (HeapM.newList items)) G.values.Val :=
  onHeap (fun _ => .pure _) (.newList hi)

omit H hl hs in
theorem val_zero (isFloat : Bool) : G.values.Val (Braced.zero isFloat) := by
  cases isFloat
  · exact ValueInvariant.val_int 0
  · exact ValueInvariant.val_float 0

include braced

omit hl in
theorem itemValues (isFloat : Bool) : ∀ items : List (List Char),
    G.Works frames (Braced.itemValues host isFloat scope items) G.values.All
  | [] => value .nil
  | item :: rest => (evaluateText H hs item).bind fun _ hv => (coerced isFloat hv braced).bind
      fun _ hw => (itemValues isFloat rest).bind fun _ hws => value (.cons hw hws)

omit hl in
theorem arrayValue (size : List Char) (init : Option (List Char)) (isFloat : Bool) :
    G.Works frames (Braced.arrayValue host size init isFloat scope) G.values.Val := by
  refine (evaluateText H hs size).bind fun v _ => ?_
  split
  · split
    · exact (itemValues H hs braced isFloat _).bind fun _ hi =>
        madeList (hi.append (.replicate (val_zero isFloat) _))
    · exact evaluateText H hs _
  · split
    · exact madeList (.replicate (val_zero isFloat) _)
    · exact value ValueInvariant.val_unknown

omit hl in
theorem initialValue (isFloat : Bool) (d : Braced.Declarator) :
    G.Works frames (Braced.initialValue host isFloat d scope) G.values.Val := by
  unfold Braced.initialValue
  split
  · exact arrayValue H hs braced _ _ isFloat
  · exact (evaluateText H hs _).bind fun _ hv => coerced isFloat hv braced
  · exact value (val_zero isFloat)

omit hl hs scope in
theorem declareEach (isFloat : Bool) : ∀ (ds : List Braced.Declarator) {scope : Scope},
    G.values.Scoped scope →
      G.Works frames (Braced.declareEach host isFloat ds scope) fun r => G.values.Scoped r.2
  | [], _, hs => value hs
  | d :: ds, _, hs => (initialValue H hs braced isFloat d).bind fun v hv =>
      (describe v).bind fun _ _ => (declareEach isFloat ds (hs.put d.name hv)).bind fun _ hs' =>
        value hs'

theorem declare (d : Braced.Declaration) :
    G.Tries frames (Braced.declare host line d scope) := by
  unfold Braced.declare
  split
  · exact unfit
  · exact unfit
  · exact (declareEach H braced d.isFloat _ hs).bind fun _ hs' =>
      (record H hs' hl .assignment _ rfl).fits fun _ _ => hs'

omit braced in
theorem increment (target : List Char) (change : Braced.Change) (shown : String) :
    G.Tries frames (Braced.increment host line target change shown scope) := by
  have hop : dialect = .braced → change.op ≠ .pow := fun _ => by cases change <;> decide
  refine (parseTarget H target).bind fun e he => ?_
  split
  · exact unfit
  · have ht := he _ rfl
    exact (evaluate H hs ht).bind fun _ hcurrent =>
      (combine H hop hcurrent (ValueInvariant.val_int 1)).bind fun result hresult =>
        (store H hs ht hresult).bind fun _ hs' => (describe result).bind fun _ _ =>
          (record H hs' hl .assignment _ rfl).fits fun _ _ => hs'

omit hl braced in
theorem currentValue {target : Expr} (ht : target.OfDialect dialect) :
    G.Works frames (Braced.currentValue host target scope) G.values.Val := by
  unfold Braced.currentValue
  split
  · refine value ?_
    cases hv : scope.get? _ with
    | none => exact ValueInvariant.val_none
    | some v => exact hs.get? hv
  · exact evaluate H hs ht

omit hl hs scope in
theorem storeChain : ∀ {targets : List Expr} {v : Value} {scope : Scope},
    (∀ t ∈ targets, t.OfDialect dialect) → G.values.Val v → G.values.Scoped scope →
      G.Works frames (Braced.storeChain host targets v scope)
        fun r => G.values.Val r.1 ∧ G.values.Scoped r.2
  | [], _, _, _, hv, hs => value ⟨hv, hs⟩
  | target :: rest, _, _, ht, hv, hs => by
    have hhead := ht target List.mem_cons_self
    exact (currentValue H hs hhead).bind fun current _ => (kept current hv braced).bind
      fun _ hw => (store H hs hhead hw).bind fun _ hs' =>
        storeChain (fun t hm => ht t (List.mem_cons_of_mem target hm)) hw hs'

theorem bracedAssignChain (chain : List (List Char)) (value : List Char) :
    G.Tries frames (Braced.assignChain host line chain value scope) := by
  refine (parseTargets H chain).bind fun targets ht => ?_
  split
  · exact unfit
  · refine (evaluateText H hs value).bind fun v hv => Holds.bind
      (storeChain H braced (fun t hm => ht _ rfl t (List.mem_reverse.1 hm)) hv hs) fun r hr => ?_
    exact (describe r.1).bind fun _ _ =>
      (record H hr.2 hl .assignment _ rfl).fits fun _ _ => hr.2

theorem assignOne {target : Expr} (ht : target.OfDialect dialect) {a : Assignment}
    (ha : a.op ≠ some .pow) :
    G.Records frames (Braced.assignOne host line target a scope) G.values.Scoped := by
  refine (evaluateText H hs a.value).bind fun v hv => (currentValue H hs ht).bind
    fun current hcurrent => ?_
  have stored : ∀ r : Value × Text, G.values.Val r.1 → G.Records frames
      (do let s ← host.store target r.1 scope
          host.record line .assignment r.2 s.2
          pure s.2) G.values.Scoped :=
    fun r hr => (store H hs ht hr).bind fun _ hs' =>
      (record H hs' hl .assignment _ rfl).bind fun _ _ => value hs'
  dsimp only
  split
  · exact (kept current hv braced).bind fun result hr => (describe result).bind fun _ _ =>
      (value (S := fun r : Value × Text => G.values.Val r.1) hr).bind stored
  · rename_i op hop
    exact (combine H (fun _ hpow => ha (hpow ▸ hop)) hcurrent hv).bind fun w hw =>
      (kept current hw braced).bind fun result hr => (describe v).bind fun _ _ =>
        (describe result).bind fun _ _ =>
          (value (S := fun r : Value × Text => G.values.Val r.1) hr).bind stored

theorem bracedAssign (a : Assignment) :
    G.Tries frames (Braced.assign host line a scope) := by
  unfold Braced.assign
  split_ifs with hop
  · exact unfit
  · split
    · exact bracedAssignChain H hl hs braced _ _
    · refine (parseTarget H a.target).bind fun target ht => ?_
      split
      · exact (assignOne H hl hs braced (ht _ rfl) fun h => hop (.inr h)).fits fun _ => id
      · exact unfit

omit braced in
theorem output (function : String) {args : List Expr} (ha : Expr.OfDialectAll dialect args) :
    G.Records frames (Braced.output host line function args scope) fun _ => True :=
  (evaluateEach H hs args ha).bind fun values _ =>
    (worksOnText (Braced.ofText_outputText function values)).bind fun _ _ =>
      (Holds.write _ _).bind fun _ _ => record H hs hl .print _ rfl

omit H hl hs braced in
theorem firstFit : ∀ {readings : List (Scope → Run (Option Scope))},
    (∀ reading ∈ readings, G.Tries frames (reading scope)) →
      G.Tries frames (Braced.firstFit readings scope)
  | [], _ => unfit
  | reading :: rest, h => by
    have ih := firstFit fun r hr => h r (List.mem_cons_of_mem _ hr)
    refine (h reading List.mem_cons_self).bind ?_
    rintro (_ | scope') hscope
    · exact ih
    · exact valueWith hscope fun _ h => h

theorem changes (text : List Char) :
    ∀ reading ∈ Braced.changes host line text, G.Tries frames (reading scope) := by
  intro reading hr
  simp only [Braced.changes, List.mem_cons, List.not_mem_nil, or_false] at hr
  rcases hr with rfl | rfl | rfl | rfl <;> dsimp only <;> split
  · exact declare H hl hs braced _
  · exact unfit
  · exact increment H hl hs _ _ _
  · exact unfit
  · exact increment H hl hs _ _ _
  · exact unfit
  · exact bracedAssign H hl hs braced _
  · exact unfit

/-- A statement other than a `return`. -/
theorem plainStatement {text : List Char} (ht : Source.returnText? text = none) :
    G.Holds frames (Fatal dialect p) G.Busy (Braced.statement host line text scope)
      (fun flow => flow.returned = none ∧ G.values.Scoped flow.scope) fun _ => G.Calm := by
  unfold Braced.statement
  rw [ht]
  refine (parse H text).bind fun e he => ?_
  split
  · rename_i function args hcall
    have hargs : Expr.OfDialectAll dialect args := by
      unfold Braced.outputCall? at hcall
      split at hcall
      · split_ifs at hcall
        cases hcall
        exact he _ rfl
      · cases hcall
    exact (output H hl hs _ hargs).bind fun _ _ => value ⟨rfl, hs⟩
  · refine (firstFit (changes H hl hs braced text)).bind ?_
    have recorded : G.Holds frames (Fatal dialect p) G.Busy
        (do host.record line .expression s!"Evaluated: {String.ofList text}" scope
            pure { scope : Flow })
        (fun flow => flow.returned = none ∧ G.values.Scoped flow.scope) fun _ => G.Calm :=
      (record H hs hl .expression _ rfl).bind fun _ _ => value ⟨rfl, hs⟩
    rintro (_ | scope') hscope
    · dsimp only
      split
      · exact (evaluate H hs (he _ rfl)).bind fun _ _ => recorded
      · exact recorded
    · exact value ⟨rfl, hscope scope' rfl⟩

theorem statement (text : List Char) :
    G.Flows frames (Braced.statement host line text scope) := by
  cases ht : Source.returnText? text with
  | none =>
    intro m hframes hi hm
    have hends := (plainStatement H hl hs braced ht).fromCalm m hframes hi hm
    rcases hr : (Braced.statement host line text scope).outcome m with ⟨fault | flow, m'⟩ <;>
      rw [hr] at hends
    · exact hends
    · obtain ⟨scope', returned⟩ := flow
      obtain ⟨hframes', hi', ⟨rfl, hs'⟩, hcalm⟩ := hends
      exact ⟨hframes', hi', flowing hs', hcalm⟩
  | some value =>
    unfold Braced.statement
    rw [ht]
    exact giveBack H hl hs value

omit hs scope in
theorem statements (text : List Char) {scope : Scope} (hs : G.values.Scoped scope) :
    G.Flows frames (Braced.statements host line text scope) :=
  inTurn (fun text _ hs => statement H hl hs braced text) _ hs

end BracedStatements

end Statements

end Regime

end Stepwise
