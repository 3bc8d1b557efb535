import Stepwise.Proofs.Regimes
import Stepwise.Proofs.Rereading

/-!
# No reference leads nowhere

A heap is closed if every list that is an item of a list is there. The braced dialect keeps it so:
started with variables whose lists are there, a computation ends with a closed heap and gives values
whose lists are there, unless the run is given up (`Encloses`). Lists never go away, so what was
held before can still be held. This is shown for each piece of a statement, for statements, and from
them for whole bodies and calls (`encloses_callFunction`) and for programs (`encloses_runProgram`).
-/

namespace Stepwise

open Run Source Text

variable {α β : Type}

/-- All lists among the values have cells below `n`. -/
def AllBelow (n : Nat) (values : List Value) : Prop := ∀ v ∈ values, v.Below n

/-- All lists that variables hold have cells below `n`. -/
def ScopeBelow (n : Nat) (scope : Scope) : Prop :=
  ∀ name v, scope.get? name = some v → v.Below n

/-- All lists that a flow can hand on have cells below `n`. -/
def FlowBelow (n : Nat) (flow : Flow) : Prop :=
  ScopeBelow n flow.scope ∧ ∀ v ∈ flow.returned, v.Below n

section Below

variable {n k : Nat}

theorem AllBelow.mono {values : List Value} (hv : AllBelow n values) (hk : n ≤ k) :
    AllBelow k values :=
  fun v hm => (hv v hm).mono hk

theorem AllBelow.cons {v : Value} {values : List Value} (hv : v.Below n)
    (hvs : AllBelow n values) : AllBelow n (v :: values) :=
  List.forall_mem_cons.2 ⟨hv, hvs⟩

theorem ScopeBelow.mono {scope : Scope} (hs : ScopeBelow n scope) (hk : n ≤ k) :
    ScopeBelow k scope :=
  fun name v hv => (hs name v hv).mono hk

theorem ScopeBelow.put {scope : Scope} (hs : ScopeBelow n scope) (name : String) {v : Value}
    (hv : v.Below n) : ScopeBelow n (scope.put name v) := by
  intro name' w hw
  rw [Table.get?_put] at hw
  split_ifs at hw
  · cases hw
    exact hv
  · exact hs name' w hw

theorem scopeBelow_bindParams (params : List String) {args : List Value} (ha : AllBelow n args) :
    ScopeBelow n (Record.bindParams params args) := by
  intro name v hv
  obtain ⟨i, hi, heq⟩ := List.mem_mapIdx.1 (Table.mem_of_get?_ofList hv)
  cases heq
  rw [List.getD_eq_getElem?_getD]
  cases harg : args[i]? with
  | none => exact Value.below_of_not_list rfl n
  | some w => exact ha w (List.mem_of_getElem? harg)

theorem FlowBelow.mono {flow : Flow} (hf : FlowBelow n flow) (hk : n ≤ k) : FlowBelow k flow :=
  ⟨hf.1.mono hk, fun v hv => (hf.2 v hv).mono hk⟩

theorem FlowBelow.of_scope {scope : Scope} (hs : ScopeBelow n scope) : FlowBelow n { scope } :=
  ⟨hs, fun _ h => by cases h⟩

end Below

theorem Record.heap_step (limits : Limits) (line : Int) (kind : StepKind) (explanation : Text)
    (scope : Scope) (m : Machine) :
    ((Record.step limits line kind explanation scope).outcome m).2.heap = m.heap := by
  rw [Record.outcome_step]
  split_ifs
  · rfl
  · split <;> rfl

theorem Heap.size_write (h : Heap) (cell : Nat) (items : List Value) :
    (h.write cell items).cells.size = h.cells.size :=
  Array.size_setIfInBounds ..

theorem Heap.Closed.write {h : Heap} (hc : h.Closed) (cell : Nat) {items : List Value}
    (hi : ∀ v ∈ items, h.Holds v) : (h.write cell items).Closed := by
  intro cell' v hv
  rw [items_write] at hv
  rw [Holds, size_write]
  split_ifs at hv
  · exact hi v hv
  · exact hc cell' v hv

/-- Ends of a computation that was started with `n` lists. Nothing is said of runs that are given
up. -/
def Enclosed (n : Nat) (S : Nat → α → Prop) : Except Fault α × Machine → Prop
  | (.ok a, m) => m.heap.Closed ∧ n ≤ m.heap.cells.size ∧ S m.heap.cells.size a
  | (.error fault, m) => fault.isRecoverable = true → m.heap.Closed ∧ n ≤ m.heap.cells.size

/-- From a closed heap with at least `n` lists the computation leads to a closed heap, and its
result satisfies `S` there. -/
def Encloses (n : Nat) (x : Run α) (S : Nat → α → Prop) : Prop :=
  ∀ m : Machine, m.heap.Closed → n ≤ m.heap.cells.size →
    Enclosed m.heap.cells.size S (x.outcome m)

namespace Encloses

variable {n : Nat} {S S' : Nat → α → Prop} {R : Nat → β → Prop}

theorem bind {x : Run α} {f : α → Run β} (hx : Encloses n x S)
    (hf : ∀ k a, n ≤ k → S k a → Encloses k (f a) R) : Encloses n (x >>= f) R := by
  intro m hm hn
  have h := hx m hm hn
  rcases hr : x.outcome m with ⟨fault | a, m'⟩ <;> rw [hr] at h
  · rw [outcome_bind_error hr]
    exact h
  · obtain ⟨hm', hle, hs⟩ := h
    rw [outcome_bind_ok hr]
    have h' := hf _ a (hn.trans hle) hs m' hm' le_rfl
    rcases hr' : (f a).outcome m' with ⟨fault | b, m''⟩ <;> rw [hr'] at h'
    · exact fun hf => ⟨(h' hf).1, hle.trans (h' hf).2⟩
    · exact ⟨h'.1, hle.trans h'.2.1, h'.2.2⟩

theorem ok {x : Run α} {m m' : Machine} {a : α} (hx : Encloses n x S) (hm : m.heap.Closed)
    (hn : n ≤ m.heap.cells.size) (h : x.outcome m = (.ok a, m')) :
    m'.heap.Closed ∧ m.heap.cells.size ≤ m'.heap.cells.size ∧ S m'.heap.cells.size a := by
  have hend := hx m hm hn
  rwa [h] at hend

theorem value {a : α} (h : ∀ k, n ≤ k → S k a) : Encloses n (pure a) S :=
  fun _ hm hn => ⟨hm, le_rfl, h _ hn⟩

theorem fault (f : Fault) : Encloses n (throw f : Run α) S := fun _ hm _ _ => ⟨hm, le_rfl⟩

theorem map {x : Run α} (hx : Encloses n x S) {g : α → β} (h : ∀ k a, S k a → R k (g a)) :
    Encloses n (x >>= fun a => pure (g a)) R := by
  intro m hm hn
  have hends := hx m hm hn
  rcases hr : x.outcome m with ⟨fault | a, m'⟩ <;> rw [hr] at hends
  · rw [outcome_bind_error hr]
    exact hends
  · rw [outcome_bind_ok hr]
    exact ⟨hends.1, hends.2.1, h _ a hends.2.2⟩

/-- Computations that leave the heap alone. -/
theorem still {x : Run α} (h : ∀ m, (x.outcome m).2.heap = m.heap) :
    Encloses n x fun _ _ => True := by
  intro m hm hn
  have heq := h m
  rcases hr : x.outcome m with ⟨fault | a, m'⟩ <;> rw [hr] at heq <;> dsimp only at heq
  · exact fun _ => ⟨heq.symm ▸ hm, heq.symm ▸ le_rfl⟩
  · exact ⟨heq.symm ▸ hm, heq.symm ▸ le_rfl, trivial⟩

theorem fromHeap {read : Heap → Except Fault α}
    (hs : ∀ h : Heap, h.Closed → n ≤ h.cells.size → ∀ a, read h = .ok a → S h.cells.size a) :
    Encloses n (Run.fromHeap read) S := by
  intro m hm hn
  rw [outcome_fromHeap]
  cases hr : read m.heap with
  | error fault => exact fun _ => ⟨hm, le_rfl⟩
  | ok a => exact ⟨hm, le_rfl, hs m.heap hm hn a hr⟩

theorem text (read : Heap → Except Fault α) : Encloses n (Run.fromHeap read) fun _ _ => True :=
  fromHeap fun _ _ _ _ _ => trivial

theorem given {x : Except Fault α} (hs : ∀ a, x = .ok a → ∀ k, n ≤ k → S k a) :
    Encloses n (ofExcept x) S := by
  intro m hm hn
  rw [outcome_ofExcept]
  cases x with
  | error fault => exact fun _ => ⟨hm, le_rfl⟩
  | ok a => exact ⟨hm, le_rfl, hs a rfl _ hn⟩

theorem recover {x : Run Value} (hx : Encloses n x Value.Below) :
    Encloses n (Run.recover x) Value.Below := by
  intro m hm hn
  have h := hx m hm hn
  rw [outcome_recover]
  rcases hr : x.outcome m with ⟨fault | v, m'⟩ <;> rw [hr] at h <;> dsimp only
  · split_ifs with hrec
    · exact ⟨(h hrec).1, (h hrec).2, Value.below_of_not_list rfl _⟩
    · exact h
  · exact h

theorem mapM {f : α → Run β} {P : β → Prop} {l : List α}
    (h : ∀ a ∈ l, ∀ k, Encloses k (f a) fun _ => P) :
    Encloses n (l.mapM f) fun _ bs => ∀ b ∈ bs, P b := by
  induction l generalizing n with
  | nil => exact value fun _ _ _ hb => by cases hb
  | cons a l ih =>
    rw [List.mapM_cons]
    refine (h a List.mem_cons_self n).bind fun k b _ hb =>
      (ih fun a' ha => h a' (List.mem_cons_of_mem a ha)).bind fun k' bs _ hbs => value fun _ _ => ?_
    rintro b' (_ | ⟨_, hb'⟩)
    · exact hb
    · exact hbs b' hb'

/-- What a computation gives that ends like itself, as it does if its operands are there. -/
theorem of_alike {x : Run Value} (hx : ∀ m : Machine, m.heap.Closed → n ≤ m.heap.cells.size →
    Alike Machine.heap m.heap m m Twin (x.outcome m) (x.outcome m)) :
    Encloses n x Value.Below := by
  intro m hm hn
  have h := hx m hm hn
  rcases hr : x.outcome m with ⟨fault | v, m'⟩ <;> rw [hr] at h
  · cases h with
    | fault _ hp => exact fun _ => ⟨hp.left.closed, hp.left.grown.size_le⟩
    | bottomless => exact fun hrec => by cases hrec
  · cases h with
    | value hp _ _ ht => exact ⟨hp.left.closed, hp.left.grown.size_le, ht.holds_left⟩

end Encloses

open Encloses

/-! ### Expressions -/

/-- A value that is no list. -/
theorem Encloses.plain {n : Nat} {v : Value} (hv : v.isList = false) :
    Encloses n (pure v) Value.Below :=
  value fun k _ => Value.below_of_not_list hv k

section Operating

variable {n : Nat}

theorem encloses_apply {op : BinaryOp} (hop : op ≠ .mem ∧ op ≠ .notMem) {v w : Value}
    (hv : v.Below n) (hw : w.Below n) :
    Encloses n (Run.onHeap (Operator.apply .braced op v w)) Value.Below :=
  of_alike fun _ hm hn =>
    have hp := (Heap.Sprouts.refl hm).paired
    (Operator.twins_apply hp (.of_holds hp (hv.mono hn)) (.of_holds hp (hw.mono hn)) hop).onHeap

theorem encloses_applyUnary (op : UnaryOp) {v : Value} (hv : v.Below n) :
    Encloses n (Run.onHeap (Operator.applyUnary op v)) Value.Below :=
  of_alike fun _ hm hn =>
    have hp := (Heap.Sprouts.refl hm).paired
    (Operator.twins_applyUnary hp (.of_holds hp (hv.mono hn)) op).onHeap

theorem encloses_newList {items : List Value} (hi : AllBelow n items) :
    Encloses n (Run.onHeap (HeapM.newList items)) Value.Below :=
  of_alike fun _ hm hn =>
    (Operator.twins_newList (Heap.Sprouts.refl hm).paired (hi.mono hn)).onHeap

/-- The built-in functions but those for output look at their arguments and make no list. -/
theorem twins_braced? {h : Heap} (hp : h.Paired h h) {name : String} {f : List Value → HeapM Value}
    (hf : Builtin.braced? name = some f) (args : List Value) :
    Operator.GivesTwins h h h (f args) (f args) := by
  have hint (n : Int) : Operator.GivesTwins h h h (pure (.int n)) (pure (.int n)) :=
    Operator.twins_value hp (.atom rfl)
  have hfloat (x : Float) : Operator.GivesTwins h h h (HeapM.identify (.float x))
      (HeapM.identify (.float x)) := Operator.twins_identify hp rfl
  have hsingle {g : Value → HeapM Value} (hg : ∀ v, Operator.GivesTwins h h h (g v) (g v)) :
      Operator.GivesTwins h h h (Builtin.single g args) (Builtin.single g args) := by
    unfold Builtin.single
    split
    · exact hg _
    · exact Operator.twins_fault hp _
  unfold Builtin.braced? at hf
  split at hf <;> cases hf
  · exact hsingle fun v => Operator.twins_given hp (.refl _) fun _ => hint _
  · exact hsingle fun v => Operator.twins_given hp (.refl _) fun _ => hfloat _
  · refine hsingle fun v => Operator.twins_given hp (.refl _) fun _ =>
      Operator.twins_given hp (.refl _) fun x => ?_
    split_ifs
    · exact Operator.twins_fault hp _
    · exact hfloat _
  · unfold Builtin.pow
    split
    · exact Operator.twins_given hp (.refl _) fun _ => Operator.twins_given hp (.refl _) fun _ =>
        Operator.twins_given hp (.refl _) fun _ => Operator.twins_given hp (.refl _) fun _ =>
          Operator.twins_given hp (.refl _) fun _ => hfloat _
    · exact Operator.twins_fault hp _
  · unfold Builtin.strlen
    split
    · rename_i cell _
      show Operator.GivesTwins h h h
        (ofExcept (Builtin.beforeZero h (h.items cell)) >>= fun n => pure (.int n))
        (ofExcept (Builtin.beforeZero h (h.items cell)) >>= fun n => pure (.int n))
      exact Operator.twins_given hp (.refl _) fun _ => hint _
    · exact hint _
    · exact Operator.twins_fault hp _

/-- A built-in function leads from a closed heap to a closed one. -/
theorem encloses_builtin {name : String} {f : List Value → Run Value}
    (hf : Builtin.find? .braced name = some f) (args : List Value) :
    Encloses n (f args) Value.Below := by
  have hwrite {n : Nat} (text : Text) : Encloses n (Builtin.writeCounted text) Value.Below :=
    (still fun _ => rfl).bind fun _ _ _ _ => plain rfl
  unfold Builtin.find? at hf
  dsimp only at hf
  split_ifs at hf
  · cases hf
    cases args with
    | nil => exact fault _
    | cons fmt rest => exact (text _).bind fun _ _ _ _ => hwrite _
  · cases hf
    exact (text _).bind fun _ _ _ _ => hwrite _
  · obtain ⟨g, hg, rfl⟩ := Option.map_eq_some_iff.1 hf
    exact of_alike fun _ hm _ => (twins_braced? (Heap.Sprouts.refl hm).paired hg args).onHeap

end Operating

/-- A host of the braced dialect whose calls lead to closed heaps. -/
structure Host.Encloses (host : Host) : Prop where
  dialect : host.dialect = .braced
  call : ∀ n name {args}, AllBelow n args → Stepwise.Encloses n (host.call name args) Value.Below

/-- Evaluation inside one expression, however many calls are left. -/
def EnclosesIn (n : Nat) (x : EvalM α) (S : Nat → α → Prop) : Prop :=
  ∀ calls : Int, Encloses n (x.run calls) fun k r => S k r.1

namespace EnclosesIn

variable {n : Nat} {S : Nat → α → Prop} {R : Nat → β → Prop}

theorem bind {x : EvalM α} {f : α → EvalM β} (hx : EnclosesIn n x S)
    (hf : ∀ k a, n ≤ k → S k a → EnclosesIn k (f a) R) : EnclosesIn n (x >>= f) R :=
  fun calls => Encloses.bind (hx calls) fun k r hk hr => hf k r.1 hk hr r.2

theorem lift {x : Run α} (hx : Encloses n x S) : EnclosesIn n (liftM x : EvalM α) S :=
  fun _ => hx.map fun _ _ => id

theorem value {a : α} (h : ∀ k, n ≤ k → S k a) : EnclosesIn n (pure a : EvalM α) S :=
  fun calls => Encloses.value (a := (a, calls)) h

theorem plain {v : Value} (hv : v.isList = false) :
    EnclosesIn n (pure v : EvalM Value) Value.Below :=
  value fun k _ => Value.below_of_not_list hv k

theorem whenTrue (v : Value) {x y : EvalM Value} (hx : EnclosesIn n x Value.Below)
    (hy : EnclosesIn n y Value.Below) :
    EnclosesIn n (do if ← Run.isTrue v then x else y) Value.Below := by
  intro calls m hm hn
  show Enclosed _ _ (((if m.heap.isTrue v then x else y).run calls).outcome m)
  split_ifs
  · exact hx calls m hm hn
  · exact hy calls m hm hn

theorem truthOf (w : Value) :
    EnclosesIn n (do pure (Operator.truth .braced (← Run.isTrue w)) : EvalM Value) Value.Below :=
  (lift (still fun _ => rfl)).bind fun _ _ _ _ => plain rfl

theorem spendCall : EnclosesIn n Eval.spendCall fun _ _ => True := by
  intro calls m hm _
  show Enclosed _ _ ((if calls - 1 < 0 then (throw .undefined : EvalM Unit) else pure ())
    (calls - 1) m)
  split_ifs
  · exact fun _ => ⟨hm, le_rfl⟩
  · exact ⟨hm, le_rfl, trivial⟩

end EnclosesIn

section Evaluating

variable {host : Host} {scope : Scope}

theorem encloses_callNamed (H : host.Encloses) {n : Nat} (name : String) {args : List Value}
    (ha : AllBelow n args) : Encloses n (Eval.callNamed host name args) Value.Below := by
  unfold Eval.callNamed
  rw [H.dialect]
  split
  · exact encloses_builtin ‹_› args
  · exact H.call n name ha

mutual

theorem encloses_eval (H : host.Encloses) : ∀ {n : Nat} (e : Expr), ScopeBelow n scope →
    e.OfDialect .braced → EnclosesIn n (Eval.eval host scope e) Value.Below
  | n, .lit l, _, _ => by
    rw [Eval.eval]
    exact .plain (by cases l <;> rfl)
  | n, .var name, hs, _ => by
    rw [Eval.eval]
    unfold Eval.lookup
    cases hv : scope.get? name with
    | none => exact .lift (fault _)
    | some v => exact .value fun _ hk => (hs name v hv).mono hk
  | n, .list _, _, he => by cases he.1
  | n, .unary op operand, hs, he => by
    rw [Eval.eval]
    exact (encloses_eval H operand hs he.2).bind fun k v _ hv => .lift (encloses_applyUnary op hv)
  | n, .binary op left right, hs, he => by
    obtain ⟨hop, hel, her⟩ := he
    rw [Eval.eval]
    refine (encloses_eval H left hs hel).bind fun k v hk hv => ?_
    have hw := encloses_eval H right (hs.mono hk) her
    cases op with
    | and => exact .whenTrue v hw (.value fun _ hk => hv.mono hk)
    | or => exact .whenTrue v (.value fun _ hk => hv.mono hk) hw
    | logicalAnd =>
      exact .whenTrue v (hw.bind fun _ w _ _ => .truthOf w) (.plain rfl)
    | logicalOr =>
      exact .whenTrue v (.plain rfl) (hw.bind fun _ w _ _ => .truthOf w)
    | mem | notMem => exact absurd hop (by decide)
    | _ =>
      rw [H.dialect]
      exact hw.bind fun k' w hk' hw => .lift (encloses_apply (by decide) (hv.mono hk') hw)
  | n, .index target position, hs, he => by
    rw [Eval.eval, H.dialect]
    exact (encloses_eval H target hs he.1).bind fun k v hk hv =>
      (encloses_eval H position (hs.mono hk) he.2).bind fun k' i _ _ =>
        .lift (fromHeap fun h hh _ r hr => Operator.holds_item (.refl hh) hr)
  | n, .call name args, hs, he => by
    rw [Eval.eval]
    exact EnclosesIn.spendCall.bind fun k _ hk _ => (encloses_evalAll H args (hs.mono hk) he).bind
      fun k' values _ hv => .lift (encloses_callNamed H name hv)
  | n, .method _ _ _, _, he => by cases he.1

theorem encloses_evalAll (H : host.Encloses) : ∀ {n : Nat} (es : List Expr),
    ScopeBelow n scope → Expr.OfDialectAll .braced es →
      EnclosesIn n (Eval.evalAll host scope es) AllBelow
  | n, [], _, _ => by
    rw [Eval.evalAll]
    exact .value fun _ _ _ hv => by cases hv
  | n, e :: es, hs, he => by
    rw [Eval.evalAll]
    exact (encloses_eval H e hs he.1).bind fun k v hk hv =>
      (encloses_evalAll H es (hs.mono hk) he.2).bind fun k' values hk' hvs =>
        .value fun _ hk'' => (AllBelow.cons (hv.mono hk') hvs).mono hk''

end

variable (H : host.Encloses) {n : Nat} (hs : ScopeBelow n scope)
include H hs

theorem encloses_evaluate {e : Expr} (he : e.OfDialect .braced) :
    Encloses n (host.evaluate scope e) Value.Below := by
  unfold Host.evaluate
  rw [StateT.run'_eq, map_eq_pure_bind]
  exact (Encloses.map (encloses_eval H e hs he _) fun _ _ => id).recover

theorem encloses_evaluateText (text : List Char) :
    Encloses n (host.evaluateText scope text) Value.Below := by
  unfold Host.evaluateText
  rw [H.dialect]
  dsimp only
  split_ifs
  · exact plain rfl
  · split
    · exact encloses_evaluate H hs (Expr.ofDialect_of_parse ‹_›)
    · exact plain rfl

omit hs in
theorem encloses_evaluateEach : ∀ {n : Nat} (es : List Expr), ScopeBelow n scope →
    Expr.OfDialectAll .braced es → Encloses n (host.evaluateEach scope es) fun _ _ => True
  | _, [], _, _ => value fun _ _ => trivial
  | _, _ :: es, hs, he => (encloses_evaluate H hs he.1).bind fun _ _ hk _ =>
      (encloses_evaluateEach es (hs.mono hk) he.2).bind fun _ _ _ _ => value fun _ _ => trivial

omit hs scope in
theorem encloses_parse (text : List Char) :
    Encloses n (host.parse text) fun _ e => ∀ e' ∈ e, e'.OfDialect .braced := by
  unfold Host.parse
  rw [H.dialect]
  refine given fun _ he _ _ e' he' => ?_
  cases he'
  exact Expr.ofDialect_of_parse? he

omit hs scope in
theorem encloses_parseTarget (text : List Char) :
    Encloses n (host.parseTarget text) fun _ target => ∀ t ∈ target, t.OfDialect .braced :=
  (encloses_parse H text).map fun _ _ he t ht => he t (Option.filter_eq_some_iff.1 ht).1

omit hs scope in
theorem encloses_parseTargets (texts : List (List Char)) : Encloses n (host.parseTargets texts)
    fun _ targets => ∀ ts ∈ targets, ∀ t ∈ ts, t.OfDialect .braced := by
  refine (Encloses.mapM fun text _ k => encloses_parse H text).bind fun k parsed _ hp => ?_
  split
  · rename_i targets htargets
    refine value fun _ _ ts hts t ht => ?_
    split_ifs at hts
    · cases hts
      obtain ⟨e, he, rfl⟩ := mem_of_mapM_some htargets t ht
      exact hp _ he t rfl
    · cases hts
  · exact value fun _ _ _ h => by cases h

omit hs scope in
theorem encloses_combine {op : BinaryOp} (hop : op ≠ .mem ∧ op ≠ .notMem) {v w : Value}
    (hv : v.Below n) (hw : w.Below n) : Encloses n (host.combine op v w) Value.Below := by
  unfold Host.combine
  rw [H.dialect]
  exact (encloses_apply hop hv hw).recover

omit H hs scope in
theorem encloses_storeItem (cell : Nat) (index : Int) {v : Value} (hv : v.Below n) :
    Encloses n (Host.storeItem cell index v) fun _ _ => True := by
  intro m hm hn
  rw [outcome_storeItem]
  cases Operator.position? (m.heap.items cell).length index with
  | none => exact ⟨hm, le_rfl, trivial⟩
  | some i =>
    have hitems : ∀ w ∈ (m.heap.items cell).set i v, m.heap.Holds w := fun w hw =>
      (List.mem_or_eq_of_mem_set hw).elim (hm cell w) fun h => h ▸ hv.mono hn
    exact ⟨hm.write cell hitems, (Heap.size_write ..).ge, trivial⟩

omit H in
/-- Whatever a place is, a value that is written to it has its lists. -/
theorem encloses_write (place : Place) {v : Value} (hv : v.Below n) :
    Encloses n (place.write .braced v scope) fun k r => ScopeBelow k r.2 := by
  have hsame : Encloses n (pure (false, scope)) fun k r => ScopeBelow k r.2 :=
    value fun _ hk => hs.mono hk
  cases place with
  | named name => exact value fun _ hk => (hs.put name hv).mono hk
  | nowhere => exact hsame
  | element base index holder =>
    rw [Place.write]
    cases index.int? with
    | none => exact hsame
    | some i =>
      rw [Option.elim_some]
      unfold Place.writeAt
      split
      · exact hsame
      · split
        · exact (encloses_storeItem _ i hv).bind fun _ _ hk _ =>
            value fun _ hk' => hs.mono (hk.trans hk')
        · refine value fun k hk => ?_
          rw [if_pos rfl, Place.writePoint]
          cases Host.replacePoint? _ i v with
          | none => exact hs.mono hk
          | some t =>
            exact (hs.mono hk).put _ (Value.below_of_not_list rfl k)
        · exact hsame

theorem encloses_locate {target : Expr} (ht : target.OfDialect .braced) :
    Encloses n (host.locate scope target) fun _ _ => True := by
  cases target with
  | index container position =>
    exact (encloses_evaluate H hs ht.1).bind fun _ _ hk _ =>
      (encloses_evaluate H (hs.mono hk) ht.2).bind fun _ _ _ _ => value fun _ _ => trivial
  | _ => exact value fun _ _ => trivial

theorem encloses_store {target : Expr} (ht : target.OfDialect .braced) {v : Value}
    (hv : v.Below n) :
    Encloses n (host.store target v scope) fun k r => ScopeBelow k r.2 := by
  rw [Host.store_eq, H.dialect]
  exact (encloses_locate H hs ht).bind fun _ place hk _ =>
    encloses_write (hs.mono hk) place (hv.mono hk)

omit H hs scope in
theorem encloses_describe (v : Value) : Encloses n (host.describe v) fun _ _ => True := text _

omit H hs host in
theorem encloses_step (limits : Limits) (line : Int) (kind : StepKind) (explanation : Text)
    (scope : Scope) :
    Encloses n (Record.step limits line kind explanation scope) fun _ _ => True :=
  still (Record.heap_step limits line kind explanation scope)

omit H hs in
theorem encloses_record (line : Nat) (kind : StepKind) (explanation : Text) :
    Encloses n (host.record line kind explanation scope) fun _ _ => True :=
  encloses_step host.limits line kind explanation scope

end Evaluating

/-! ### Statements -/

namespace Source.Assignment

/-- The operators of compound assignments. -/
def operators : List BinaryOp := [.add, .sub, .mul, .div, .mod, .floorDiv, .pow]

theorem mem_operators_of_splitOperator (front : List Char) {op : BinaryOp}
    (h : (splitOperator front).1 = some op) : op ∈ operators := by
  unfold splitOperator at h
  split at h <;> cases h <;> decide

theorem mem_operators_of_splitFrom : ∀ {text front : List Char} {s : Nesting} {a : Assignment},
    splitFrom s front text = some a → ∀ op ∈ a.op, op ∈ operators
  | [], _, _, _, h, _, _ => by cases h
  | c :: rest, front, s, a, h, op, hop => by
    rw [splitFrom] at h
    split_ifs at h
    · exact mem_operators_of_splitFrom h op hop
    · unfold atSign? at h
      dsimp only at h
      split_ifs at h
      cases h
      exact mem_operators_of_splitOperator front hop
    · exact mem_operators_of_splitFrom h op hop

theorem mem_operators {text : List Char} {a : Assignment} (h : split? text = some a) :
    ∀ op ∈ a.op, op ∈ operators :=
  mem_operators_of_splitFrom h

theorem ne_mem_of_operators {op : BinaryOp} (h : op ∈ operators) : op ≠ .mem ∧ op ≠ .notMem := by
  constructor <;> rintro rfl <;> exact absurd h (by decide)

end Source.Assignment

section Statements

open Braced

theorem below_coerce (isFloat : Bool) {v w : Value} {n : Nat} (hv : v.Below n)
    (hw : coerce isFloat v = .ok w) : w.Below n := by
  unfold coerce at hw
  split at hw
  · rename_i i
    cases hx : Number.intToFloat i <;> rw [hx] at hw <;> cases hw
    exact Value.below_of_not_list (by split_ifs <;> rfl) n
  · split_ifs at hw
    · cases hw
      exact hv
    · split at hw <;> cases hw
      · exact Value.below_of_not_list rfl n
      · exact hv
  · cases hw
    exact hv

theorem below_keepKind {current v w : Value} {n : Nat} (hv : v.Below n)
    (hw : keepKind current v = .ok w) : w.Below n := by
  have hfloat (i : Int) (hi : (do pure (.float (← Number.intToFloat i))) = Except.ok w) :
      w.Below n := by
    cases hx : Number.intToFloat i <;> rw [hx] at hi <;> cases hi
    exact Value.below_of_not_list rfl n
  unfold keepKind at hw
  split at hw
  · exact below_coerce false hv hw
  · exact hfloat _ hw
  · exact hfloat _ hw
  · cases hw
    exact hv

theorem assignOne_eq (host : Host) (line : Nat) (target : Expr) (a : Assignment) (scope : Scope) :
    assignOne host line target a scope = (do
      let v ← host.evaluateText scope a.value
      let current ← currentValue host target scope
      let made ← assigned host a v current
      let written ← host.store target made.1 scope
      host.record line .assignment made.2 written.2
      pure written.2) := by
  unfold assignOne assigned
  cases a with
  | mk target op value => cases op <;> simp only [Option.elim, bind_assoc, pure_bind]

variable {host : Host} (H : host.Encloses) {scope : Scope}
include H

theorem encloses_itemValues (isFloat : Bool) : ∀ {n : Nat} (items : List (List Char)),
    ScopeBelow n scope → Encloses n (itemValues host isFloat scope items) AllBelow
  | _, [], _ => value fun _ _ _ hv => by cases hv
  | _, item :: rest, hs => (encloses_evaluateText H hs item).bind fun _ _ hk hv =>
      (given fun _ hw _ hk' => (below_coerce isFloat hv hw).mono hk').bind fun _ _ hk' hw =>
        (encloses_itemValues isFloat rest (hs.mono (hk.trans hk'))).bind fun _ _ hk'' hws =>
          value fun _ hk₃ => (AllBelow.cons (hw.mono hk'') hws).mono hk₃

variable {n : Nat} (hs : ScopeBelow n scope)
include hs

theorem encloses_arrayValue (size : List Char) (init : Option (List Char)) (isFloat : Bool) :
    Encloses n (arrayValue host size init isFloat scope) Value.Below := by
  have hzero (k count : Nat) : AllBelow k (List.replicate count (zero isFloat)) := by
    intro v hv
    rw [List.eq_of_mem_replicate hv]
    exact Value.below_of_not_list (by cases isFloat <;> rfl) k
  refine (encloses_evaluateText H hs size).bind fun k v hk _ => ?_
  split
  · split
    · exact (encloses_itemValues H isFloat _ (hs.mono hk)).bind fun k' items _ hi =>
        encloses_newList fun v hv => (List.mem_append.1 hv).elim (hi v) (hzero k' _ v)
    · exact encloses_evaluateText H (hs.mono hk) _
  · split
    · exact encloses_newList (hzero k _)
    · exact plain rfl

theorem encloses_initialValue (isFloat : Bool) (d : Declarator) :
    Encloses n (initialValue host isFloat d scope) Value.Below := by
  unfold initialValue
  split
  · exact encloses_arrayValue H hs _ _ isFloat
  · exact (encloses_evaluateText H hs _).bind fun _ _ _ hv =>
      given fun _ hw _ hk => (below_coerce isFloat hv hw).mono hk
  · exact plain (by cases isFloat <;> rfl)

omit hs scope in
theorem encloses_declareEach (isFloat : Bool) : ∀ {n : Nat} (ds : List Declarator) {scope : Scope},
    ScopeBelow n scope →
      Encloses n (declareEach host isFloat ds scope) fun k r => ScopeBelow k r.2
  | _, [], _, hs => value fun _ hk => hs.mono hk
  | _, d :: ds, _, hs => (encloses_initialValue H hs isFloat d).bind fun _ v hk hv =>
      (encloses_describe v).bind fun _ _ hk' _ =>
        (encloses_declareEach isFloat ds (((hs.mono hk).put d.name hv).mono hk')).map fun _ _ => id

/-- What a way to read a statement leaves if it fits. -/
def FitBelow (n : Nat) (fit : Option Scope) : Prop := ∀ scope ∈ fit, ScopeBelow n scope

omit H hs scope in
theorem unfit : Encloses n (pure none) FitBelow := value fun _ _ _ h => by cases h

omit H hs in
theorem recorded (line : Nat) (kind : StepKind) (explanation : Text) (hs : ScopeBelow n scope) :
    Encloses n (do host.record line kind explanation scope; pure (some scope)) FitBelow :=
  (encloses_record line kind explanation).bind fun _ _ hk _ => value fun _ hk' => by
    rintro _ ⟨⟩
    exact hs.mono (hk.trans hk')

theorem encloses_declare (line : Nat) (d : Declaration) :
    Encloses n (declare host line d scope) FitBelow := by
  unfold declare
  split
  · exact unfit
  · exact unfit
  · exact (encloses_declareEach H d.isFloat _ hs).bind fun _ _ _ hs' => recorded line _ _ hs'

theorem encloses_increment (line : Nat) (target : List Char) (change : Change) (shown : String) :
    Encloses n (increment host line target change shown scope) FitBelow := by
  have hop : change.op ≠ .mem ∧ change.op ≠ .notMem := by cases change <;> decide
  refine (encloses_parseTarget H target).bind fun k e hk he => ?_
  split
  · exact unfit
  · have ht := he _ rfl
    have hs := hs.mono hk
    exact (encloses_evaluate H hs ht).bind fun _ _ hk hv =>
      (encloses_combine H hop hv (Value.below_of_not_list rfl _)).bind
        fun _ result hk' hr => (encloses_store H (hs.mono (hk.trans hk')) ht hr).bind
          fun _ _ _ hs' => (encloses_describe result).bind fun _ _ hk'' _ =>
            recorded line _ _ (hs'.mono hk'')

theorem encloses_currentValue {target : Expr} (ht : target.OfDialect .braced) :
    Encloses n (currentValue host target scope) Value.Below := by
  unfold currentValue
  split
  · rename_i name
    refine value fun k hk => ?_
    cases hv : scope.get? name with
    | none => exact Value.below_of_not_list rfl k
    | some v => exact (hs name v hv).mono hk
  · exact encloses_evaluate H hs ht

omit hs scope in
theorem encloses_storeChain : ∀ {n : Nat} {targets : List Expr} {v : Value} {scope : Scope},
    (∀ t ∈ targets, t.OfDialect .braced) → v.Below n → ScopeBelow n scope →
      Encloses n (storeChain host targets v scope) fun k r => ScopeBelow k r.2
  | _, [], _, _, _, _, hs => value fun _ hk => hs.mono hk
  | _, target :: rest, _, _, ht, hv, hs => by
    have hhead := ht target List.mem_cons_self
    exact (encloses_currentValue H hs hhead).bind fun _ _ hk _ =>
      (given fun _ hw _ hk' => (below_keepKind (hv.mono hk) hw).mono hk').bind
        fun _ _ hk' hw => (encloses_store H (hs.mono (hk.trans hk')) hhead hw).bind
          fun _ _ hk'' hs' => encloses_storeChain
            (fun t hm => ht t (List.mem_cons_of_mem target hm)) (hw.mono hk'') hs'

theorem encloses_assignChain (line : Nat) (chain : List (List Char)) (value : List Char) :
    Encloses n (assignChain host line chain value scope) FitBelow := by
  refine (encloses_parseTargets H chain).bind fun k targets hk ht => ?_
  split
  · exact unfit
  · refine (encloses_evaluateText H (hs.mono hk) value).bind fun k' v hk' hv => Encloses.bind
      (encloses_storeChain H (fun t hm => ht _ rfl t (List.mem_reverse.1 hm)) hv
        (hs.mono (hk.trans hk'))) fun _ r _ hs' => ?_
    exact (encloses_describe r.1).bind fun _ _ hk'' _ => recorded line _ _ (hs'.mono hk'')

omit hs scope in
theorem encloses_assigned {a : Assignment} (ha : ∀ op ∈ a.op, op ∈ Assignment.operators)
    {v current : Value} (hv : v.Below n) (hcurrent : current.Below n) :
    Encloses n (assigned host a v current) fun k made => made.1.Below k := by
  have kept {k : Nat} {w : Value} (hw : w.Below k) :
      Encloses k (ofExcept (keepKind current w)) Value.Below :=
    given fun _ hr _ hk => (below_keepKind hw hr).mono hk
  unfold assigned
  cases hop : a.op with
  | none =>
    exact (kept hv).bind fun _ result _ hr => (encloses_describe result).bind fun _ _ hk _ =>
      value fun _ hk' => hr.mono (hk.trans hk')
  | some op =>
    exact (encloses_combine H (Assignment.ne_mem_of_operators (ha op hop)) hcurrent hv).bind
      fun _ w _ hw => (kept hw).bind fun _ result _ hr => (encloses_describe v).bind
        fun _ _ hk _ => (encloses_describe result).bind fun _ _ hk' _ =>
          value fun _ hk'' => hr.mono (hk.trans (hk'.trans hk''))

theorem encloses_assignOne (line : Nat) {target : Expr} (ht : target.OfDialect .braced)
    {a : Assignment} (ha : ∀ op ∈ a.op, op ∈ Assignment.operators) :
    Encloses n (assignOne host line target a scope) ScopeBelow := by
  rw [assignOne_eq]
  exact (encloses_evaluateText H hs a.value).bind fun _ _ hk hv =>
    (encloses_currentValue H (hs.mono hk) ht).bind fun _ _ hk₁ hcurrent =>
      (encloses_assigned H ha (hv.mono hk₁) hcurrent).bind fun _ _ hk₂ hmade =>
        (encloses_store H (hs.mono (hk.trans (hk₁.trans hk₂))) ht hmade).bind fun _ _ _ hs' =>
          (encloses_record line _ _).bind fun _ _ hk₃ _ =>
            value fun _ hk₄ => hs'.mono (hk₃.trans hk₄)

theorem encloses_assign (line : Nat) {a : Assignment}
    (ha : ∀ op ∈ a.op, op ∈ Assignment.operators) :
    Encloses n (assign host line a scope) FitBelow := by
  unfold assign
  split_ifs
  · exact unfit
  · split
    · exact encloses_assignChain H hs line _ _
    · refine (encloses_parseTarget H a.target).bind fun k target hk ht => ?_
      split
      · refine (encloses_assignOne H (hs.mono hk) line (ht _ rfl) ha).map fun _ _ hs' => ?_
        rintro _ ⟨⟩
        exact hs'
      · exact unfit

theorem encloses_output (line : Nat) (function : String) {args : List Expr}
    (ha : Expr.OfDialectAll .braced args) :
    Encloses n (output host line function args scope) fun _ _ => True :=
  (encloses_evaluateEach H args hs ha).bind fun _ _ _ _ => (text _).bind fun _ _ _ _ =>
    (still fun _ => rfl).bind fun _ _ _ _ => encloses_record line _ _

omit H hs in
theorem encloses_firstFit : ∀ {n : Nat} {readings : List (Scope → Run (Option Scope))},
    (∀ reading ∈ readings, ∀ k, n ≤ k → Encloses k (reading scope) FitBelow) →
      Encloses n (firstFit readings scope) FitBelow
  | _, [], _ => unfit
  | n, reading :: rest, h => by
    refine (h reading List.mem_cons_self n le_rfl).bind ?_
    rintro k (_ | scope') hk hscope
    · exact encloses_firstFit fun r hr k' hk' => h r (List.mem_cons_of_mem _ hr) k' (hk.trans hk')
    · refine value fun _ hk' => ?_
      rintro _ ⟨⟩
      exact (hscope scope' rfl).mono hk'

theorem encloses_changes (line : Nat) (text : List Char) :
    ∀ reading ∈ changes host line text, Encloses n (reading scope) FitBelow := by
  intro reading hr
  simp only [changes, List.mem_cons, List.not_mem_nil, or_false] at hr
  rcases hr with rfl | rfl | rfl | rfl <;> dsimp only <;> split
  · exact encloses_declare H hs line _
  · exact unfit
  · exact encloses_increment H hs line _ _ _
  · exact unfit
  · exact encloses_increment H hs line _ _ _
  · exact unfit
  · exact encloses_assign H hs line (Assignment.mem_operators ‹_›)
  · exact unfit

theorem encloses_giveBack (line : Nat) (text : List Char) :
    Encloses n (giveBack host line text scope) FlowBelow := by
  have hreturn : ∀ (k : Nat) (v : Value), n ≤ k → v.Below k → Encloses k
      (do let described ← host.describe v
          host.record line .functionReturn ("Return " ++ described) scope
          pure { scope, returned := some v : Flow }) FlowBelow :=
    fun k v hk hv => (encloses_describe v).bind fun _ _ hk₁ _ =>
      (encloses_record line _ _).bind fun _ _ hk₂ _ => value fun _ hk₃ => by
        have hle := hk₁.trans (hk₂.trans hk₃)
        refine ⟨hs.mono (hk.trans hle), ?_⟩
        rintro _ ⟨⟩
        exact hv.mono hle
  unfold giveBack
  dsimp only
  split_ifs
  · exact (plain rfl).bind hreturn
  · exact (encloses_evaluateText H hs text).bind hreturn

theorem encloses_statement (line : Nat) (text : List Char) :
    Encloses n (statement host line text scope) FlowBelow := by
  unfold statement
  split
  · exact encloses_giveBack H hs line _
  refine (encloses_parse H text).bind fun k e hk he => ?_
  have hs := hs.mono hk
  have hrecorded {k' : Nat} (hk' : k ≤ k') : Encloses k'
      (do host.record line .expression s!"Evaluated: {String.ofList text}" scope
          pure { scope : Flow }) FlowBelow :=
    (encloses_record line _ _).bind fun _ _ hk₁ _ => value fun _ hk₂ =>
      .of_scope (hs.mono (hk'.trans (hk₁.trans hk₂)))
  split
  · rename_i function args hcall
    have hargs : Expr.OfDialectAll .braced args := by
      unfold outputCall? at hcall
      split at hcall
      · split_ifs at hcall
        cases hcall
        exact he _ rfl
      · cases hcall
    exact (encloses_output H hs line function hargs).bind fun _ _ hk _ => value fun _ hk' =>
      .of_scope (hs.mono (hk.trans hk'))
  · refine (encloses_firstFit fun r hr k' hk' =>
      encloses_changes H (hs.mono hk') line text r hr).bind ?_
    rintro k' (_ | scope') hk' hscope
    · dsimp only
      split
      · exact (encloses_evaluate H (hs.mono hk') (he _ rfl)).bind fun _ _ hk₁ _ =>
          hrecorded (hk'.trans hk₁)
      · exact hrecorded hk'
    · exact value fun _ hk₁ => .of_scope ((hscope scope' rfl).mono hk₁)

end Statements

/-! ### Runs -/

section Runs

open Braced

/-- A computation on the variables, whatever they are. -/
def BlockEncloses (block : Block) : Prop :=
  ∀ {n : Nat} {scope : Scope}, ScopeBelow n scope → Encloses n (block scope) FlowBelow

theorem encloses_andThen {n : Nat} {flow : Flow} (hflow : FlowBelow n flow) {next : Block}
    (hn : BlockEncloses next) : Encloses n (flow.andThen next) FlowBelow := by
  obtain ⟨scope, _ | v⟩ := flow
  · exact hn hflow.1
  · exact value fun _ hk => hflow.mono hk

theorem encloses_pure {n : Nat} {scope : Scope} (hs : ScopeBelow n scope) :
    Encloses n (pure { scope }) FlowBelow :=
  value fun _ hk => .of_scope (hs.mono hk)

theorem encloses_inTurn {run : α → Block} (hr : ∀ piece, BlockEncloses (run piece)) :
    ∀ pieces : List α, BlockEncloses (Flow.inTurn run pieces)
  | [], _, _, hs => encloses_pure hs
  | piece :: rest, _, _, hs => (hr piece hs).bind fun _ _ _ hflow =>
      encloses_andThen hflow (encloses_inTurn hr rest)

theorem encloses_continueLoop {n : Nat} (limits : Limits) (line iteration cost : Int) :
    Encloses n (Record.continueLoop limits line iteration cost) fun _ _ => True :=
  still fun m => by
    rw [Record.outcome_continueLoop]
    split_ifs <;> rfl

variable {host : Host} (H : host.Encloses)
include H

theorem encloses_statements (line : Nat) (text : List Char) :
    BlockEncloses (statements host line text) :=
  encloses_inTurn (fun text _ _ hs => encloses_statement H hs line text) _

theorem encloses_whileTrue (line : Nat) (guard : List Char) {body : Block}
    (hb : BlockEncloses body) : ∀ more iteration cost : Nat,
      BlockEncloses (Loop.whileTrue host line guard body more iteration cost)
  | 0, iteration, cost, n, scope, hs => by
    rw [Loop.whileTrue]
    exact (encloses_continueLoop _ _ _ _).bind fun _ _ hk _ => encloses_pure (hs.mono hk)
  | more + 1, iteration, cost, n, scope, hs => by
    rw [Loop.whileTrue]
    refine (encloses_continueLoop _ _ _ _).bind fun k b hk _ => ?_
    have hs := hs.mono hk
    cases b with
    | false => exact encloses_pure hs
    | true =>
      refine (encloses_evaluateText H hs guard).bind fun k' v hk' _ =>
        (still fun _ => rfl).bind fun k₁ t hk₁ _ => ?_
      have hs := hs.mono (hk'.trans hk₁)
      cases t with
      | false =>
        exact (encloses_record line _ _).bind fun _ _ hk _ => encloses_pure (hs.mono hk)
      | true =>
        exact (still fun _ => rfl).bind fun _ _ hk _ => (encloses_record line _ _).bind
          fun _ _ hk' _ => (hb (hs.mono (hk.trans hk'))).bind fun _ _ _ hflow =>
            (still fun _ => rfl).bind fun _ _ hk _ => encloses_andThen (hflow.mono hk)
              (encloses_whileTrue line guard hb more _ _)

/-- Where lines leave off, with the variables and the value that they leave. -/
abbrev RunsOn (n : Nat) (x : Run (Nat × Flow)) : Prop := Encloses n x fun k r => FlowBelow k r.2

omit H in
theorem Encloses.thenOn {n : Nat} {x : Run Flow} (hx : Encloses n x FlowBelow) (next : Nat) :
    RunsOn n (do pure (next, ← x)) :=
  hx.map fun _ _ => id

theorem encloses_chain {γ : Type} {runBody : γ → Block}
    (hb : ∀ body, BlockEncloses (runBody body)) :
    ∀ {n : Nat} (c : Chain γ) {scope : Scope}, ScopeBelow n scope →
      RunsOn n (c.run host runBody (statements host) scope)
  | _, .guarded line guard body resume rest, scope, hs => by
    refine (encloses_evaluateText H hs guard).bind fun k v hk _ =>
      (still fun _ => rfl).bind fun k' b hk' _ => ?_
    have hs := hs.mono (hk.trans hk')
    cases b with
    | true => exact (encloses_record line _ _).bind fun _ _ hk _ => (hb body (hs.mono hk)).thenOn _
    | false =>
      exact (encloses_record line _ _).bind fun _ _ hk _ => encloses_chain hb rest (hs.mono hk)
  | _, .otherwise body resume, scope, hs => (hb body hs).thenOn _
  | _, .malformed line text, scope, hs => (encloses_statements H line text hs).thenOn _
  | _, .done resume, scope, hs => value fun _ hk => .of_scope (hs.mono hk)

theorem encloses_advance (line : Nat) : ∀ (texts : List (List Char)) {n : Nat} {scope : Scope},
    ScopeBelow n scope → Encloses n (advance host line texts scope) ScopeBelow
  | [], _, _, hs => value fun _ hk => hs.mono hk
  | text :: rest, _, _, hs => (encloses_statement H hs line text).bind fun _ _ _ hflow =>
      encloses_advance line rest hflow.1

theorem encloses_runFor (line : Nat) (header : ForHeader) {body : Block}
    (hb : BlockEncloses body) : BlockEncloses (runFor host line header body) := by
  intro n scope hs
  have iteration : BlockEncloses (fun scope => do
      let flow ← body scope
      flow.andThen fun scope => do
        pure { scope := ← advance host line (splitCommas header.step) scope : Flow }) :=
    fun hs => (hb hs).bind fun _ _ _ hflow => encloses_andThen hflow fun hs' =>
      (encloses_advance H line _ hs').map fun _ _ hs'' => .of_scope hs''
  unfold runFor
  dsimp only
  generalize (if header.test.isEmpty = true then ['1'] else header.test) = guard
  have looped {k : Nat} {scope : Scope} (hs : ScopeBelow k scope) :=
    encloses_whileTrue H line guard iteration host.limits.maxLoopIterations.toNat 0 1 hs
  split_ifs
  · exact (value fun _ hk => hs.mono hk).bind fun _ _ _ hs' =>
      (encloses_record line _ _).bind fun _ _ hk _ => looped (hs'.mono hk)
  · exact (encloses_statements H line _ hs).bind fun _ _ _ hflow =>
      (value fun _ hk => hflow.1.mono hk).bind fun _ _ _ hs' =>
        (encloses_record line _ _).bind fun _ _ hk _ => looped (hs'.mono hk)

theorem encloses_runBody {runBlock : Extent → Block}
    (hb : ∀ extent, BlockEncloses (runBlock extent)) :
    ∀ body, BlockEncloses (runBody host runBlock body)
  | .lines extent => hb extent
  | .inline header texts => encloses_inTurn (encloses_statements H header) texts

omit H in
theorem encloses_define {n : Nat} (p : Program) (i : Nat) (header : FunctionHeader)
    (scope : Scope) : Encloses n (define host p i header scope) fun _ _ => True := by
  unfold define
  split_ifs
  · exact value fun _ _ => trivial
  · exact (encloses_record i _ _).bind fun _ _ _ _ => value fun _ _ => trivial
  · exact value fun _ _ => trivial

theorem encloses_runLine (p : Program) {runBlock : Extent → Block}
    (hb : ∀ extent, BlockEncloses (runBlock extent)) (i : Nat) {n : Nat} {scope : Scope}
    (hs : ScopeBelow n scope) : RunsOn n (runLine host p runBlock i scope) := by
  have hbody := encloses_runBody H hb
  unfold runLine
  dsimp only
  split
  · exact (encloses_define p i _ scope).bind fun _ _ hk _ =>
      value fun _ hk' => .of_scope (hs.mono (hk.trans hk'))
  · exact encloses_chain H hbody _ hs
  · exact value fun _ hk => .of_scope (hs.mono hk)
  · exact (encloses_record i _ _).bind fun _ _ hk _ =>
      (encloses_whileTrue H i _ (hbody _) _ 0 1 (hs.mono hk)).thenOn _
  · exact (encloses_runFor H i _ (hbody _) hs).thenOn _
  · exact (encloses_statements H i _ hs).thenOn _

theorem encloses_runBlock (p : Program) : ∀ (fuel : Nat) (extent : Extent),
    BlockEncloses (runBlock p (runLine host p) fuel extent)
  | 0, _, _, _, hs => encloses_pure hs
  | fuel + 1, extent, _, _, hs => by
    rw [runBlock]
    dsimp only
    split_ifs
    · exact (encloses_runLine H p (encloses_runBlock p fuel) _ hs).bind fun _ _ _ hr =>
        encloses_andThen hr (encloses_runBlock p fuel _)
    · exact encloses_pure hs

omit H in
/-- However the body of a call ends, the call is left with the heap of its end. -/
theorem encloses_enter {n : Nat} (limits : Limits) (name : String) (params : List String)
    (line : Int) {args : List Value} (ha : AllBelow n args) (explanation : Text)
    {body : Scope → Run Value}
    (hb : ∀ {k : Nat} {scope : Scope}, ScopeBelow k scope → Encloses k (body scope) Value.Below) :
    Encloses n (Record.enter limits name params line args explanation body) Value.Below := by
  have hentered : Encloses n (Record.step limits line .functionCall explanation
      (Record.bindParams params args) >>= fun _ => body (Record.bindParams params args))
      Value.Below :=
    (encloses_step limits line .functionCall explanation _).bind fun _ _ hk _ =>
      hb ((scopeBelow_bindParams params ha).mono hk)
  intro m hm hn
  rw [Record.outcome_enter]
  split_ifs
  · exact fun hrec => by cases hrec
  · split
    · exact fun _ => ⟨hm, le_rfl⟩
    · rename_i shown _
      have h := hentered (m.push ⟨name, shown⟩) hm hn
      split <;> rename_i hr <;> rw [hr] at h
      · exact h
      · intro hrec
        split_ifs at hrec
        · cases hrec
        · exact h hrec

omit H in
theorem encloses_enterFunction {n : Nat} (functions : FunctionTable) (limits : Limits)
    {body : FunctionDef → Scope → Run Value}
    (hb : ∀ f {k : Nat} {scope : Scope}, ScopeBelow k scope → Encloses k (body f scope) Value.Below)
    (name : String) {args : List Value} (ha : AllBelow n args) :
    Encloses n (enterFunction .braced functions limits body name args) Value.Below := by
  unfold enterFunction
  split
  · exact fault _
  · exact (Encloses.map (R := fun _ _ => True)
      (.mapM (P := fun _ => True) fun v _ _ => encloses_describe v) fun _ _ _ => trivial).bind
        fun _ _ hk _ => encloses_enter limits _ _ _ (ha.mono hk) _ (hb _)

omit H host in
/-- Calls of the functions of a program lead from closed heaps to closed heaps. -/
theorem encloses_callFunction (p : Program) (limits : Limits) (room : Nat) :
    Host.Encloses ⟨.braced, limits, callFunction .braced (semanticsOf .braced) p
      (functionTable .braced p) limits room⟩ := by
  induction room with
  | zero =>
    refine ⟨rfl, fun n name args ha => ?_⟩
    dsimp only
    rw [callFunction]
    exact encloses_enterFunction _ limits (fun _ _ _ _ => fault _) name ha
  | succ room ih =>
    refine ⟨rfl, fun n name args ha => ?_⟩
    dsimp only
    rw [callFunction]
    refine encloses_enterFunction _ limits (fun f k scope hs => ?_) name ha
    refine (encloses_runBlock ih p p.size f.body hs).map fun k flow hflow => ?_
    cases hr : flow.returned with
    | none => exact Value.below_of_not_list rfl _
    | some v => exact hflow.2 v hr

omit H host in
/-- A program starts without lists and without variables, so all references of its run lead to
lists. -/
theorem encloses_runProgram (limits : Limits) (p : Program) :
    Encloses 0 (Braced.runProgram limits p) fun _ _ => True := by
  have H : (hostOf .braced runLine p limits).Encloses :=
    encloses_callFunction p limits limits.maxCallDepth.toNat
  have hempty : ScopeBelow 0 .empty := fun _ _ h => by cases h
  refine (encloses_runBlock H p p.size ⟨0, p.size, 0⟩ hempty).bind fun k flow _ hflow => ?_
  split
  · exact (encloses_andThen hflow (encloses_runBlock H p p.size _)).map fun _ _ _ => trivial
  · exact value fun _ _ => trivial

end Runs

end Stepwise
