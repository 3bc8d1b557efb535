import Stepwise.Proofs.ClosedRuns
import Stepwise.Proofs.Unrolling

/-!
# Assignments keep the kinds of numbers

A plain or compound assignment of the braced dialect makes a number of the kind that it replaces
(`keepKind`); an increment or decrement does not, but its operator keeps the kind by itself. What is
replaced is found by evaluating the target, and then its parts are evaluated again to write it. If
nothing is called in them this leads to the same place (`content?_locate`), so the kind that is kept
is the one of the value at that place right before it is written (`exists_replacement`).

The writes of a statement are listed in the order they happen (`InTurn`). Between them nothing is
written, so the next target is found in a state in which again all lists are there.
-/

namespace Stepwise

open Run Source Text Number

/-! ### Kinds of numbers -/

/-- Whether a value is a finite number. -/
def Value.isFinite : Value → Bool
  | .int _ => true
  | .float x => (Dyadic.ofFloat? x).isSome
  | _ => false

/-- A finite number that takes the place of an integer is an integer, and one that takes the place
of a float is a float. -/
structure KeepsKind (old new : Value) : Prop where
  int : (∃ n, old = .int n) → new.isFinite = true → ∃ n, new = .int n
  float : old.isFloat = true → new.isFinite = true → ∃ x, new = .float x

theorem KeepsKind.of_infinite {old new : Value} (h : new.isFinite = false) : KeepsKind old new :=
  ⟨fun _ h' => absurd (h.symm.trans h') Bool.false_ne_true,
    fun _ h' => absurd (h.symm.trans h') Bool.false_ne_true⟩

theorem KeepsKind.of_int (m n : Int) : KeepsKind (.int m) (.int n) :=
  ⟨fun _ _ => ⟨n, rfl⟩, fun h => by cases h⟩

theorem KeepsKind.of_float {old new : Value} (hold : old.isFloat = true)
    (hnew : new.isFloat = true) : KeepsKind old new := by
  refine ⟨?_, fun _ hfin => ?_⟩
  · rintro ⟨n, rfl⟩
    cases hold
  · cases new with
    | float x => exact ⟨x, rfl⟩
    | nan _ => cases hfin
    | _ => cases hnew

/-- What is stored in place of a number keeps its kind. -/
theorem Braced.keepsKind_keepKind {old v new : Value} (h : keepKind old v = .ok new) :
    KeepsKind old new := by
  have hwiden (n : Int) (hold : old.isFloat = true)
      (hn : (do pure (.float (← intToFloat n))) = Except.ok new) : KeepsKind old new := by
    cases hx : intToFloat n <;> rw [hx] at hn <;> cases hn
    exact .of_float hold rfl
  unfold keepKind at h
  split at h
  · simp only [coerce, Bool.false_eq_true, if_false] at h
    split at h <;> rename_i hx <;> cases h
    · exact .of_int _ _
    · exact .of_infinite (by rw [Value.isFinite, hx]; rfl)
  · exact hwiden _ rfl h
  · exact hwiden _ rfl h
  · -- nothing is converted: the kinds agree, or one of the two is no finite number
    rename_i hint hfloat hnan
    cases h
    refine ⟨?_, fun hold hfin => ?_⟩
    · rintro ⟨m, rfl⟩ hfin
      cases v with
      | int n => exact ⟨n, rfl⟩
      | float x => exact (hint m x rfl rfl).elim
      | _ => cases hfin
    · cases v with
      | int n =>
        cases old with
        | float x => exact (hfloat x n rfl rfl).elim
        | nan i => exact (hnan i n rfl rfl).elim
        | _ => cases hold
      | float x => exact ⟨x, rfl⟩
      | _ => cases hfin

/-- An operator on numbers gives a number that it makes of the two operands. -/
theorem Operator.numeric_ok {op : Scalar → Scalar → Except Fault Scalar} {v w r : Value}
    {h h' : Heap} (hr : (numeric op v w).run.run h = (.ok r, h')) :
    ∃ a b c, v.num? = some a ∧ w.num? = some b ∧ op a b = .ok c ∧
      (HeapM.identify (.ofNum c)).run.run h = (.ok r, h') := by
  unfold numeric Value.num at hr
  cases hv : v.num? with
  | none =>
    rw [hv] at hr
    cases hr
  | some a =>
    cases hw : w.num? with
    | none =>
      rw [hv, hw] at hr
      cases hr
    | some b =>
      rw [hv, hw] at hr
      replace hr : (ofExcept (op a b) >>= fun c => HeapM.identify (.ofNum c)).run.run h =
        (.ok r, h') := hr
      cases hc : op a b <;> rw [hc] at hr
      · cases hr
      · exact ⟨a, b, _, rfl, rfl, hc, hr⟩

theorem HeapM.isFloat_identify {x : Float} {new : Value} {h h' : Heap}
    (hr : (HeapM.identify (.float x)).run.run h = (.ok new, h')) : new.isFloat = true := by
  simp only [HeapM.identify] at hr
  split_ifs at hr <;> cases hr <;> rfl

theorem Scalar.combine_float_int {onInts : Int → Int → Except Fault Scalar}
    {f : Float → Float → Float} {onComplex : Float × Float → Float × Float → Except Fault Scalar}
    {x : Float} {n : Int} {c : Scalar}
    (h : Scalar.combine onInts (fun x y => pure (.float (f x y))) onComplex (.float x) (.int n) =
      .ok c) : ∃ z, c = .float z := by
  replace h : (do pure (Scalar.float (f x (← intToFloat n)))) = Except.ok c := h
  cases hn : intToFloat n <;> rw [hn] at h <;> cases h
  exact ⟨_, rfl⟩

/-- A change by one keeps the kind of the number. -/
theorem Host.keepsKind_combine {host : Host} {change : Braced.Change} {old new : Value}
    {m m' : Machine} (h : (host.combine change.op old (.int 1)).outcome m = (.ok new, m')) :
    KeepsKind old new := by
  unfold Host.combine at h
  rw [outcome_recover, outcome_onHeap] at h
  rcases hr : (Operator.apply host.dialect change.op old (.int 1)).run.run m.heap
    with ⟨fault | w, k⟩ <;> rw [hr] at h <;> dsimp only at h
  · split_ifs at h <;> cases h
    exact .of_infinite rfl
  cases h
  refine ⟨?_, fun hold hfin => ?_⟩
  · rintro ⟨n, rfl⟩ -
    cases change <;> cases hr <;> exact ⟨_, rfl⟩
  · suffices hfloat : new.isFloat = true from (KeepsKind.of_float hold hfloat).float hold hfin
    obtain ⟨x, hx⟩ : ∃ x, old.num? = some (.float x) := by
      cases old with
      | float x => exact ⟨x, rfl⟩
      | nan i => exact ⟨notANumber, rfl⟩
      | _ => cases hold
    have hnum {op : Scalar → Scalar → Except Fault Scalar}
        (hop : ∀ c, op (.float x) (.int 1) = .ok c → ∃ z, c = .float z)
        (hr : (Operator.numeric op old (.int 1)).run.run m.heap = (.ok new, k)) :
        new.isFloat = true := by
      obtain ⟨a, b, c, ha, hb, hc, hw⟩ := Operator.numeric_ok hr
      cases hx.symm.trans ha
      cases hb
      obtain ⟨z, rfl⟩ := hop c hc
      exact HeapM.isFloat_identify hw
    cases change with
    | up =>
      change (Operator.add old (.int 1)).run.run _ = _ at hr
      rw [Operator.add_of_not_sequence (.inr rfl)] at hr
      exact hnum (fun _ => Scalar.combine_float_int) hr
    | down => exact hnum (fun _ => Scalar.combine_float_int) hr

/-! ### Writes one after the other -/

/-- A write to a target: the place that the target denotes, the variables and the state right before
the write, and the value. -/
structure Replacement where
  target : Expr
  place : Place
  scope : Scope
  machine : Machine
  value : Value

/-- The value that is replaced. A place that is not there has none. -/
def Replacement.old? (r : Replacement) : Option Value :=
  r.place.content? .braced r.scope r.machine.heap

/-- The targets are located and written one after the other, and nothing else is written. -/
inductive InTurn (host : Host) : Scope → Machine → List Replacement → Scope → Machine → Prop
  | nil (scope : Scope) (m : Machine) : InTurn host scope m [] scope m
  | cons {r : Replacement} {rs : List Replacement} {m k m₁ m₂ : Machine} {scope₁ scope₂ : Scope}
      {done : Bool} : m.Untouched k →
      (host.locate r.scope r.target).outcome k = (.ok r.place, r.machine) →
      (r.place.write .braced r.value r.scope).outcome r.machine = (.ok (done, scope₁), m₁) →
      InTurn host scope₁ m₁ rs scope₂ m₂ → InTurn host r.scope m (r :: rs) scope₂ m₂

/-- Every write gives its value, as the kind of number that it replaces, to the next one. -/
def HandedOn : Value → List Replacement → Prop
  | _, [] => True
  | v, r :: rs => Braced.keepKind (r.old?.getD .none) v = .ok r.value ∧ HandedOn r.value rs

theorem HandedOn.keepsKind {v : Value} {rs : List Replacement} (h : HandedOn v rs) :
    ∀ r ∈ rs, ∀ old ∈ r.old?, KeepsKind old r.value := by
  induction rs generalizing v with
  | nil => exact List.forall_mem_nil _
  | cons r rs ih =>
    obtain ⟨hr, hrs⟩ := h
    refine List.forall_mem_cons.2 ⟨fun old hold => ?_, ih hrs⟩
    rw [Option.mem_def.1 hold] at hr
    exact Braced.keepsKind_keepKind hr

section Writing

variable {host : Host} {scope scope' : Scope} {m m₁ m₂ m' : Machine} {t : Expr}
  {v cur absent : Value} {done : Bool}

theorem Host.untouched_combine {op : BinaryOp} {w new : Value}
    (h : (host.combine op v w).outcome m = (.ok new, m')) : m.Untouched m' := by
  have hg := Run.Adds.combine host op v w m
  rw [h] at hg
  refine ⟨?_, hg⟩
  rw [Host.combine, outcome_recover, outcome_onHeap] at h
  generalize (Operator.apply host.dialect op v w).run.run m.heap = r at h
  rcases r with ⟨fault | a, k⟩ <;> rw [← (Prod.mk.inj h).2]

/-- A target of the braced dialect in which nothing is called. -/
structure Expr.CallFreeTarget (t : Expr) : Prop where
  isTarget : t.isTarget = true
  callFree : t.callFree = true
  ofDialect : t.OfDialect .braced

section Reading

variable (hbraced : host.dialect = .braced) (ht : t.CallFreeTarget) (hc : m.heap.Closed)
  (hs : ScopeBelow m.heap.cells.size scope)
  (hcur : (host.current absent t scope).outcome m = (.ok cur, m₁))
include hbraced ht hc hs hcur

/-- A target is read: nothing is written, and its value has its lists. -/
theorem current_ok (ha : absent.isList = false) :
    m.Untouched m₁ ∧ m.heap.Sprouts m₁.heap ∧ m₁.heap.Holds cur := by
  cases t with
  | var name =>
    cases hcur
    refine ⟨.refl m, .refl hc, ?_⟩
    cases hv : scope.get? name with
    | none => exact Value.below_of_not_list ha _
    | some v => exact hs name v hv
  | _ =>
    exact ⟨Host.untouched_evaluate ht.callFree hcur,
      sprouts_evaluate hbraced hs ht.callFree ht.ofDialect (.refl hc) hcur⟩

/-- A target is read and its value is combined with another one: nothing is written. -/
theorem combined_ok {op : BinaryOp} {w made : Value} (ha : absent.isList = false)
    (hop : op ≠ .mem ∧ op ≠ .notMem) (hw : m.heap.Holds w)
    (hmade : (host.combine op cur w).outcome m₁ = (.ok made, m₂)) :
    m.Untouched m₂ ∧ m.heap.Sprouts m₂.heap := by
  obtain ⟨hu, hsp, hholds⟩ := current_ok hbraced ht hc hs hcur ha
  have hself := (Heap.Sprouts.refl hsp.closed).paired
  exact ⟨hu.trans (Host.untouched_combine hmade),
    (sprouts_combine hop hbraced hsp (.of_holds hself hholds)
      (.of_holds hself (hw.mono hsp.grown.size_le)) hmade).1⟩

/-- A target that was read is written, with nothing written in between: what is replaced is the
value that was read, unless there was none. -/
theorem exists_replacement (hu : m.Untouched m₂) (hsp : m.heap.Sprouts m₂.heap)
    (hst : (host.store t v scope).outcome m₂ = (.ok (done, scope'), m')) :
    ∃ r : Replacement, r.target = t ∧ r.value = v ∧
      (r.old? = some cur ∨ r.old? = none ∧ (cur = absent ∨ cur = .unknown)) ∧
      ∀ {rs scope'' m''}, InTurn host scope' m' rs scope'' m'' →
        InTurn host scope m (r :: rs) scope'' m'' := by
  rw [Host.store_eq, hbraced] at hst
  obtain ⟨place, k, hl, hw⟩ := Run.ok_of_bind hst
  let r : Replacement := ⟨t, place, scope, k, v⟩
  refine ⟨r, rfl, rfl, ?_, InTurn.cons (r := r) hu hl hw⟩
  show place.content? .braced scope k.heap = _ ∨ place.content? .braced scope k.heap = _ ∧ _
  cases t with
  | var name =>
    cases hcur
    cases hl
    rw [Place.content?]
    cases scope.get? name with
    | none => exact .inr ⟨rfl, .inl rfl⟩
    | some v => exact .inl rfl
  | index container position =>
    -- the parts were evaluated from `m` to read and from `m₂` to write; only lists came in between
    have hold := content?_locate hbraced hs ht.callFree ht.ofDialect
      ⟨.refl hc, hsp, hsp.grown.size_le⟩ hcur hl
    cases hcontent : place.content? .braced scope k.heap <;> rw [hcontent] at hold
    · exact .inr ⟨rfl, .inr hold.symm⟩
    · exact .inl (congrArg some hold)
  | _ => cases ht.isTarget

end Reading

theorem keepsKind_old {r : Replacement} {P : Prop} (hold : r.old? = some cur ∨ r.old? = none ∧ P)
    (h : KeepsKind cur r.value) : ∀ old ∈ r.old?, KeepsKind old r.value := by
  intro old hr
  rcases hold with hold | ⟨hold, -⟩ <;> cases hold.symm.trans hr
  exact h

/-- Being no number, what stands for a missing value changes no kind. -/
theorem keepKind_old {r : Replacement} {new : Value}
    (hold : r.old? = some cur ∨ r.old? = none ∧ (cur = .none ∨ cur = .unknown))
    (h : Braced.keepKind cur v = .ok new) : Braced.keepKind (r.old?.getD .none) v = .ok new := by
  rcases hold with hr | ⟨hr, rfl | rfl⟩ <;> rw [hr]
  · exact h
  · exact h
  · cases v <;> exact h

/-- The targets of a chain are written in turn. The state in which a target was written is again one
whose lists are there, so the next target can be found in it. -/
theorem storeChain_ok (H : host.Encloses) {targets : List Expr} {w : Value}
    (ht : ∀ t ∈ targets, t.CallFreeTarget) (hc : m.heap.Closed)
    (hs : ScopeBelow m.heap.cells.size scope) (hv : m.heap.Holds v)
    (h : (Braced.storeChain host targets v scope).outcome m = (.ok (w, scope'), m')) :
    ∃ rs : List Replacement, rs.map (·.target) = targets ∧ InTurn host scope m rs scope' m' ∧
      HandedOn v rs := by
  induction targets generalizing v scope m with
  | nil =>
    cases h
    exact ⟨[], rfl, .nil _ _, trivial⟩
  | cons t targets ih =>
    obtain ⟨htarget, hrest⟩ := List.forall_mem_cons.1 ht
    rw [Braced.storeChain, host.currentValue_eq_current] at h
    obtain ⟨cur, m₁, hcur, h⟩ := Run.ok_of_bind h
    obtain ⟨new, m₂, hnew, h⟩ := Run.ok_of_bind h
    obtain ⟨⟨done, scope₁⟩, k, hstore, hnext⟩ := Run.ok_of_bind h
    rw [outcome_ofExcept] at hnew
    obtain ⟨hkeep, rfl⟩ := Prod.mk.inj hnew
    obtain ⟨hu, hsp, -⟩ := current_ok H.dialect htarget hc hs hcur rfl
    obtain ⟨r, rfl, rfl, hold, hturn⟩ :=
      exists_replacement H.dialect htarget hc hs hcur hu hsp hstore
    have hle := hsp.grown.size_le
    have hholds := below_keepKind (hv.mono hle) hkeep
    obtain ⟨hck, hlek, hsk⟩ := (encloses_store H (hs.mono hle) htarget.ofDialect hholds).ok
      hsp.closed le_rfl hstore
    obtain ⟨rs, hrs, hturns, hhanded⟩ := ih hrest hck hsk (hholds.mono hlek) hnext
    exact ⟨r :: rs, by rw [List.map_cons, hrs], hturn hturns, keepKind_old hold hkeep, hhanded⟩

end Writing

/-! ### Statements that write to targets -/

namespace Braced

/-- The expression that a text is. -/
def expression? (text : List Char) : Option Expr := (Expr.parse? .braced text).toOption.join

/-- The target that a text is. -/
def target? (text : List Char) : Option Expr := (expression? text).filter Expr.isTarget

section Parsing

variable {host : Host} (hbraced : host.dialect = .braced) {m m' : Machine}
include hbraced

theorem parse_ok {text : List Char} {e : Option Expr}
    (h : (host.parse text).outcome m = (.ok e, m')) : m' = m ∧ e = expression? text := by
  rw [Host.parse, outcome_ofExcept, hbraced] at h
  obtain ⟨he, rfl⟩ := Prod.mk.inj h
  exact ⟨rfl, by rw [expression?, he]; rfl⟩

theorem parseTarget_ok {text : List Char} {e : Option Expr}
    (h : (host.parseTarget text).outcome m = (.ok e, m')) : m' = m ∧ e = target? text := by
  obtain ⟨e', k, hp, h⟩ := Run.ok_of_bind h
  obtain ⟨rfl, rfl⟩ := parse_ok hbraced hp
  cases h
  exact ⟨rfl, rfl⟩

theorem mapM_parse_ok {texts : List (List Char)} {parsed : List (Option Expr)}
    (h : (texts.mapM host.parse).outcome m = (.ok parsed, m')) :
    m' = m ∧ parsed = texts.map expression? := by
  induction texts generalizing parsed m with
  | nil =>
    cases h
    exact ⟨rfl, rfl⟩
  | cons text texts ih =>
    rw [List.mapM_cons] at h
    obtain ⟨e, k, hp, h⟩ := Run.ok_of_bind h
    obtain ⟨rfl, rfl⟩ := parse_ok hbraced hp
    obtain ⟨parsed, k', hps, h⟩ := Run.ok_of_bind h
    cases h
    obtain ⟨rfl, rfl⟩ := ih hps
    exact ⟨rfl, rfl⟩

omit hbraced in
theorem mapM_target? (texts : List (List Char)) :
    texts.mapM target? = (texts.mapM expression?).filter (·.all Expr.isTarget) := by
  induction texts with
  | nil => rfl
  | cons text texts ih =>
    rw [List.mapM_cons, List.mapM_cons, ih, target?]
    cases expression? text with
    | none => rfl
    | some e =>
      cases texts.mapM expression? with
      | none => simp
      | some es =>
        cases he : e.isTarget <;> cases hes : es.all Expr.isTarget <;>
          simp [Option.filter_some, he, hes]

theorem parseTargets_ok {texts : List (List Char)} {targets : Option (List Expr)}
    (h : (host.parseTargets texts).outcome m = (.ok targets, m')) :
    m' = m ∧ targets = texts.mapM target? := by
  obtain ⟨parsed, k, hp, h⟩ := Run.ok_of_bind h
  obtain ⟨rfl, rfl⟩ := mapM_parse_ok hbraced hp
  rw [List.mapM_map] at h
  rw [mapM_target?]
  split at h <;> rename_i hts <;> cases h <;> rw [← Function.id_comp expression?, hts]
  · exact ⟨rfl, by rw [Option.filter_some]⟩
  · exact ⟨rfl, rfl⟩

omit hbraced in
theorem mapM_target?_singleton (text : List Char) :
    [text].mapM target? = (target? text).map fun t => [t] := by
  rw [List.mapM_cons]
  cases target? text <;> rfl

omit hbraced in
theorem callFreeTarget_of_target? {text : List Char} {t : Expr} (h : target? text = some t)
    (hf : t.callFree = true) : t.CallFreeTarget := by
  obtain ⟨he, ht⟩ := Option.filter_eq_some_iff.1 h
  have hparse : Expr.parse? .braced text = .ok (some t) := by
    rw [expression?] at he
    cases hp : Expr.parse? .braced text <;> rw [hp] at he
    · cases he
    · exact congrArg Except.ok he
  exact ⟨ht, hf, Expr.ofDialect_of_parse? hparse⟩

end Parsing

/-- A statement that writes to targets. -/
inductive Update
  /-- An increment or decrement, and how it is shown. -/
  | step (target : List Char) (change : Change) (shown : String)
  | assignment (a : Assignment)

namespace Update

/-- Do the update and record its step. -/
def run (host : Host) (line : Nat) : Update → Scope → Run (Option Scope)
  | step target change shown => increment host line target change shown
  | assignment a => assign host line a

/-- The operator that combines the value of the target with another one. -/
def op : Update → Option BinaryOp
  | step _ change _ => some change.op
  | assignment a => a.op

/-- The texts of the targets, from left to right. -/
def targets : Update → List (List Char)
  | step target _ _ => [target]
  | assignment a => a.chain.1

/-- The value that is assigned, or combined with the value of the target. -/
def operand (host : Host) (scope : Scope) : Update → Run Value
  | step _ _ _ => pure (.int 1)
  | assignment a => host.evaluateText scope a.chain.2

/-- Whether the dialect has the operator and all targets are targets. -/
def fits (u : Update) : Bool :=
  u.op ≠ some .floorDiv && u.op ≠ some .pow && (u.targets.mapM target?).isSome

/-- The ways to read a text as an update, in the order they are tried. -/
def readings (text : List Char) : List (Option Update) :=
  [(preIncrement? text).map fun r => .step r.2 r.1 (r.1.symbol ++ String.ofList r.2),
    (postIncrement? text).map fun r => .step r.1 r.2 (String.ofList r.1 ++ r.2.symbol),
    (Assignment.split? text).map .assignment]

end Update

/-- Whether a text is a declaration that can be read. -/
def declares (text : List Char) : Bool :=
  (declaration? text).any fun d =>
    ((splitCommas d.declarators).mapM declarator?).any fun declarators => !declarators.isEmpty

/-- The update that a statement is. -/
def Update.ofText? (text : List Char) : Option Update :=
  if (returnText? text).isSome || (outputCall? (expression? text)).isSome || declares text then none
  else (readings text).findSome? (Option.filter fits)

/-- Targets are written in turn, from right to left. They keep their kinds, and a value that is not
combined with theirs is handed on from one to the next. -/
structure KindsKept (host : Host) (op : Option BinaryOp) (targets : List Expr) (v : Value)
    (scope : Scope) (m : Machine) (rs : List Replacement) (scope' : Scope) (m' : Machine) :
    Prop where
  targets_eq : rs.map (·.target) = targets.reverse
  inTurn : ∃ k, InTurn host scope m rs scope' k ∧ m'.heap = k.heap
  keepsKind : ∀ r ∈ rs, ∀ old ∈ r.old?, KeepsKind old r.value
  handedOn : op = none → HandedOn v rs

theorem KindsKept.single {host : Host} {op : Option BinaryOp} {v : Value} {scope scope' : Scope}
    {m k m' : Machine} {r : Replacement} (hturn : InTurn host scope m [r] scope' k)
    (hheap : m'.heap = k.heap) (hkind : ∀ old ∈ r.old?, KeepsKind old r.value)
    (hhanded : op = none → keepKind (r.old?.getD .none) v = .ok r.value) :
    KindsKept host op [r.target] v scope m [r] scope' m' :=
  ⟨rfl, ⟨k, hturn, hheap⟩, List.forall_mem_singleton.2 hkind, fun h => ⟨hhanded h, trivial⟩⟩

section Assigning

variable {host : Host} {line : Nat} {a : Assignment} {scope : Scope}
  (hop : ¬ (a.op = some .floorDiv ∨ a.op = some .pow))
include hop

theorem assign_of_chain (hlen : 2 ≤ a.chain.1.length) :
    assign host line a scope = assignChain host line a.chain.1 a.chain.2 scope := by
  rw [assign, if_neg hop]
  rcases hchain : a.chain with ⟨chain, value⟩
  rw [hchain] at hlen
  rcases chain with _ | ⟨first, _ | ⟨second, more⟩⟩
  · simp at hlen
  · simp at hlen
  · rfl

theorem assign_of_single (hlen : ¬ 2 ≤ a.chain.1.length) :
    assign host line a scope = host.parseTarget a.target >>= fun e =>
      e.elim (pure none) fun t => assignOne host line t a scope >>= fun s => pure (some s) := by
  rw [assign, if_neg hop, chain_of_length_lt_two hlen]
  refine bind_congr fun e => ?_
  cases e <;> rfl

end Assigning

section Updating

variable {host : Host} (H : host.Encloses) {line : Nat} {scope scope' : Scope} {m m' : Machine}

theorem describe_ok {v : Value} {text : Text} (h : (host.describe v).outcome m = (.ok text, m')) :
    m' = m := by
  rw [Host.describe, outcome_fromHeap] at h
  exact (Prod.mk.inj h).2.symm

theorem record_ok {kind : StepKind} {explanation : Text} {u : Unit}
    (h : (host.record line kind explanation scope).outcome m = (.ok u, m')) :
    m'.heap = m.heap := by
  rw [← Record.heap_step host.limits line kind explanation scope m]
  exact congrArg (·.2.heap) h.symm

variable (hc : m.heap.Closed) (hs : ScopeBelow m.heap.cells.size scope)
include H hc hs

theorem increment_ok {target : List Char} {change : Change} {shown : String} {t : Expr}
    (htext : target? target = some t) (hf : t.callFree = true)
    (h : (increment host line target change shown scope).outcome m = (.ok (some scope'), m')) :
    ∃ rs, KindsKept host (some change.op) [t] (.int 1) scope m rs scope' m' := by
  have ht := callFreeTarget_of_target? htext hf
  obtain ⟨e, k, hp, h⟩ := Run.ok_of_bind h
  obtain ⟨rfl, rfl⟩ := parseTarget_ok H.dialect hp
  rw [htext] at h
  dsimp only at h
  rw [host.evaluate_eq_current] at h
  obtain ⟨cur, m₁, hcur, h⟩ := Run.ok_of_bind h
  obtain ⟨new, m₂, hnew, h⟩ := Run.ok_of_bind h
  obtain ⟨⟨done, scope₁⟩, m₃, hstore, h⟩ := Run.ok_of_bind h
  obtain ⟨text, m₄, hd, h⟩ := Run.ok_of_bind h
  obtain ⟨_, m₅, hr, h⟩ := Run.ok_of_bind h
  cases h
  have hop : change.op ≠ .mem ∧ change.op ≠ .notMem := by cases change <;> decide
  obtain ⟨hu, hsp⟩ := combined_ok H.dialect ht hc hs hcur rfl hop
    (Value.below_of_not_list rfl _) hnew
  obtain ⟨r, rfl, rfl, hold, hturn⟩ := exists_replacement H.dialect ht hc hs hcur hu hsp hstore
  refine ⟨[r], .single (hturn (.nil _ _)) ?_ (keepsKind_old hold (Host.keepsKind_combine hnew)) ?_⟩
  · rw [record_ok hr, describe_ok hd]
  · rintro ⟨⟩

omit H hc hs in
theorem assigned_ok {a : Assignment} {v cur : Value} {made : Value × Text}
    (h : (assigned host a v cur).outcome m = (.ok made, m')) :
    (a.op = none ∧ m' = m ∧ keepKind cur v = .ok made.1) ∨
    ∃ op w, a.op = some op ∧ (host.combine op cur v).outcome m = (.ok w, m') ∧
      keepKind cur w = .ok made.1 := by
  unfold assigned at h
  cases hop : a.op with
  | none =>
    rw [hop] at h
    obtain ⟨new, k, hnew, h⟩ := Run.ok_of_bind h
    obtain ⟨text, k', hd, h⟩ := Run.ok_of_bind h
    cases h
    rw [outcome_ofExcept] at hnew
    obtain ⟨hkeep, rfl⟩ := Prod.mk.inj hnew
    exact .inl ⟨rfl, describe_ok hd, hkeep⟩
  | some op =>
    rw [hop] at h
    obtain ⟨w, k, hw, h⟩ := Run.ok_of_bind h
    obtain ⟨new, k₁, hnew, h⟩ := Run.ok_of_bind h
    obtain ⟨operand, k₂, ho, h⟩ := Run.ok_of_bind h
    obtain ⟨text, k₃, hd, h⟩ := Run.ok_of_bind h
    cases h
    rw [outcome_ofExcept] at hnew
    obtain ⟨hkeep, rfl⟩ := Prod.mk.inj hnew
    obtain rfl := describe_ok ho
    obtain rfl := describe_ok hd
    exact .inr ⟨op, w, rfl, hw, hkeep⟩

/-- An assignment to one target keeps its kind. The value is evaluated first. -/
theorem assignOne_ok {a : Assignment} {t : Expr} (ha : ∀ op ∈ a.op, op ∈ Assignment.operators)
    (ht : t.CallFreeTarget) (h : (assignOne host line t a scope).outcome m = (.ok scope', m')) :
    ∃ v m₀ rs, (host.evaluateText scope a.value).outcome m = (.ok v, m₀) ∧
      KindsKept host a.op [t] v scope m₀ rs scope' m' := by
  rw [assignOne_eq] at h
  obtain ⟨v, m₀, hv, h⟩ := Run.ok_of_bind h
  obtain ⟨hc₀, hle, hholds⟩ := (encloses_evaluateText H hs a.value).ok hc le_rfl hv
  have hs₀ := hs.mono hle
  rw [host.currentValue_eq_current] at h
  obtain ⟨cur, m₁, hcur, h⟩ := Run.ok_of_bind h
  obtain ⟨made, m₂, hmade, h⟩ := Run.ok_of_bind h
  obtain ⟨⟨done, scope₁⟩, m₃, hstore, h⟩ := Run.ok_of_bind h
  obtain ⟨_, m₄, hr, h⟩ := Run.ok_of_bind h
  cases h
  rcases assigned_ok hmade with ⟨hop, rfl, hkeep⟩ | ⟨op, w, hop, hw, hkeep⟩
  · obtain ⟨hu, hsp, -⟩ := current_ok H.dialect ht hc₀ hs₀ hcur rfl
    obtain ⟨r, rfl, hvalue, hold, hturn⟩ :=
      exists_replacement H.dialect ht hc₀ hs₀ hcur hu hsp hstore
    rw [← hvalue] at hkeep
    exact ⟨v, m₀, [r], hv, .single (hturn (.nil _ _)) (record_ok hr)
      (keepsKind_old hold (keepsKind_keepKind hkeep)) fun _ => keepKind_old hold hkeep⟩
  · obtain ⟨hu, hsp⟩ := combined_ok H.dialect ht hc₀ hs₀ hcur rfl
      (Assignment.ne_mem_of_operators (ha op hop)) hholds hw
    obtain ⟨r, rfl, hvalue, hold, hturn⟩ :=
      exists_replacement H.dialect ht hc₀ hs₀ hcur hu hsp hstore
    rw [← hvalue] at hkeep
    refine ⟨v, m₀, [r], hv, .single (hturn (.nil _ _)) (record_ok hr)
      (keepsKind_old hold (keepsKind_keepKind hkeep)) fun h => ?_⟩
    cases hop.symm.trans h

theorem assignChain_ok {chain : List (List Char)} {value : List Char} {targets : List Expr}
    (ht : chain.mapM target? = some targets) (hf : ∀ t ∈ targets, t.callFree = true)
    (h : (assignChain host line chain value scope).outcome m = (.ok (some scope'), m')) :
    ∃ v m₀ rs, (host.evaluateText scope value).outcome m = (.ok v, m₀) ∧
      KindsKept host none targets v scope m₀ rs scope' m' := by
  obtain ⟨ts, k, hp, h⟩ := Run.ok_of_bind h
  obtain ⟨rfl, rfl⟩ := parseTargets_ok H.dialect hp
  rw [ht] at h
  dsimp only at h
  obtain ⟨v, m₀, hv, h⟩ := Run.ok_of_bind h
  obtain ⟨hc₀, hle, hholds⟩ := (encloses_evaluateText H hs value).ok hc le_rfl hv
  obtain ⟨⟨w, scope₁⟩, k, hstore, h⟩ := Run.ok_of_bind h
  obtain ⟨text, k₁, hd, h⟩ := Run.ok_of_bind h
  obtain ⟨_, k₂, hr, h⟩ := Run.ok_of_bind h
  cases h
  have htargets : ∀ t ∈ targets.reverse, t.CallFreeTarget := by
    intro t hmem
    rw [List.mem_reverse] at hmem
    obtain ⟨text, -, htext⟩ := mem_of_mapM_some ht t hmem
    exact callFreeTarget_of_target? htext (hf t hmem)
  obtain ⟨rs, hrs, hturn, hhanded⟩ := storeChain_ok H htargets hc₀ (hs.mono hle) hholds hstore
  obtain rfl := describe_ok hd
  exact ⟨v, m₀, rs, hv, hrs, ⟨_, hturn, record_ok hr⟩, hhanded.keepsKind, fun _ => hhanded⟩

theorem assign_ok {a : Assignment} {targets : List Expr}
    (ha : ∀ op ∈ a.op, op ∈ Assignment.operators) (ht : a.chain.1.mapM target? = some targets)
    (hf : ∀ t ∈ targets, t.callFree = true)
    (h : (assign host line a scope).outcome m = (.ok (some scope'), m')) :
    ∃ v m₀ rs, (host.evaluateText scope a.chain.2).outcome m = (.ok v, m₀) ∧
      KindsKept host a.op targets v scope m₀ rs scope' m' := by
  by_cases hop : a.op = some .floorDiv ∨ a.op = some .pow
  · rw [assign, if_pos hop] at h
    cases h
  by_cases hlen : 2 ≤ a.chain.1.length
  · rw [assign_of_chain hop hlen] at h
    obtain ⟨v, m₀, rs, hv, hkept⟩ := assignChain_ok H hc hs ht hf h
    exact ⟨v, m₀, rs, hv, { hkept with handedOn := fun _ => hkept.handedOn rfl }⟩
  · rw [assign_of_single hop hlen] at h
    rw [chain_of_length_lt_two hlen] at ht ⊢
    rw [mapM_target?_singleton] at ht
    obtain ⟨t, htarget, rfl⟩ := Option.map_eq_some_iff.1 ht
    obtain ⟨e, k, hp, h⟩ := Run.ok_of_bind h
    obtain ⟨rfl, rfl⟩ := parseTarget_ok H.dialect hp
    rw [htarget] at h
    obtain ⟨scope₁, k', hone, h⟩ := Run.ok_of_bind h
    cases h
    exact assignOne_ok H hc hs ha
      (callFreeTarget_of_target? htarget (hf t List.mem_cons_self)) hone

theorem Update.run_ok {u : Update} {targets : List Expr}
    (hu : ∀ op ∈ u.op, op ∈ Assignment.operators) (ht : u.targets.mapM target? = some targets)
    (hf : ∀ t ∈ targets, t.callFree = true)
    (h : (u.run host line scope).outcome m = (.ok (some scope'), m')) :
    ∃ v m₀ rs, (u.operand host scope).outcome m = (.ok v, m₀) ∧
      KindsKept host u.op targets v scope m₀ rs scope' m' := by
  cases u with
  | step target change shown =>
    obtain ⟨t, htarget, rfl⟩ := Option.map_eq_some_iff.1 ((mapM_target?_singleton _).symm.trans ht)
    obtain ⟨rs, hkept⟩ := increment_ok H hc hs htarget (hf t List.mem_cons_self) h
    exact ⟨.int 1, m, rs, rfl, hkept⟩
  | assignment a => exact assign_ok H hc hs hu ht hf h

end Updating

section Reading

variable {host : Host} (hbraced : host.dialect = .braced) {line : Nat} {text : List Char}
  {scope : Scope} {m m' : Machine} {u : Update} {fit : Option Scope}

/-- What a reading that is tried does. -/
def attempt (host : Host) (line : Nat) (reading : Option Update) (scope : Scope) :
    Run (Option Scope) :=
  reading.elim (pure none) fun u => u.run host line scope

theorem Update.fits_eq (h : ¬ (u.op = some .floorDiv ∨ u.op = some .pow)) :
    u.fits = (u.targets.mapM target?).isSome := by
  rw [not_or] at h
  simp [fits, h]

include hbraced

/-- An update is carried out if it fits; otherwise nothing happens. -/
theorem Update.run_cases (h : (u.run host line scope).outcome m = (.ok fit, m')) :
    (u.fits = true ∧ fit.isSome = true) ∨ (u.fits = false ∧ fit = none ∧ m' = m) := by
  cases u with
  | step target change shown =>
    rw [fits_eq (by cases change <;> simp [op, Change.op]), targets, mapM_target?_singleton]
    obtain ⟨e, k, hp, h⟩ := Run.ok_of_bind h
    obtain ⟨rfl, rfl⟩ := parseTarget_ok hbraced hp
    cases ht : target? target <;> rw [ht] at h <;> dsimp only at h
    · cases h
      exact .inr ⟨rfl, rfl, rfl⟩
    · obtain ⟨_, _, _, h⟩ := Run.ok_of_bind h
      obtain ⟨_, _, _, h⟩ := Run.ok_of_bind h
      obtain ⟨_, _, _, h⟩ := Run.ok_of_bind h
      obtain ⟨_, _, _, h⟩ := Run.ok_of_bind h
      obtain ⟨_, _, _, h⟩ := Run.ok_of_bind h
      cases h
      exact .inl ⟨rfl, rfl⟩
  | assignment a =>
    change (assign host line a scope).outcome m = _ at h
    by_cases hop : a.op = some .floorDiv ∨ a.op = some .pow
    · rw [assign, if_pos hop] at h
      cases h
      refine .inr ⟨?_, rfl, rfl⟩
      rcases hop with hop | hop <;> simp [fits, op, hop]
    rw [fits_eq (u := .assignment a) hop, targets]
    by_cases hlen : 2 ≤ a.chain.1.length
    · rw [assign_of_chain hop hlen] at h
      obtain ⟨ts, k, hp, h⟩ := Run.ok_of_bind h
      obtain ⟨rfl, rfl⟩ := parseTargets_ok hbraced hp
      cases hts : a.chain.1.mapM target? <;> rw [hts] at h <;> dsimp only at h
      · cases h
        exact .inr ⟨rfl, rfl, rfl⟩
      · obtain ⟨_, _, _, h⟩ := Run.ok_of_bind h
        obtain ⟨_, _, _, h⟩ := Run.ok_of_bind h
        obtain ⟨_, _, _, h⟩ := Run.ok_of_bind h
        obtain ⟨_, _, _, h⟩ := Run.ok_of_bind h
        cases h
        exact .inl ⟨rfl, rfl⟩
    · rw [assign_of_single hop hlen] at h
      rw [chain_of_length_lt_two hlen, mapM_target?_singleton]
      obtain ⟨e, k, hp, h⟩ := Run.ok_of_bind h
      obtain ⟨rfl, rfl⟩ := parseTarget_ok hbraced hp
      cases ht : target? a.target <;> rw [ht] at h
      · cases h
        exact .inr ⟨rfl, rfl, rfl⟩
      · obtain ⟨_, _, _, h⟩ := Run.ok_of_bind h
        cases h
        exact .inl ⟨rfl, rfl⟩

/-- The first reading that fits is run, and those before it change nothing. -/
theorem firstFit_attempt {readings : List (Option Update)}
    (hu : readings.findSome? (Option.filter Update.fits) = some u)
    (h : (firstFit (readings.map (attempt host line)) scope).outcome m = (.ok fit, m')) :
    some u ∈ readings ∧ fit.isSome = true ∧ (u.run host line scope).outcome m = (.ok fit, m') := by
  induction readings with
  | nil => cases hu
  | cons reading readings ih =>
    rw [List.map_cons, firstFit] at h
    obtain ⟨first, k, hfirst, hrest⟩ := Run.ok_of_bind h
    rw [List.findSome?_cons] at hu
    cases reading with
    | none =>
      cases hfirst
      obtain ⟨hmem, hrun⟩ := ih hu hrest
      exact ⟨List.mem_cons_of_mem _ hmem, hrun⟩
    | some u' =>
      rw [Option.filter_some] at hu
      rcases Update.run_cases hbraced hfirst with ⟨hfits, hsome⟩ | ⟨hfits, rfl, rfl⟩
      · rw [hfits] at hu
        cases hu
        cases first with
        | none => cases hsome
        | some scope₁ =>
          cases hrest
          exact ⟨List.mem_cons_self, rfl, hfirst⟩
      · -- a reading that does not fit leaves the state as it is for the next one
        rw [hfits] at hu
        obtain ⟨hmem, hrun⟩ := ih hu hrest
        exact ⟨List.mem_cons_of_mem _ hmem, hrun⟩

omit hbraced in
/-- A text that declares nothing is read as an update. -/
theorem firstFit_changes (hd : declares text = false) :
    firstFit (changes host line text) scope =
      firstFit ((Update.readings text).map (attempt host line)) scope := by
  have hdeclare (d : Declaration) (h : declaration? text = some d) :
      declare host line d scope = pure none := by
    rw [declares, h, Option.any_some] at hd
    unfold declare
    rcases hds : (splitCommas d.declarators).mapM declarator? with _ | _ | ⟨first, more⟩
    · rfl
    · rfl
    · rw [hds] at hd
      cases hd
  have hrest : (changes host line text).tail = (Update.readings text).map (attempt host line) := by
    unfold changes Update.readings
    rcases preIncrement? text with _ | ⟨change, target⟩ <;>
      rcases postIncrement? text with _ | ⟨target', change'⟩ <;>
        cases Assignment.split? text <;> rfl
  rw [← hrest, changes, firstFit]
  cases h : declaration? text with
  | none => rfl
  | some d =>
    dsimp only
    rw [hdeclare d h]
    rfl

/-- A statement that is an update is carried out as that. -/
theorem statement_ok {flow : Flow} (hu : Update.ofText? text = some u)
    (h : (statement host line text scope).outcome m = (.ok flow, m')) :
    some u ∈ Update.readings text ∧
      (u.run host line scope).outcome m = (.ok (some flow.scope), m') := by
  unfold Update.ofText? at hu
  split_ifs at hu with hother
  simp only [Bool.or_eq_true, not_or, Bool.not_eq_true] at hother
  obtain ⟨⟨hreturn, houtput⟩, hdeclares⟩ := hother
  unfold statement at h
  rw [Option.isSome_eq_false_iff, Option.isNone_iff_eq_none] at hreturn houtput
  rw [hreturn] at h
  obtain ⟨e, k, hp, h⟩ := Run.ok_of_bind h
  obtain ⟨rfl, rfl⟩ := parse_ok hbraced hp
  rw [houtput] at h
  obtain ⟨fit, k, hfit, h⟩ := Run.ok_of_bind h
  rw [firstFit_changes hdeclares] at hfit
  obtain ⟨hmem, hsome, hrun⟩ := firstFit_attempt hbraced hu hfit
  cases fit with
  | none => cases hsome
  | some scope₁ =>
    cases h
    exact ⟨hmem, hrun⟩

end Reading

theorem Update.mem_operators {text : List Char} {u : Update} (hu : some u ∈ readings text) :
    ∀ op ∈ u.op, op ∈ Assignment.operators := by
  intro op hop
  simp only [readings, List.mem_cons, List.not_mem_nil, or_false] at hu
  have hstep (change : Change) : change.op ∈ Assignment.operators := by cases change <;> decide
  rcases hu with hu | hu | hu <;> obtain ⟨r, hr, rfl⟩ := Option.map_eq_some_iff.1 hu.symm
  · cases hop
    exact hstep r.1
  · cases hop
    exact hstep r.2
  · exact Assignment.mem_operators hr op hop

/-- Assignments, increments and decrements keep the kinds of numbers, whether they are plain or
compound and however many targets they have: if nothing is called in a target, and all lists that
are referred to are there, what is written to it is of the kind that it had, or is no finite number.
In a chain each target hands on the value as it keeps it. -/
theorem statement_keepsKinds (p : Program) (limits : Limits) (room line : Nat) {text : List Char}
    {u : Update} {targets : List Expr} {scope : Scope} {m m' : Machine} {flow : Flow}
    (hu : Update.ofText? text = some u) (ht : u.targets.mapM target? = some targets)
    (hf : ∀ t ∈ targets, t.callFree = true) (hc : m.heap.Closed)
    (hs : ScopeBelow m.heap.cells.size scope)
    (h : (statement (hostWithRoom .braced limits p room) line text scope).outcome m =
      (.ok flow, m')) :
    ∃ v m₀ rs, (u.operand (hostWithRoom .braced limits p room) scope).outcome m = (.ok v, m₀) ∧
      KindsKept (hostWithRoom .braced limits p room) u.op targets v scope m₀ rs flow.scope m' := by
  have H : (hostWithRoom .braced limits p room).Encloses := encloses_callFunction p limits room
  obtain ⟨hmem, hrun⟩ := statement_ok H.dialect hu h
  exact u.run_ok H hc hs (Update.mem_operators hmem) ht hf hrun

/-- A function that gives a float, given one. -/
def nextProgram : Program := layout .braced "float next(float n) \x7b\n  return n + 1;\n\x7d".toList

/-- A list with integers and a float. -/
def mixedLists : Machine := { heap := { cells := #[[.int 5, .int 6, .float 0.5]] } }

/-- Variables for the list of `mixedLists` and for integers. -/
def mixedScope : Scope := Table.ofList [("a", .list 0), ("i", .int 1), ("x", .int 7)]

theorem closed_mixedLists : mixedLists.heap.Closed
  | 0 => List.forall_mem_cons.2 ⟨Value.below_of_not_list rfl _, List.forall_mem_cons.2
      ⟨Value.below_of_not_list rfl _, List.forall_mem_singleton.2 (Value.below_of_not_list rfl _)⟩⟩
  | _ + 1 => List.forall_mem_nil _

theorem scopeBelow_mixedScope : ScopeBelow 1 mixedScope := by
  have hempty : ScopeBelow 1 .empty := fun _ _ h => by cases h
  refine ((hempty.put "a" ?_).put "i" (Value.below_of_not_list rfl _)).put "x"
    (Value.below_of_not_list rfl _)
  rintro cell ⟨⟩
  exact Nat.one_pos

/-- The value 2.7 becomes the integer 2, then the float 2.0 in the list, then the integer 2. -/
theorem statement_keepsKinds_mixed :
    let host := hostWithRoom .braced {} nextProgram 1
    let text := "x = a[i] = i = next(1.7)".toList
    ∃ u targets flow m', Update.ofText? text = some u ∧ u.targets.mapM target? = some targets ∧
      (∀ t ∈ targets, t.callFree = true) ∧ mixedLists.heap.Closed ∧ ScopeBelow 1 mixedScope ∧
      (statement host 5 text mixedScope).outcome mixedLists = (.ok flow, m') ∧
      (flow.scope.get? "i" = some (.int 2) ∧ flow.scope.get? "x" = some (.int 2)) ∧
      m'.heap.items 0 = [.int 5, .int 6, .float 2] ∧
      ∃ v m₀ rs, (u.operand host mixedScope).outcome mixedLists = (.ok v, m₀) ∧
        KindsKept host u.op targets v mixedScope m₀ rs flow.scope m' := by
  intro host text
  have hread : (Update.ofText? text).any (fun u =>
      (u.targets.mapM target?).any (·.all Expr.callFree)) = true := by decide +kernel
  have hrun : ((statement host 5 text mixedScope).outcome mixedLists).1.toOption.any (fun flow =>
      flow.scope.get? "i" = some (.int 2) ∧ flow.scope.get? "x" = some (.int 2)) = true := by
    decide +kernel
  have hlist : ((statement host 5 text mixedScope).outcome mixedLists).2.heap.items 0 =
      [.int 5, .int 6, .float 2] := by decide +kernel
  obtain ⟨u, hu, hread⟩ := (Option.any_eq_true _ _).1 hread
  obtain ⟨targets, ht, hf⟩ := (Option.any_eq_true _ _).1 hread
  rcases hend : (statement host 5 text mixedScope).outcome mixedLists with ⟨fault | flow, m'⟩ <;>
    rw [hend] at hrun hlist
  · cases hrun
  · exact ⟨u, targets, flow, m', hu, ht, List.all_eq_true.1 hf, closed_mixedLists,
      scopeBelow_mixedScope, rfl, of_decide_eq_true hrun, hlist,
      statement_keepsKinds nextProgram {} 1 5 hu ht (List.all_eq_true.1 hf) closed_mixedLists
        scopeBelow_mixedScope hend⟩

end Braced

end Stepwise
