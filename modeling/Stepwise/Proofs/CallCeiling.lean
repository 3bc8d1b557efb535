import Stepwise.Proofs.WellFormedTraces

/-!
# The call ceiling of an expression

The calls that one expression makes itself are counted when they begin, before their arguments are
evaluated, and a call that would go over the ceiling ends the evaluation. To the run this looks like
any other undefined expression. A metered evaluation (`Eval.metered`) tells the two apart: it does
the same and keeps a log of the calls that were begun and made. From the rules for its parts
(`Meters`) it follows that the ceiling is never passed, that it makes no difference unless it is
reached, and that an evaluation that was ended by it got as far as one under a higher ceiling does
(`evaluate_ceiling`). Output is continued then and not always a list with more entries, for an entry
that was left open grows (`evaluate_ceiling_grows`).
-/

namespace Stepwise

open Run Source

variable {α β : Type}

/-! ### Output that goes on -/

namespace Recorder

/-- The output of one recorder goes on in another: no entry changes, except that the newest one can
grow if it was left open. -/
structure GoesOn (r r' : Recorder) : Prop where
  grows : Extends r.output r'.output
  whole : r.entryOpen = false → r.output <+: r'.output
  shut : r.entryOpen = false → r'.output = r.output → r'.entryOpen = false

namespace GoesOn

variable {r r' r'' : Recorder}

theorem refl (r : Recorder) : r.GoesOn r := ⟨.refl _, fun _ => List.prefix_rfl, fun h _ => h⟩

theorem trans (h : r.GoesOn r') (h' : r'.GoesOn r'') : r.GoesOn r'' where
  grows := h.grows.trans h'.grows
  whole := fun hr => by
    have hle := (h.whole hr).length_le
    cases hr' : r'.entryOpen with
    | false => exact (h.whole hr).trans (h'.whole hr')
    | true =>
      -- an entry that is open now was begun after the ones before
      have hne : r'.output ≠ r.output := fun heq => by
        rw [h.shut hr heq] at hr'
        cases hr'
      have hlt : r.output.length < r'.output.length :=
        lt_of_le_of_ne hle fun heq => hne ((h.whole hr).eq_of_length heq).symm
      refine List.prefix_iff_getElem?.2 fun i hi => ?_
      rw [h'.grows.kept i (by omega)]
      exact List.prefix_iff_getElem?.1 (h.whole hr) i hi
  shut := fun hr heq => by
    have hlen := h'.grows.length_le
    rw [heq] at hlen
    have heq' := (h.whole hr).eq_of_length (Nat.le_antisymm (h.whole hr).length_le hlen)
    exact h'.shut (h.shut hr heq'.symm) (heq.trans heq')

theorem write (r : Recorder) (text ending : Text) : r.GoesOn (r.write text ending) where
  grows := .write r text ending
  whole := fun hr => by
    simp [output, Recorder.write, hr]
  shut := fun hr heq => by
    simp [output, Recorder.write, hr] at heq

end GoesOn

end Recorder

/-- A computation that may write output and leaves alone what is written. -/
def Run.AddsOutput (x : Run α) : Prop :=
  ∀ m : Machine, m.recorder.GoesOn (x.outcome m).2.recorder

namespace Run.AddsOutput

theorem of_recorder {x : Run α} (h : ∀ m, (x.outcome m).2.recorder = m.recorder) :
    x.AddsOutput := fun m => by
  rw [h]
  exact .refl _

theorem value (a : α) : (pure a : Run α).AddsOutput := of_recorder fun _ => rfl

theorem fromHeap (read : Heap → Except Fault α) : (Run.fromHeap read).AddsOutput :=
  of_recorder fun m => by rw [outcome_fromHeap]

theorem onHeap (act : HeapM α) : (Run.onHeap act).AddsOutput :=
  of_recorder fun m => by rw [outcome_onHeap]

theorem bind {x : Run α} {f : α → Run β} (hx : x.AddsOutput) (hf : ∀ a, (f a).AddsOutput) :
    (x >>= f).AddsOutput := fun m => by
  have h := hx m
  rcases hm : x.outcome m with ⟨fault | a, m'⟩ <;> rw [hm] at h
  · rw [outcome_bind_error hm]
    exact h
  · rw [outcome_bind_ok hm]
    exact h.trans (hf a m')

theorem write (text ending : Text) : (Record.write text ending).AddsOutput :=
  fun m => .write m.recorder text ending

theorem lookup (scope : Scope) (name : String) : (Eval.lookup scope name).AddsOutput :=
  of_recorder fun m => by
    unfold Eval.lookup
    split <;> rfl

/-- A built-in function only adds output. -/
theorem builtin {dialect : Dialect} {name : String} {f : List Value → Run Value}
    (h : Builtin.find? dialect name = some f) (args : List Value) : (f args).AddsOutput := by
  cases dialect with
  | indented =>
    simp only [Builtin.find?] at h
    split_ifs at h
    · cases h
      exact (fromHeap _).bind fun _ => (write _ _).bind fun _ => value _
    · obtain ⟨g, -, rfl⟩ := Option.map_eq_some_iff.1 h
      exact onHeap _
  | braced =>
    simp only [Builtin.find?] at h
    split_ifs at h
    · cases h
      cases args with
      | nil => exact of_recorder fun _ => rfl
      | cons fmt rest => exact (fromHeap _).bind fun _ => (write _ _).bind fun _ => value _
    · cases h
      exact (fromHeap _).bind fun _ => (write _ _).bind fun _ => value _
    · obtain ⟨g, -, rfl⟩ := Option.map_eq_some_iff.1 h
      exact onHeap _

end Run.AddsOutput

/-- The user-defined functions of the host may write output and leave alone what is written. -/
def Host.AddsOutput (host : Host) : Prop := ∀ name args, (host.call name args).AddsOutput

theorem Host.AddsOutput.callNamed {host : Host} (h : host.AddsOutput) (name : String)
    (args : List Value) : (Eval.callNamed host name args).AddsOutput := by
  unfold Eval.callNamed
  split
  · exact .builtin ‹_› args
  · exact h name args

/-- That the output of some recorder goes on is a regime. -/
def Regime.goingOn (r₀ : Recorder) (dialect : Dialect) (p : Program) (limits : Limits) :
    Regime dialect p limits where
  values := .any dialect
  region := fun _ => .everywhere dialect p
  Busy := r₀.GoesOn
  Calm := r₀.GoesOn
  Over := r₀.GoesOn
  Wrecked := r₀.GoesOn
  busy_of_calm := id
  wrecked_of_busy := id
  write := fun text ending h => h.trans (.write _ text ending)
  warn := fun _ h => ⟨h.grows, h.whole, h.shut⟩
  count := fun h => ⟨h.grows, h.whole, h.shut⟩
  calm_step := fun _ _ h _ _ _ _ => ⟨h.grows, h.whole, h.shut⟩
  over_return := fun _ h _ _ _ => ⟨h.grows, h.whole, h.shut⟩
  calm_call := fun _ h _ _ _ _ => ⟨h.grows, h.whole, h.shut⟩
  call_block := fun _ _ => trivial
  busy_pop := fun _ h => ⟨h.grows, h.whole, h.shut⟩
  over_pop := fun _ h => ⟨h.grows, h.whole, h.shut⟩
  wrecked_pop := fun _ h => ⟨h.grows, h.whole, h.shut⟩

/-- The functions of a program leave alone what is written. -/
theorem addsOutput_hostOf (dialect : Dialect) (p : Program) (limits : Limits) :
    (hostOf dialect (semanticsOf dialect) p limits).AddsOutput := by
  intro name args m
  have hG : (Regime.goingOn m.recorder dialect p limits).PassesHeaders := .inl fun _ => id
  have hargs : (Regime.goingOn m.recorder dialect p limits).values.All args := fun _ _ => trivial
  have hends := (Regime.serves_hostOf (Regime.runsLines hG)).call m.recorder.frames name hargs m
    rfl trivial (.refl _)
  rcases hm : ((hostOf dialect (semanticsOf dialect) p limits).call name args).outcome m with
    ⟨fault | v, m'⟩ <;> rw [hm] at hends
  · exact Regime.wrecked_of_left hends.2.2.2
  · exact hends.2.2.2

/-! ### Metered evaluation -/

/-- A call that an expression makes itself, with the lists as they are then. -/
structure DirectCall where
  name : String
  args : List Value
  heap : Heap

/-- How many calls an expression has begun, and which ones it has made, in order. -/
structure CallLog where
  machine : Machine
  begun : Nat := 0
  made : List DirectCall := []

/-- Why an evaluation has no value. -/
inductive Stop
  | fault (f : Fault)
  /-- One call more would be too many. -/
  | ceiling

/-- The fault that an evaluation ends with. Nothing tells that the ceiling was reached. -/
def Stop.toFault : Stop → Fault
  | fault f => f
  | ceiling => .undefined

/-- Evaluation inside one expression that keeps a log. The number is how many calls are left. -/
def Metered (α : Type) : Type := Int → CallLog → Except Stop (α × Int) × CallLog

namespace Metered

instance : Monad Metered where
  pure a := fun n L => (.ok (a, n), L)
  bind x f := fun n L =>
    match x n L with
    | (.ok (a, n), L) => f a n L
    | (.error stop, L) => (.error stop, L)

/-- Do a part of the evaluation. -/
def perform (x : Run α) : Metered α := fun n L =>
  match x.outcome L.machine with
  | (.ok a, machine) => (.ok (a, n), { L with machine })
  | (.error fault, machine) => (.error (.fault fault), { L with machine })

/-- Begin a call, if there is one left. -/
def spend : Metered Unit := fun n L =>
  if n ≤ 0 then (.error .ceiling, L) else (.ok ((), n - 1), { L with begun := L.begun + 1 })

/-- Make a call. -/
def make (host : Host) (name : String) (args : List Value) : Metered Value := fun n L =>
  perform (Eval.callNamed host name args) n
    { L with made := L.made ++ [⟨name, args, L.machine.heap⟩] }

/-- The truth of a value, as zero or one. -/
def truthOf (x : Metered Value) : Metered Value := do
  let w ← x
  pure (Operator.truth .braced (← perform (isTrue w)))

/-- The result of an operator, given its left operand and how the right one is evaluated. -/
def binary (dialect : Dialect) (op : BinaryOp) (v : Value) (right : Metered Value) :
    Metered Value :=
  if op = .and then do
    if ← perform (isTrue v) then right else pure v
  else if op = .or then do
    if ← perform (isTrue v) then pure v else right
  else if op = .logicalAnd then do
    if ← perform (isTrue v) then truthOf right else pure (.int 0)
  else if op = .logicalOr then do
    if ← perform (isTrue v) then pure (.int 1) else truthOf right
  else do
    perform (onHeap (Operator.apply dialect op v (← right)))

end Metered

open Metered

namespace Eval

mutual

/-- The value of an expression, with a log. -/
def metered (host : Host) (scope : Scope) : Expr → Metered Value
  | .lit l => pure (ofLiteral l)
  | .var name => perform (lookup scope name)
  | .list items => do
    let values ← meteredAll host scope items
    perform (onHeap (HeapM.newList values))
  | .unary op operand => do
    let v ← metered host scope operand
    perform (onHeap (Operator.applyUnary op v))
  | .binary op left right => do
    let v ← metered host scope left
    Metered.binary host.dialect op v (metered host scope right)
  | .index target position => do
    let v ← metered host scope target
    let i ← metered host scope position
    perform (fromHeap fun h => Operator.item host.dialect h v i)
  | .call name args => do
    spend
    let values ← meteredAll host scope args
    make host name values
  | .method receiver name args => do
    let v ← metered host scope receiver
    let values ← meteredAll host scope args
    perform (onHeap (Method.call v name values))

/-- The values of several expressions, in their order. -/
def meteredAll (host : Host) (scope : Scope) : List Expr → Metered (List Value)
  | [] => pure []
  | e :: rest => do
    let v ← metered host scope e
    let values ← meteredAll host scope rest
    pure (v :: values)

end

end Eval

/-! ### What a meter shows -/

/-- What one log holds goes on in another. -/
structure CallLog.Precedes (host : Host) (L L' : CallLog) : Prop where
  begun : L.begun ≤ L'.begun
  made : L.made <+: L'.made
  output : host.AddsOutput → L.machine.recorder.GoesOn L'.machine.recorder

namespace CallLog.Precedes

variable {host : Host} {L L' L'' : CallLog}

theorem refl (L : CallLog) : L.Precedes host L :=
  ⟨Nat.le_refl _, List.prefix_rfl, fun _ => .refl _⟩

theorem trans (h : L.Precedes host L') (h' : L'.Precedes host L'') : L.Precedes host L'' :=
  ⟨Nat.le_trans h.begun h'.begun, h.made.trans h'.made,
    fun ho => (h.output ho).trans (h'.output ho)⟩

end CallLog.Precedes

/-- How an evaluation ends if `k` calls more are left: not otherwise, unless it was ended by the
ceiling. -/
def Resembles (host : Host) (k : Nat) :
    Except Stop (α × Int) × CallLog → Except Stop (α × Int) × CallLog → Prop
  | (.ok (a, n), L), t => t = (.ok (a, n + k), L)
  | (.error (.fault f), L), t => t = (.error (.fault f), L)
  | (.error .ceiling, L), t => L.Precedes host t.2

/-- The calls of an evaluation that had `n` calls left: no more are begun than are left, no more are
made than are begun, and an evaluation that is ended by the ceiling has none left. -/
structure Accounts (n : Int) (L : CallLog) (r : Except Stop (α × Int)) (L' : CallLog) : Prop where
  begun : L'.begun ≤ L.begun + n.toNat
  made : L'.made.length + L.begun ≤ L.made.length + L'.begun
  left : ∀ a n', r = .ok (a, n') → n' + L'.begun = n + L.begun
  capped : r = .error .ceiling → L'.begun = L.begun + n.toNat

/-- A metered computation does what the computation itself does and adds to the log. -/
structure Mirrors (host : Host) (x : Metered α) (y : EvalM α) : Prop where
  erases : ∀ (n : Int) (L : CallLog),
    (y.run n).outcome L.machine = ((x n L).1.mapError Stop.toFault, (x n L).2.machine)
  precedes : ∀ (n : Int) (L : CallLog), L.Precedes host (x n L).2
  resembles : ∀ (n : Int) (k : Nat) (L : CallLog), Resembles host k (x n L) (x (n + k) L)

/-- It also keeps account of its calls. -/
structure Meters (host : Host) (x : Metered α) (y : EvalM α) : Prop extends Mirrors host x y where
  accounts : ∀ (n : Int) (L : CallLog), Accounts n L (x n L).1 (x n L).2

namespace Metered

variable {n n' : Int} {L L' : CallLog}

theorem bind_ok {x : Metered α} {a : α} (h : x n L = (.ok (a, n'), L')) (f : α → Metered β) :
    (x >>= f) n L = f a n' L' := by
  change (match x n L with
    | (.ok (a, n), L) => f a n L
    | (.error stop, L) => (.error stop, L)) = _
  rw [h]

theorem bind_error {x : Metered α} {stop : Stop} (h : x n L = (.error stop, L'))
    (f : α → Metered β) : (x >>= f) n L = (.error stop, L') := by
  change (match x n L with
    | (.ok (a, n), L) => f a n L
    | (.error stop, L) => (.error stop, L)) = _
  rw [h]

theorem perform_ok {x : Run α} {machine : Machine} {a : α}
    (h : x.outcome L.machine = (.ok a, machine)) :
    perform x n L = (.ok (a, n), { L with machine }) := by
  rw [perform, h]

theorem perform_error {x : Run α} {machine : Machine} {fault : Fault}
    (h : x.outcome L.machine = (.error fault, machine)) :
    perform x n L = (.error (.fault fault), { L with machine }) := by
  rw [perform, h]

end Metered

namespace Mirrors

variable {host : Host}

theorem value (a : α) : Mirrors host (pure a) (pure a) where
  erases := fun _ _ => rfl
  precedes := fun _ L => .refl L
  resembles := fun _ _ _ => rfl

theorem perform {x : Run α} (hx : host.AddsOutput → x.AddsOutput) :
    Mirrors host (Metered.perform x) (liftM x) where
  erases := fun n L => by
    change (x >>= fun a => pure (a, n)).outcome L.machine = _
    rcases h : x.outcome L.machine with ⟨fault | a, m⟩
    · rw [outcome_bind_error h, perform_error h]
      rfl
    · rw [outcome_bind_ok h, perform_ok h]
      rfl
  precedes := fun n L => by
    have hm := fun ho => hx ho L.machine
    rcases h : x.outcome L.machine with ⟨fault | a, m⟩ <;> rw [h] at hm
    · rw [perform_error h]
      exact ⟨Nat.le_refl _, List.prefix_rfl, hm⟩
    · rw [perform_ok h]
      exact ⟨Nat.le_refl _, List.prefix_rfl, hm⟩
  resembles := fun n k L => by
    rcases h : x.outcome L.machine with ⟨fault | a, m⟩
    · rw [perform_error h, perform_error h]
      rfl
    · rw [perform_ok h, perform_ok h]
      rfl

theorem spend : Mirrors host Metered.spend Eval.spendCall where
  erases := fun n L => by
    change ((if n - 1 < 0 then (throw .undefined : EvalM Unit) else pure ()) (n - 1)).outcome
      L.machine = _
    by_cases h : n ≤ 0
    · rw [if_pos (by omega), Metered.spend, if_pos h]
      rfl
    · rw [if_neg (by omega), Metered.spend, if_neg h]
      rfl
  precedes := fun n L => by
    rw [Metered.spend]
    split_ifs
    · exact .refl L
    · exact ⟨Nat.le_succ _, List.prefix_rfl, fun _ => .refl _⟩
  resembles := fun n k L => by
    by_cases h : n ≤ 0
    · have hn : Metered.spend n L = (.error .ceiling, L) := if_pos h
      rw [hn, Metered.spend]
      split_ifs
      · exact .refl L
      · exact ⟨Nat.le_succ _, List.prefix_rfl, fun _ => .refl _⟩
    · have hn : Metered.spend n L = (.ok ((), n - 1), { L with begun := L.begun + 1 }) := if_neg h
      rw [hn, Metered.spend, if_neg (by omega), show n + k - 1 = n - 1 + k by omega]
      rfl

theorem make (name : String) (args : List Value) :
    Mirrors host (Metered.make host name args) (liftM (Eval.callNamed host name args)) := by
  have h : Mirrors host (Metered.perform (Eval.callNamed host name args))
      (liftM (Eval.callNamed host name args)) := .perform fun ho => ho.callNamed name args
  refine ⟨fun n L => ?_, fun n L => ?_, fun n k L => h.resembles n k _⟩
  · exact h.erases n { L with made := L.made ++ [⟨name, args, L.machine.heap⟩] }
  have hmade : L.Precedes host { L with made := L.made ++ [⟨name, args, L.machine.heap⟩] } :=
    ⟨Nat.le_refl _, List.prefix_append _ _, fun _ => .refl _⟩
  exact hmade.trans (h.precedes n _)

theorem bind {x : Metered α} {y : EvalM α} {f : α → Metered β} {g : α → EvalM β}
    (hx : Mirrors host x y) (hf : ∀ a, Mirrors host (f a) (g a)) :
    Mirrors host (x >>= f) (y >>= g) where
  erases := fun n L => by
    have h := hx.erases n L
    change (y.run n >>= fun r => (g r.1).run r.2).outcome L.machine = _
    rcases hr : x n L with ⟨stop | ⟨a, n₁⟩, L₁⟩ <;> rw [hr] at h
    · rw [outcome_bind_error h, bind_error hr]
      rfl
    · rw [outcome_bind_ok h, bind_ok hr]
      exact (hf a).erases n₁ L₁
  precedes := fun n L => by
    have h := hx.precedes n L
    rcases hr : x n L with ⟨stop | ⟨a, n₁⟩, L₁⟩ <;> rw [hr] at h
    · rw [bind_error hr]
      exact h
    · rw [bind_ok hr]
      exact h.trans ((hf a).precedes n₁ L₁)
  resembles := fun n k L => by
    have h := hx.resembles n k L
    rcases hr : x n L with ⟨stop | ⟨a, n₁⟩, L₁⟩ <;> rw [hr] at h
    · rw [bind_error hr]
      cases stop with
      | fault fault =>
        rw [bind_error h]
        rfl
      | ceiling =>
        -- what the evaluation does under the higher ceiling only adds to the log
        have hprecedes : L₁.Precedes host (x (n + k) L).2 := h
        rcases hr' : x (n + k) L with ⟨stop | ⟨a, n₂⟩, L₂⟩ <;> rw [hr'] at hprecedes
        · rw [bind_error hr']
          exact hprecedes
        · rw [bind_ok hr']
          exact hprecedes.trans ((hf a).precedes n₂ L₂)
    · rw [bind_ok hr, bind_ok h]
      exact (hf a).resembles n₁ k L₁

end Mirrors

namespace Accounts

variable {n n₁ : Int} {L L₁ L₂ : CallLog}

theorem idle {r : Except Stop (α × Int)} (machine : Machine)
    (hleft : ∀ a n', r = .ok (a, n') → n' = n) (hcapped : r ≠ .error .ceiling) :
    Accounts n L r { L with machine } where
  begun := Nat.le_add_right _ _
  made := Nat.le_refl _
  left := fun a n' h => by rw [hleft a n' h]
  capped := fun h => absurd h hcapped

theorem perform (x : Run α) (n : Int) (L : CallLog) :
    Accounts n L (Metered.perform x n L).1 (Metered.perform x n L).2 := by
  rcases h : x.outcome L.machine with ⟨fault | a, m⟩
  · rw [perform_error h]
    exact .idle m (fun _ _ h => by cases h) fun h => by cases h
  · rw [perform_ok h]
    exact .idle m (fun _ _ h => by cases h; rfl) fun h => by cases h

theorem andThen {a : α} {r : Except Stop (β × Int)} (h : Accounts n L (.ok (a, n₁)) L₁)
    (hle : L.begun ≤ L₁.begun) (h' : Accounts n₁ L₁ r L₂) : Accounts n L r L₂ := by
  have hbegun := h.begun
  have hbegun' := h'.begun
  have hmade := h.made
  have hmade' := h'.made
  have hleft := h.left a n₁ rfl
  refine ⟨by omega, by omega, fun b n₂ hb => ?_, fun hc => ?_⟩
  · have := h'.left b n₂ hb
    omega
  · have := h'.capped hc
    omega

theorem stopped {stop : Stop} (h : Accounts n L (.error stop : Except Stop (α × Int)) L₁) :
    Accounts n L (.error stop : Except Stop (β × Int)) L₁ :=
  ⟨h.begun, h.made, fun _ _ h => (by cases h), fun hc => h.capped (by cases hc; rfl)⟩

/-- A call that was begun may be made. -/
theorem begin {r : Except Stop (α × Int)} (hn : ¬ n ≤ 0)
    (h : Accounts (n - 1) { L with begun := L.begun + 1 } r L₁) :
    Accounts n L r L₁ ∧ L₁.made.length + L.begun < L.made.length + L₁.begun := by
  obtain ⟨hbegun, hmade, hleft, hcapped⟩ := h
  dsimp only at hbegun hmade hleft hcapped
  refine ⟨⟨by omega, by omega, fun a n' h => ?_, fun h => ?_⟩, by omega⟩
  · have := hleft a n' h
    omega
  · have := hcapped h
    omega

theorem make {host : Host} {a : α} {name : String} {args : List Value}
    (h : Accounts n L (.ok (a, n₁)) L₁) (hle : L.begun ≤ L₁.begun)
    (hlt : L₁.made.length + L.begun < L.made.length + L₁.begun) :
    Accounts n L (Metered.make host name args n₁ L₁).1 (Metered.make host name args n₁ L₁).2 := by
  have hmade : Accounts n L (.ok (a, n₁))
      { L₁ with made := L₁.made ++ [⟨name, args, L₁.machine.heap⟩] } := by
    refine ⟨h.begun, ?_, h.left, fun h => by cases h⟩
    simp only [List.length_append, List.length_singleton]
    omega
  exact hmade.andThen hle (.perform _ n₁ _)

end Accounts

namespace Meters

variable {host : Host}

theorem value (a : α) : Meters host (pure a) (pure a) where
  toMirrors := .value a
  accounts := fun n L => .idle L.machine (fun _ _ h => by cases h; rfl) fun h => by cases h

theorem perform {x : Run α} (hx : host.AddsOutput → x.AddsOutput) :
    Meters host (Metered.perform x) (liftM x) where
  toMirrors := .perform hx
  accounts := Accounts.perform x

theorem onHeap (act : HeapM α) :
    Meters host (Metered.perform (Run.onHeap act)) (liftM (Run.onHeap act)) :=
  perform fun _ => .onHeap act

theorem bind {x : Metered α} {y : EvalM α} {f : α → Metered β} {g : α → EvalM β}
    (hx : Meters host x y) (hf : ∀ a, Meters host (f a) (g a)) :
    Meters host (x >>= f) (y >>= g) where
  toMirrors := hx.toMirrors.bind fun a => (hf a).toMirrors
  accounts := fun n L => by
    have h := hx.accounts n L
    have hle := (hx.precedes n L).begun
    rcases hr : x n L with ⟨stop | ⟨a, n₁⟩, L₁⟩ <;> rw [hr] at h hle
    · rw [bind_error hr]
      exact h.stopped
    · rw [bind_ok hr]
      exact h.andThen hle ((hf a).accounts n₁ L₁)

/-- A call is begun before its arguments are evaluated, and made after that. -/
theorem call {x : Metered (List Value)} {y : EvalM (List Value)} (name : String)
    (hx : Meters host x y) :
    Meters host (do spend; let values ← x; Metered.make host name values)
      (do Eval.spendCall; let values ← y; Eval.callNamed host name values) where
  toMirrors := Mirrors.spend.bind fun _ => hx.toMirrors.bind fun values => .make name values
  accounts := fun n L => by
    by_cases hn : n ≤ 0
    · have hspend : spend n L = (.error .ceiling, L) := if_pos hn
      rw [bind_error hspend]
      exact ⟨Nat.le_add_right _ _, Nat.le_refl _, fun _ _ h => (by cases h),
        fun _ => by rw [Int.toNat_of_nonpos hn]; rfl⟩
    · have hspend : spend n L = (.ok ((), n - 1), { L with begun := L.begun + 1 }) := if_neg hn
      rw [bind_ok hspend]
      have h := hx.accounts (n - 1) { L with begun := L.begun + 1 }
      have hle := (hx.precedes (n - 1) { L with begun := L.begun + 1 }).begun
      rcases hr : x (n - 1) { L with begun := L.begun + 1 } with ⟨stop | ⟨values, n₁⟩, L₁⟩ <;>
        rw [hr] at h hle <;> obtain ⟨h, hlt⟩ := h.begin hn
      · rw [bind_error hr]
        exact h.stopped
      · rw [bind_ok hr]
        exact h.make (Nat.le_of_succ_le hle) hlt

theorem whenTrue (v : Value) {x x' : Metered α} {y y' : EvalM α} (h : Meters host x y)
    (h' : Meters host x' y') :
    Meters host (do if ← Metered.perform (isTrue v) then x else x')
      (do if ← isTrue v then y else y') :=
  (perform fun _ => .of_recorder fun _ => rfl).bind fun b => by
    cases b
    · exact h'
    · exact h

theorem truthOf {x : Metered Value} {y : EvalM Value} (h : Meters host x y) :
    Meters host (Metered.truthOf x)
      (do let w ← y; pure (Operator.truth .braced (← isTrue w))) :=
  h.bind fun _ => (perform fun _ => .of_recorder fun _ => rfl).bind fun _ => value _

end Meters

/-! ### Ceilings -/

/-- The host with another ceiling for the calls of an expression. -/
def Host.withCeiling (host : Host) (ceiling : Int) : Host :=
  { host with limits := { host.limits with maxCallsPerExpression := ceiling } }

section Ceilings

variable {host : Host} {scope : Scope} {ceiling : Int}

mutual

/-- The metered evaluation is the evaluation under the ceiling, with an account of its calls. -/
theorem meters_eval : ∀ e : Expr,
    Meters host (Eval.metered host scope e) (Eval.eval (host.withCeiling ceiling) scope e)
  | .lit l => by
    rw [Eval.metered, Eval.eval]
    exact .value _
  | .var name => by
    rw [Eval.metered, Eval.eval]
    exact .perform fun _ => .lookup scope name
  | .list items => by
    rw [Eval.metered, Eval.eval]
    exact (meters_evalAll items).bind fun values => .onHeap _
  | .unary op operand => by
    rw [Eval.metered, Eval.eval]
    exact (meters_eval operand).bind fun v => .onHeap _
  | .binary op left right => by
    rw [Eval.metered, Eval.eval]
    refine (meters_eval left).bind fun v => ?_
    have hw := meters_eval right
    cases op with
    | and => exact .whenTrue v hw (.value v)
    | or => exact .whenTrue v (.value v) hw
    | logicalAnd => exact .whenTrue v hw.truthOf (.value _)
    | logicalOr => exact .whenTrue v (.value _) hw.truthOf
    | _ => exact hw.bind fun w => .onHeap _
  | .index target position => by
    rw [Eval.metered, Eval.eval]
    exact (meters_eval target).bind fun v => (meters_eval position).bind fun i =>
      .perform fun _ => .fromHeap _
  | .call name args => by
    rw [Eval.metered, Eval.eval]
    exact (meters_evalAll args).call name
  | .method receiver name args => by
    rw [Eval.metered, Eval.eval]
    exact (meters_eval receiver).bind fun v => (meters_evalAll args).bind fun values => .onHeap _

theorem meters_evalAll : ∀ es : List Expr,
    Meters host (Eval.meteredAll host scope es)
      (Eval.evalAll (host.withCeiling ceiling) scope es)
  | [] => by
    rw [Eval.meteredAll, Eval.evalAll]
    exact .value []
  | e :: es => by
    rw [Eval.meteredAll, Eval.evalAll]
    exact (meters_eval e).bind fun v => (meters_evalAll es).bind fun values => .value _

end

/-- How an expression is evaluated under a ceiling, with the log at the end. -/
def Host.meter (host : Host) (scope : Scope) (e : Expr) (ceiling : Int) (m : Machine) :
    Except Stop (Value × Int) × CallLog :=
  Eval.metered host scope e ceiling { machine := m }

/-- The evaluation of an expression is ended by the ceiling. -/
def Host.Capped (host : Host) (scope : Scope) (e : Expr) (ceiling : Int) (m : Machine) : Prop :=
  (host.meter scope e ceiling m).1 = .error .ceiling

/-- The evaluation ended because of the ceiling. -/
def isCeiling : Except Stop α → Bool
  | .error .ceiling => true
  | _ => false

theorem isCeiling_iff {r : Except Stop α} : isCeiling r = true ↔ r = .error .ceiling := by
  rcases r with (_ | _) | _ <;> simp [isCeiling]

instance (host : Host) (scope : Scope) (e : Expr) (ceiling : Int) (m : Machine) :
    Decidable (host.Capped scope e ceiling m) :=
  decidable_of_iff _ isCeiling_iff

/-- What becomes of the end of an evaluation: a fault that can be recovered from is unknown. -/
def settle : Except Stop (Value × Int) → Except Fault Value
  | .ok (v, _) => .ok v
  | .error stop => if stop.toFault.isRecoverable then .ok .unknown else .error stop.toFault

/-- The value of an expression under a ceiling is what its metered evaluation ends with. -/
theorem outcome_withCeiling (host : Host) (scope : Scope) (e : Expr) (ceiling : Int)
    (m : Machine) : ((host.withCeiling ceiling).evaluate scope e).outcome m =
      (settle (host.meter scope e ceiling m).1, (host.meter scope e ceiling m).2.machine) := by
  have hmeters : Meters host (Eval.metered host scope e)
      (Eval.eval (host.withCeiling ceiling) scope e) := meters_eval e
  have h := hmeters.erases ceiling { machine := m }
  change _ = ((host.meter scope e ceiling m).1.mapError _, (host.meter scope e ceiling m).2.machine)
    at h
  have hrun : (host.withCeiling ceiling).limits.maxCallsPerExpression = ceiling := rfl
  rw [Host.evaluate, outcome_recover, StateT.run'_eq, map_eq_pure_bind, hrun]
  rcases hr : host.meter scope e ceiling m with ⟨stop | ⟨v, n⟩, L⟩ <;> rw [hr] at h
  · rw [outcome_bind_error h]
    rfl
  · rw [outcome_bind_ok h]
    rfl

/-- The ceiling of an expression is exact, and makes no difference unless it is reached. An
evaluation makes no more calls than it begins, and begins no more than the ceiling allows. If it is
not ended by the ceiling, it is the same under every higher one: it has the same value, makes the
same calls and leaves the same output and the same lists. Otherwise it is unknown, and under a
higher ceiling its calls and its output go on. -/
theorem evaluate_ceiling (host : Host) (scope : Scope) (e : Expr) (m : Machine) {N N' : Int}
    (hN : N ≤ N') :
    let t := host.meter scope e N m
    let t' := host.meter scope e N' m
    let outcome := ((host.withCeiling N).evaluate scope e).outcome m
    let outcome' := ((host.withCeiling N').evaluate scope e).outcome m
    outcome = (settle t.1, t.2.machine) ∧
      t.2.made.length ≤ t.2.begun ∧ (t.2.begun : Int) ≤ max 0 N ∧
      (¬ host.Capped scope e N m → outcome' = outcome ∧ t'.2.made = t.2.made) ∧
      (host.Capped scope e N m →
        outcome.1 = .ok .unknown ∧ (t.2.begun : Int) = max 0 N ∧ t.2.made <+: t'.2.made ∧
          (host.AddsOutput → outcome.2.recorder.GoesOn outcome'.2.recorder)) := by
  intro t t' outcome outcome'
  have houtcome : outcome = (settle t.1, t.2.machine) := outcome_withCeiling host scope e N m
  have houtcome' : outcome' = (settle t'.1, t'.2.machine) := outcome_withCeiling host scope e N' m
  have hmeters : Meters host (Eval.metered host scope e)
      (Eval.eval (host.withCeiling N) scope e) := meters_eval e
  have haccounts : Accounts N { machine := m } t.1 t.2 := hmeters.accounts N { machine := m }
  have hresembles : Resembles host (N' - N).toNat t t' := by
    have h := hmeters.resembles N (N' - N).toNat { machine := m }
    rwa [show N + (N' - N).toNat = N' by omega] at h
  have hbegun := haccounts.begun
  have hmade := haccounts.made
  simp only [List.length_nil, Nat.zero_add, Nat.add_zero] at hbegun hmade
  refine ⟨houtcome, hmade, by omega, fun hcapped => ?_, fun hcapped => ?_⟩
  · rw [houtcome, houtcome']
    rcases hr : t with ⟨(fault | _) | ⟨v, n⟩, L⟩ <;> rw [hr] at hresembles
    · rw [hresembles]
      exact ⟨rfl, rfl⟩
    · exact absurd (congrArg Prod.fst hr) hcapped
    · rw [hresembles]
      exact ⟨rfl, rfl⟩
  · have hceiling : t.1 = .error .ceiling := hcapped
    have hprecedes : t.2.Precedes host t'.2 := by
      rcases hr : t with ⟨(fault | _) | ⟨v, n⟩, L⟩ <;> rw [hr] at hresembles hceiling
      · cases hceiling
      · exact hresembles
      · cases hceiling
    have hspent := haccounts.capped hceiling
    dsimp only at hspent
    refine ⟨?_, by omega, hprecedes.made, fun ho => ?_⟩
    · rw [houtcome, hceiling]
      rfl
    · rw [houtcome, houtcome']
      exact hprecedes.output ho

/-- The functions of a program with one that leaves its output entry open. -/
def printingHost : Host :=
  hostOf .indented (semanticsOf .indented)
    (layout .indented "def f():\n    print(\"a\", end=\"\")\n    return 1".toList) {}

/-- The expression `len("ab") + f() + f()`. -/
def threeCalls : Expr :=
  .binary .add (.binary .add (.call "len" [.lit (.str "ab")]) (.call "f" [])) (.call "f" [])

theorem addsOutput_printingHost : printingHost.AddsOutput := addsOutput_hostOf _ _ _

/-- Two of three calls are made under the ceiling two, and the rest under the ceiling three. -/
theorem evaluate_ceiling_threeCalls :
    (2 : Int) ≤ 3 ∧ printingHost.Capped Table.empty threeCalls 2 {} ∧
      ¬ printingHost.Capped Table.empty threeCalls 3 {} ∧
      (printingHost.meter Table.empty threeCalls 2 {}).2.made.map DirectCall.name = ["len", "f"] ∧
      (printingHost.meter Table.empty threeCalls 2 {}).2.made <+:
        (printingHost.meter Table.empty threeCalls 3 {}).2.made ∧
      (((printingHost.withCeiling 2).evaluate Table.empty threeCalls).outcome {}).2.recorder.GoesOn
        (((printingHost.withCeiling 3).evaluate Table.empty threeCalls).outcome {}).2.recorder := by
  have hcapped : printingHost.Capped Table.empty threeCalls 2 {} := by decide +kernel
  have hfree : ¬ printingHost.Capped Table.empty threeCalls 3 {} := by decide +kernel
  have hnames : (printingHost.meter Table.empty threeCalls 2 {}).2.made.map DirectCall.name =
      ["len", "f"] := by decide +kernel
  have hle : (2 : Int) ≤ 3 := by decide
  have h := (evaluate_ceiling printingHost Table.empty threeCalls {} hle).2.2.2.2 hcapped
  exact ⟨hle, hcapped, hfree, hnames, h.2.2.1, h.2.2.2 addsOutput_printingHost⟩

/-- An entry that was left open under one ceiling has grown under a higher one. -/
theorem evaluate_ceiling_grows :
    let output (ceiling : Int) := (((printingHost.withCeiling ceiling).evaluate Table.empty
      threeCalls).outcome {}).2.recorder.output
    printingHost.Capped Table.empty threeCalls 2 {} ∧ output 2 = ["a"] ∧ output 3 = ["aa"] ∧
      ¬ output 2 <+: output 3 := by
  decide +kernel

end Ceilings

end Stepwise
