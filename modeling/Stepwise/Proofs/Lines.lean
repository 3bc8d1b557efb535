import Mathlib.Logic.Function.Iterate
import Stepwise.Proofs.Outcome

/-!
# Where statements end

Everything that is looked for in the lines of a program is looked for further down, so the
recursions that find bodies, ends of statements and chains of branches end. A recursion is given by
one step of it, a function of what the recursive calls give; it `Settles` when unrolling the step
often enough gives the same function whatever stands at the bottom. It does as soon as each call is
decided by calls that need less (`settles_iterate`), and the function then satisfies the equation of
the recursion without any bound (`Settles.fixed`).
-/

namespace Stepwise

open Source Text

section Recursion

variable {ι β : Type} {step : (ι → β) → ι → β} {dom : ι → Prop} {depth : ι → Nat}
  {inv : ι → β → Prop} {f : ι → β}

/-- From a depth on, unrolling a recursion gives `f`, whatever it would do at the bottom. -/
def Settles (step : (ι → β) → ι → β) (dom : ι → Prop) (depth : ι → Nat) (f : ι → β) : Prop :=
  ∀ (bottom : ι → β) (n : Nat) (i : ι), dom i → depth i ≤ n → step^[n] bottom i = f i

/-- One step at an argument only asks for arguments of less depth, as long as it gets answers that
satisfy `inv`; its own answer then satisfies it too. -/
def Descends (step : (ι → β) → ι → β) (dom : ι → Prop) (depth : ι → Nat) (inv : ι → β → Prop) :
    Prop :=
  ∀ (g g' : ι → β) (i : ι), dom i →
    (∀ j, dom j → depth j < depth i → g j = g' j ∧ inv j (g j)) →
    step g i = step g' i ∧ inv i (step g i)

theorem iterate_of_descends (hd : Descends step dom depth inv) (hpos : ∀ i, dom i → 0 < depth i) :
    ∀ (n k : Nat) (g g' : ι → β) (i : ι), dom i → depth i ≤ n → depth i ≤ k →
      step^[n] g i = step^[k] g' i ∧ inv i (step^[n] g i)
  | 0, _, _, _, i, hi, hn, _ => by
    have := hpos i hi
    omega
  | _, 0, _, _, i, hi, _, hk => by
    have := hpos i hi
    omega
  | n + 1, k + 1, g, g', i, hi, hn, hk => by
    rw [Function.iterate_succ_apply', Function.iterate_succ_apply']
    exact hd _ _ i hi fun j hj hlt =>
      iterate_of_descends hd hpos n k g g' j hj (by omega) (by omega)

theorem settles_iterate (hd : Descends step dom depth inv) (hpos : ∀ i, dom i → 0 < depth i)
    (base : ι → β) {k : ι → Nat} (hk : ∀ i, dom i → depth i ≤ k i) :
    Settles step dom depth (fun i => step^[k i] base i) :=
  fun bottom n i hi hn => (iterate_of_descends hd hpos n (k i) bottom base i hi hn (hk i hi)).1

theorem Settles.keeps (h : Settles step dom depth f) (hd : Descends step dom depth inv)
    (hpos : ∀ i, dom i → 0 < depth i) {i : ι} (hi : dom i) : inv i (f i) := by
  have hi' :=
    (iterate_of_descends hd hpos (depth i) (depth i) f f i hi (Nat.le_refl _) (Nat.le_refl _)).2
  rwa [h f (depth i) i hi (Nat.le_refl _)] at hi'

theorem Settles.fixed (h : Settles step dom depth f) (hd : Descends step dom depth inv)
    (hpos : ∀ i, dom i → 0 < depth i) {i : ι} (hi : dom i) : f i = step f i := by
  rw [← h f (depth i + 1) i hi (Nat.le_succ _), Function.iterate_succ_apply']
  refine (hd _ _ i hi fun j hj hlt => ?_).1
  rw [h f (depth i) j hj (Nat.le_of_lt hlt)]
  exact ⟨rfl, h.keeps hd hpos hj⟩

end Recursion

namespace Source.Program

variable (p : Program)

theorem add_length_takeWhile_drop_le (q : Line → Bool) {start : Nat} (h : start ≤ p.size) :
    start + ((p.lines.drop start).takeWhile q).length ≤ p.size := by
  have h1 := (List.takeWhile_sublist q (l := p.lines.drop start)).length_le
  rw [List.length_drop] at h1
  unfold size at h ⊢
  omega

theorem le_nextCodeLine (start : Nat) : start ≤ p.nextCodeLine start := Nat.le_add_right _ _

theorem nextCodeLine_le {start : Nat} (h : start ≤ p.size) : p.nextCodeLine start ≤ p.size :=
  p.add_length_takeWhile_drop_le _ h

theorem le_blockEnd (start depth : Nat) : start ≤ p.blockEnd start depth := Nat.le_add_right _ _

theorem blockEnd_le {start : Nat} (depth : Nat) (h : start ≤ p.size) :
    p.blockEnd start depth ≤ p.size :=
  p.add_length_takeWhile_drop_le _ h

theorem le_nextStatement (start depth : Nat) : start ≤ p.nextStatement start depth :=
  Nat.le_add_right _ _

theorem body_stop (i : Nat) : i < (p.body i).stop := p.le_blockEnd (i + 1) _

theorem body_stop_le {i : Nat} (h : i < p.size) : (p.body i).stop ≤ p.size :=
  p.blockEnd_le _ h

end Source.Program

namespace Chain

variable {β : Type}

/-- Every body of a chain satisfies `P`, and every line where the program goes on satisfies `Q`. -/
def All (P : β → Prop) (Q : Nat → Prop) : Chain β → Prop
  | guarded _ _ body resume rest => P body ∧ Q resume.get ∧ rest.All P Q
  | otherwise body resume => P body ∧ Q resume
  | malformed line _ => Q (line + 1)
  | done resume => Q resume

theorem All.imp {P P' : β → Prop} {Q Q' : Nat → Prop} (hP : ∀ b, P b → P' b)
    (hQ : ∀ i, Q i → Q' i) : ∀ {c : Chain β}, c.All P Q → c.All P' Q'
  | guarded .., ⟨h1, h2, h3⟩ => ⟨hP _ h1, hQ _ h2, h3.imp hP hQ⟩
  | otherwise .., ⟨h1, h2⟩ => ⟨hP _ h1, hQ _ h2⟩
  | malformed .., h => hQ _ h
  | done _, h => hQ _ h

/-- A chain goes on at one of its own lines. -/
theorem All.resume {P : β → Prop} {Q : Nat → Prop} {host : Host} {runBody : β → Block}
    {runMalformed : Nat → List Char → Block} :
    ∀ {c : Chain β} {scope : Scope} {next : Nat} {flow : Flow}, c.All P Q →
      Returns (c.run host runBody runMalformed scope) (next, flow) → Q next
  | guarded .., scope, next, flow, ⟨_, h2, h3⟩, hr => by
    obtain ⟨v, -, hr⟩ := hr.of_bind
    obtain ⟨b, -, hr⟩ := hr.of_bind
    cases b with
    | true =>
      obtain ⟨_, -, hr⟩ := hr.of_bind
      obtain ⟨_, -, hr⟩ := hr.of_bind
      cases hr.of_pure
      exact h2
    | false =>
      obtain ⟨_, -, hr⟩ := hr.of_bind
      exact h3.resume hr
  | otherwise .., scope, next, flow, ⟨_, h2⟩, hr => by
    obtain ⟨_, -, hr⟩ := hr.of_bind
    cases hr.of_pure
    exact h2
  | malformed .., scope, next, flow, h, hr => by
    obtain ⟨_, -, hr⟩ := hr.of_bind
    cases hr.of_pure
    exact h
  | done _, scope, next, flow, h, hr => by
    cases hr.of_pure
    exact h

end Chain

namespace Indented

variable (p : Program) (depth : Nat)

theorem codeLineAt?_eq_some {start i : Nat} (h : codeLineAt? p depth start = some i) :
    start ≤ i ∧ i < p.size ∧ i = p.nextCodeLine start ∧ (p.line i).depth = depth := by
  unfold codeLineAt? at h
  dsimp only at h
  split_ifs at h with hi
  cases h
  exact ⟨p.le_nextCodeLine start, hi.1, rfl, hi.2⟩

section Skipping

/-- One step of the search for the line after a chain. -/
def skipStep (rest : Nat → Nat) (start : Nat) : Nat :=
  match codeLineAt? p depth start with
  | some i =>
    if isElif (p.line i).text || isElse (p.line i).text then rest (p.body i).stop else i
  | none => p.nextCodeLine start

theorem skipBranches_eq_iterate : ∀ n : Nat,
    skipBranches p depth n = (skipStep p depth)^[n] p.nextCodeLine
  | 0 => rfl
  | n + 1 => by
    funext start
    rw [Function.iterate_succ_apply', ← skipBranches_eq_iterate n]
    rfl

theorem skipStep_descends :
    Descends (skipStep p depth) (fun start => 0 < start ∧ start ≤ p.size)
      (fun start => p.size - start + 1) (fun start next => start ≤ next ∧ next ≤ p.size) := by
  intro g g' start hs hg
  have h1 := p.le_nextCodeLine start
  have h2 := p.nextCodeLine_le hs.2
  unfold skipStep
  split
  · rename_i i hi
    obtain ⟨h3, h4, -, -⟩ := codeLineAt?_eq_some p depth hi
    have h5 := p.body_stop i
    obtain ⟨hgg, h6, h7⟩ := hg _ ⟨by omega, p.body_stop_le h4⟩ (by dsimp only; omega)
    rw [← hgg]
    split_ifs
    · exact ⟨rfl, by omega, h7⟩
    · exact ⟨rfl, h3, Nat.le_of_lt h4⟩
  · exact ⟨rfl, h1, h2⟩

theorem skipBranches_settles :
    Settles (skipStep p depth) (fun start => 0 < start ∧ start ≤ p.size)
      (fun start => p.size - start + 1) (skipBranches p depth p.size) := by
  rw [skipBranches_eq_iterate]
  exact settles_iterate (skipStep_descends p depth) (fun _ _ => by omega) _ fun _ _ => by omega

theorem skipBranches_bounds {start : Nat} (h0 : 0 < start) (h : start ≤ p.size) :
    start ≤ skipBranches p depth p.size start ∧ skipBranches p depth p.size start ≤ p.size :=
  (skipBranches_settles p depth).keeps (skipStep_descends p depth) (fun _ _ => by omega) ⟨h0, h⟩

end Skipping

section Chains

/-- One step of the reading of a chain. -/
def chainStep (rest : Nat → Chain Extent) (i : Nat) : Chain Extent :=
  match branchGuard? (p.line i).text with
  | none => .malformed i (p.line i).text
  | some guard =>
    let body := p.body i
    .guarded i guard body (skipBranches p depth p.size body.stop)
      (match codeLineAt? p depth body.stop with
      | some j =>
        if isElif (p.line j).text then rest j
        else if isElse (p.line j).text then .otherwise (p.body j) (p.body j).stop
        else .done body.stop
      | none => .done body.stop)

theorem chainFrom_eq_iterate : ∀ n : Nat,
    chainFrom p depth n = (chainStep p depth)^[n] Chain.done
  | 0 => rfl
  | n + 1 => by
    funext i
    rw [Function.iterate_succ_apply', ← chainFrom_eq_iterate n]
    rfl

/-- The bodies of a chain stand below the line where it starts, and it goes on below that line. -/
theorem chainStep_descends :
    Descends (chainStep p depth) (· < p.size) (fun i => p.size - i) (fun i c =>
      c.All (fun body => i < body.start ∧ body.stop ≤ p.size)
        (fun next => i < next ∧ next ≤ p.size)) := by
  intro g g' i hi hg
  have h1 := p.body_stop i
  have h2 := p.body_stop_le hi
  have h3 := skipBranches_bounds p depth (by omega) h2
  unfold chainStep
  split
  · exact ⟨rfl, Nat.lt_succ_self i, hi⟩
  · dsimp only
    split
    · rename_i j hj
      obtain ⟨h4, h5, -, -⟩ := codeLineAt?_eq_some p depth hj
      have h6 := p.body_stop j
      obtain ⟨hgg, hall⟩ := hg j h5 (by dsimp only; omega)
      rw [← hgg]
      refine ⟨rfl, ⟨Nat.lt_succ_self i, h2⟩,
        ⟨by show i < skipBranches _ _ _ _; omega, h3.2⟩, ?_⟩
      split_ifs
      · exact hall.imp (fun body hb => ⟨by omega, hb.2⟩) fun next hn => ⟨by omega, hn.2⟩
      · exact ⟨⟨by show i < j + 1; omega, p.body_stop_le h5⟩, by omega, p.body_stop_le h5⟩
      · exact ⟨h1, h2⟩
    · exact ⟨rfl, ⟨Nat.lt_succ_self i, h2⟩,
        ⟨by show i < skipBranches _ _ _ _; omega, h3.2⟩, h1, h2⟩

theorem chainFrom_settles :
    Settles (chainStep p depth) (· < p.size) (fun i => p.size - i)
      (chainFrom p depth p.size) := by
  rw [chainFrom_eq_iterate]
  exact settles_iterate (chainStep_descends p depth) (fun _ _ => by omega) _ fun _ _ => by omega

theorem chainAt_all {i : Nat} (h : i < p.size) :
    (chainAt p i).All (fun body => i < body.start ∧ body.stop ≤ p.size)
      (fun next => i < next ∧ next ≤ p.size) :=
  (chainFrom_settles p _).keeps (chainStep_descends p _) (fun _ _ => by omega) h

end Chains

end Indented

namespace Text

theorem length_trimLeft_le (text : List Char) : (trimLeft text).length ≤ text.length :=
  (List.dropWhile_sublist _).length_le

theorem length_trimRight_le (text : List Char) : (trimRight text).length ≤ text.length := by
  have h := (List.dropWhile_sublist isBlank (l := text.reverse)).length_le
  rw [List.length_reverse] at h
  simpa only [trimRight, List.length_reverse] using h

theorem length_trim_le (text : List Char) : (trim text).length ≤ text.length :=
  Nat.le_trans (length_trimRight_le _) (length_trimLeft_le text)

end Text

namespace Braced

section OnOneLine

theorem length_header? {text guard rest : List Char} (h : header? text = some (guard, rest)) :
    rest.length < text.length := by
  unfold header? at h
  obtain ⟨first, hf, h⟩ := Option.bind_eq_some_iff.1 h
  obtain ⟨last, -, h⟩ := Option.bind_eq_some_iff.1 h
  cases h
  have hne : text ≠ [] := by
    rintro rfl
    simp [indexOf?] at hf
  have h1 := length_trim_le (text.drop (last + 1))
  have h2 := List.length_pos_iff.2 hne
  rw [List.length_drop] at h1
  omega

/-- The text behind an `else` is shorter than the whole text. -/
theorem length_splitElseFrom : ∀ (text : List Char) {s : Nesting} {front body tail : List Char},
    splitElseFrom s front text = some (body, tail) → tail.length < text.length
  | [], _, _, _, _, h => by simp [splitElseFrom] at h
  | c :: rest, s, front, body, tail, h => by
    rw [splitElseFrom] at h
    split_ifs at h
    · cases h
      have h1 := length_trim_le ((trimLeft rest).drop 4)
      have h2 := length_trimLeft_le rest
      rw [List.length_drop] at h1
      unfold afterElse
      rw [List.length_cons]
      omega
    · have := length_splitElseFrom rest h
      rw [List.length_cons]
      omega

/-- One step of the reading of the branches on a line. -/
def readStep (more : List Char → BranchLine) (text : List Char) : BranchLine :=
  match header? text with
  | none => .malformed text
  | some (guard, rest) =>
    match splitElse? rest with
    | none => .last guard rest
    | some (body, tail) =>
      if isIf tail then .elseIf guard body (more tail) else .otherwise guard body tail

theorem readWith_eq_iterate : ∀ n : Nat,
    BranchLine.readWith n = readStep^[n] BranchLine.malformed
  | 0 => rfl
  | n + 1 => by
    funext text
    rw [Function.iterate_succ_apply', ← readWith_eq_iterate n]
    rfl

theorem readStep_descends :
    Descends readStep (fun _ => True) (fun text => text.length + 1) (fun _ _ => True) := by
  intro g g' text _ hg
  refine ⟨?_, trivial⟩
  unfold readStep
  split
  · rfl
  · rename_i guard rest hh
    split
    · rfl
    · rename_i body tail hs
      have h1 := length_header? hh
      have h2 := length_splitElseFrom rest hs
      rw [(hg tail trivial (by dsimp only; omega)).1]

theorem read_settles :
    Settles readStep (fun _ => True) (fun text => text.length + 1) BranchLine.read := by
  have h := settles_iterate readStep_descends (fun _ _ => Nat.succ_pos _) BranchLine.malformed
    (k := fun text => text.length + 1) fun _ _ => Nat.le_refl _
  simp only [← readWith_eq_iterate] at h
  exact h

end OnOneLine

section Ends

variable (p : Program)

/-- A body on lines below a given one, or on the line itself. -/
def Body.Below (i : Nat) : Body → Prop
  | .lines extent => i < extent.start
  | .inline _ _ => True

/-- Ends of the statements below a line, each below its own line and within the program. -/
def EndsBelow (i : Nat) (e : Nat → List Char → Nat) : Prop :=
  ∀ j text, i < j → j < p.size → j < e j text ∧ e j text ≤ p.size

variable {p}

theorem EndsBelow.mono {i j : Nat} {e : Nat → List Char → Nat} (h : EndsBelow p i e)
    (hij : i ≤ j) : EndsBelow p j e :=
  fun k text hk => h k text (by omega)

variable (p) {e e' : Nat → List Char → Nat} {i : Nat}

theorem bodyWith_congr (h : ∀ j, i < j → j < p.size → e j = e' j) (rest : List Char) :
    bodyWith p e i rest = bodyWith p e' i rest := by
  have h1 := p.le_nextCodeLine (i + 1)
  unfold bodyWith
  dsimp only
  by_cases hn : p.nextCodeLine (i + 1) < p.size
  · rw [h _ (by omega) hn]
  · rw [if_neg hn, if_neg hn]

theorem skipElseWith_congr {start : Nat} (hs : i < start)
    (h : ∀ j, i < j → j < p.size → e j = e' j) (depth : Nat) :
    skipElseWith p e depth start = skipElseWith p e' depth start := by
  have h1 := p.le_nextCodeLine start
  unfold skipElseWith
  dsimp only
  split_ifs with hc hi
  · simp only [Bool.and_eq_true, decide_eq_true_eq] at hc
    rw [h _ (by omega) hc.1.1]
  · rw [bodyWith_congr p (fun j hj => h j (by omega))]
  · rfl

theorem bodyWith_below (rest : List Char) : (bodyWith p e i rest).Below i := by
  have h1 := p.le_nextCodeLine (i + 1)
  unfold bodyWith
  dsimp only
  split_ifs
  · exact h1
  · exact h1
  · exact Nat.lt_succ_self i
  · trivial

theorem bodyWith_resume (hi : i < p.size) (he : EndsBelow p i e) (rest : List Char) :
    i < (bodyWith p e i rest).resume ∧ (bodyWith p e i rest).resume ≤ p.size := by
  have h1 := p.le_nextCodeLine (i + 1)
  have h2 : p.nextCodeLine (i + 1) ≤ p.size := p.nextCodeLine_le hi
  unfold bodyWith
  dsimp only
  split_ifs with hb hn
  · have h3 := he _ (p.line (p.nextCodeLine (i + 1))).text (by omega) hn
    exact ⟨by show i < e _ _; omega, h3.2⟩
  · exact ⟨h1, h2⟩
  · exact ⟨p.le_blockEnd (i + 1) _, p.blockEnd_le _ hi⟩
  · exact ⟨Nat.lt_succ_self i, hi⟩

/-- The `else` branches below a line end below it. -/
theorem skipElseWith_bounds {start : Nat} (hs : i < start) (hs' : start ≤ p.size)
    (he : EndsBelow p i e) (depth : Nat) :
    i < skipElseWith p e depth start ∧ skipElseWith p e depth start ≤ p.size := by
  have h1 := p.le_nextCodeLine start
  have h2 := p.nextCodeLine_le hs'
  unfold skipElseWith
  dsimp only
  split_ifs with hc hi
  · simp only [Bool.and_eq_true, decide_eq_true_eq] at hc
    have h3 := he _ (afterElse (p.line (p.nextCodeLine start)).text) (by omega) hc.1.1
    exact ⟨by omega, h3.2⟩
  · simp only [Bool.and_eq_true, decide_eq_true_eq] at hc
    have h3 := bodyWith_resume p hc.1.1 (he.mono (by omega))
      (afterElse (p.line (p.nextCodeLine start)).text)
    have h4 := p.le_nextCodeLine
      (bodyWith p e (p.nextCodeLine start) (afterElse (p.line (p.nextCodeLine start)).text)).resume
    exact ⟨by omega, p.nextCodeLine_le h3.2⟩
  · exact ⟨by omega, h2⟩

theorem branchEndWith_congr (h : ∀ j, i < j → j < p.size → e j = e' j)
    (hr : ∀ rest, i < (bodyWith p e' i rest).resume) :
    ∀ line : BranchLine, branchEndWith p e i line = branchEndWith p e' i line
  | .malformed _ => rfl
  | .last _ body => by
    rw [branchEndWith, branchEndWith, bodyWith_congr p h]
    exact skipElseWith_congr p (hr body) h _
  | .otherwise _ _ elseBody => by rw [branchEndWith, branchEndWith, bodyWith_congr p h]
  | .elseIf _ _ rest => branchEndWith_congr h hr rest

theorem branchEndWith_bounds (hi : i < p.size) (he : EndsBelow p i e) :
    ∀ line : BranchLine, i < branchEndWith p e i line ∧ branchEndWith p e i line ≤ p.size
  | .malformed _ => ⟨Nat.lt_succ_self i, hi⟩
  | .last _ body => by
    have h := bodyWith_resume p hi he body
    exact skipElseWith_bounds p h.1 h.2 he _
  | .otherwise _ _ elseBody => bodyWith_resume p hi he elseBody
  | .elseIf _ _ rest => branchEndWith_bounds hi he rest

/-- One step of the search for the end of a statement. -/
def endStep (e : Nat → List Char → Nat) (i : Nat) (text : List Char) : Nat :=
  if isIf text then branchEndWith p e i (BranchLine.read text)
  else if isWhile text || isFor text then
    match header? text with
    | some (_, rest) => (bodyWith p e i rest).resume
    | none => i + 1
  else i + 1

theorem statementEnd_eq_iterate : ∀ n : Nat,
    statementEnd p n = (endStep p)^[n] (fun i _ => i + 1)
  | 0 => rfl
  | n + 1 => by
    funext i text
    rw [Function.iterate_succ_apply', ← statementEnd_eq_iterate n]
    rfl

theorem endStep_bounds (hi : i < p.size) (he : EndsBelow p i e) (text : List Char) :
    i < endStep p e i text ∧ endStep p e i text ≤ p.size := by
  unfold endStep
  split_ifs
  · exact branchEndWith_bounds p hi he _
  · split
    · exact bodyWith_resume p hi he _
    · exact ⟨Nat.lt_succ_self i, hi⟩
  · exact ⟨Nat.lt_succ_self i, hi⟩

theorem endStep_congr (hi : i < p.size) (h : ∀ j, i < j → j < p.size → e j = e' j)
    (he : EndsBelow p i e') (text : List Char) : endStep p e i text = endStep p e' i text := by
  unfold endStep
  rw [branchEndWith_congr p h fun rest => (bodyWith_resume p hi he rest).1]
  simp only [bodyWith_congr p h]

theorem endStep_descends :
    Descends (endStep p) (· < p.size) (fun i => p.size - i) (fun i r =>
      ∀ text, i < r text ∧ r text ≤ p.size) := by
  intro g g' i hi hg
  have hgg : ∀ j, i < j → j < p.size → g j = g' j := fun j hij hj =>
    (hg j hj (by dsimp only; omega)).1
  have he : EndsBelow p i g := fun j text hij hj => (hg j hj (by dsimp only; omega)).2 text
  have he' : EndsBelow p i g' := fun j text hij hj => hgg j hij hj ▸ he j text hij hj
  exact ⟨funext (endStep_congr p hi hgg he'), endStep_bounds p hi he⟩

theorem endOf_settles : Settles (endStep p) (· < p.size) (fun i => p.size - i) (endOf p) := by
  unfold endOf
  rw [statementEnd_eq_iterate]
  exact settles_iterate (endStep_descends p) (fun _ _ => by omega) _ fun _ _ => by omega

theorem endOf_below (i : Nat) : EndsBelow p i (endOf p) := fun _ text _ hj =>
  (endOf_settles p).keeps (endStep_descends p) (fun _ _ => by omega) hj text

theorem endOf_fixed (hi : i < p.size) (text : List Char) :
    endOf p i text = endStep p (endOf p) i text :=
  congrFun ((endOf_settles p).fixed (endStep_descends p) (fun _ _ => by omega) hi) text

/-- The body of a header stands below it, or on its line. -/
theorem bodyAt_resume (hi : i < p.size) (rest : List Char) :
    i < (bodyAt p i rest).resume ∧ (bodyAt p i rest).resume ≤ p.size :=
  bodyWith_resume p hi (endOf_below p i) rest

end Ends

section Chains

variable (p : Program) (depth : Nat)

/-- What holds of a chain that starts at a line: its bodies are below, and it goes on below. -/
def ChainBelow (i : Nat) (c : Chain Body) : Prop :=
  c.All (fun body => body.Below i ∧ body.resume ≤ p.size) (fun next => i < next ∧ next ≤ p.size)

theorem skipElse_bounds {i start : Nat} (hs : i < start) (hs' : start ≤ p.size) :
    i < skipElse p depth start ∧ skipElse p depth start ≤ p.size :=
  skipElseWith_bounds p hs hs' (endOf_below p i) depth

theorem Body.Below.mono {i j : Nat} (h : i ≤ j) : ∀ {body : Body}, body.Below j → body.Below i
  | .lines _, hb => Nat.lt_of_le_of_lt h hb
  | .inline _ _, _ => trivial

theorem bodyAt_below {i : Nat} (hi : i < p.size) (rest : List Char) :
    (bodyAt p i rest).Below i ∧ (bodyAt p i rest).resume ≤ p.size :=
  ⟨bodyWith_below p rest, (bodyAt_resume p hi rest).2⟩

/-- A chain asks only for the chain at one line below, the one where its last part goes on. -/
theorem chainWith_below {later later' : Nat → Chain Body} {i : Nat} (hi : i < p.size)
    (h : ∀ j, i < j → j < p.size → later j = later' j ∧ ChainBelow p j (later j)) :
    ∀ line : BranchLine, chainWith p depth later i line = chainWith p depth later' i line
      ∧ ChainBelow p i (chainWith p depth later i line)
  | .malformed _ => ⟨rfl, Nat.lt_succ_self i, hi⟩
  | .last guard rest => by
    have h1 := bodyAt_resume p hi rest
    have h2 := skipElse_bounds p depth h1.1 h1.2
    have h3 := p.le_nextCodeLine (bodyAt p i rest).resume
    have hb := bodyAt_below p hi rest
    rw [chainWith, chainWith]
    dsimp only
    split_ifs with hc he
    · simp only [Bool.and_eq_true, decide_eq_true_eq] at hc
      obtain ⟨hl, hall⟩ := h _ (by omega) hc.1.1
      rw [← hl]
      refine ⟨rfl, hb, h2, hall.imp (fun body hb => ⟨hb.1.mono (by omega), hb.2⟩) fun next hn => ?_⟩
      exact ⟨by omega, hn.2⟩
    · simp only [Bool.and_eq_true, decide_eq_true_eq] at hc
      have h4 := bodyAt_resume p hc.1.1
        (afterElse (p.line (p.nextCodeLine (bodyAt p i rest).resume)).text)
      have h5 := bodyAt_below p hc.1.1
        (afterElse (p.line (p.nextCodeLine (bodyAt p i rest).resume)).text)
      exact ⟨rfl, hb, h2, ⟨h5.1.mono (by omega), h5.2⟩, by omega, h4.2⟩
    · exact ⟨rfl, hb, h2, h1⟩
  | .otherwise guard rest elseRest =>
    have h1 := bodyAt_resume p hi elseRest
    ⟨rfl, bodyAt_below p hi rest, h1, bodyAt_below p hi elseRest, h1⟩
  | .elseIf guard rest more => by
    obtain ⟨h1, h2⟩ := chainWith_below hi h more
    rw [chainWith, chainWith, ← h1]
    exact ⟨rfl, bodyAt_below p hi rest, branchEndWith_bounds p hi (endOf_below p i) more, h2⟩

/-- One step of the reading of a chain. -/
def chainStep (later : Nat → Chain Body) (i : Nat) : Chain Body :=
  chainWith p depth later i (BranchLine.read (p.line i).text)

theorem chainFrom_eq_iterate : ∀ n : Nat,
    chainFrom p depth n = (chainStep p depth)^[n] Chain.done
  | 0 => rfl
  | n + 1 => by
    funext i
    rw [Function.iterate_succ_apply', ← chainFrom_eq_iterate n]
    rfl

theorem chainStep_descends :
    Descends (chainStep p depth) (· < p.size) (fun i => p.size - i) (ChainBelow p) :=
  fun _ _ i hi hg =>
    chainWith_below p depth hi (fun j hij hj => hg j hj (by dsimp only; omega)) _

theorem chainFrom_settles :
    Settles (chainStep p depth) (· < p.size) (fun i => p.size - i) (chainFrom p depth p.size) := by
  rw [chainFrom_eq_iterate]
  exact settles_iterate (chainStep_descends p depth) (fun _ _ => by omega) _ fun _ _ => by omega

theorem chainFrom_fixed {i : Nat} (hi : i < p.size) :
    chainFrom p depth p.size i = chainStep p depth (chainFrom p depth p.size) i :=
  (chainFrom_settles p depth).fixed (chainStep_descends p depth) (fun _ _ => by omega) hi

theorem chainAt_below {i : Nat} (h : i < p.size) : ChainBelow p i (chainAt p i) :=
  (chainFrom_settles p _).keeps (chainStep_descends p _) (fun _ _ => by omega) h

end Chains

end Braced

end Stepwise
