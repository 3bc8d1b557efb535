import Mathlib.Data.List.Forall2
import Mathlib.Order.Monotone.Basic
import Stepwise.Proofs.Tables

/-!
# Programs with the same code

Two programs have the same code when their lines with code, taken in order, have the same texts and
depths that a strictly increasing map carries into each other. Blank lines may stand anywhere. A
line is then known by its rank, the number of lines with code before it: whatever is looked for in
the one program from some rank on is found in the other one at the same rank.
-/

namespace Stepwise

open Source Text

section Recursion

variable {ι ι' β β' : Type} {step : (ι → β) → ι → β} {step' : (ι' → β') → ι' → β'}
  {dom : ι → Prop} {dom' : ι' → Prop} {depth : ι → Nat} {depth' : ι' → Nat}
  {inv : ι → β → Prop} {inv' : ι' → β' → Prop} {f : ι → β} {f' : ι' → β'}

/-- Two recursions give related results for related arguments as soon as their steps do. -/
theorem Settles.related (h : Settles step dom depth f) (hd : Descends step dom depth inv)
    (hpos : ∀ i, dom i → 0 < depth i) (h' : Settles step' dom' depth' f')
    (hd' : Descends step' dom' depth' inv') (hpos' : ∀ i, dom' i → 0 < depth' i)
    {R : ι → ι' → Prop} (hR : ∀ i i', R i i' → dom i ∧ dom' i') {S : β → β' → Prop}
    (hstep : ∀ i i', R i i' → (∀ j j', R j j' → depth j < depth i → S (f j) (f' j')) →
      S (step f i) (step' f' i')) {i : ι} {i' : ι'} (hi : R i i') : S (f i) (f' i') := by
  induction hn : depth i using Nat.strongRecOn generalizing i i' with
  | ind n ih =>
    rw [h.fixed hd hpos (hR i i' hi).1, h'.fixed hd' hpos' (hR i i' hi).2]
    exact hstep i i' hi fun j j' hj hlt => ih _ (hn ▸ hlt) hj rfl

end Recursion

namespace Source.Program

variable (p : Program)

/-- The lines with code. -/
def code : List Line := p.lines.filter (!·.blank)

/-- The number of lines with code before an index. -/
def rank (i : Nat) : Nat := ((p.lines.take i).filter (!·.blank)).length

/-- There is code on the line. -/
structure HasCode (i : Nat) : Prop where
  lt_size : i < p.size
  not_blank : (p.line i).blank = false

/-- The first index from `start` on whose line has code that does not satisfy a condition. -/
def skip (q : Line → Bool) (start : Nat) : Nat :=
  start + ((p.lines.drop start).takeWhile fun l => l.blank || q l).length

theorem blockEnd_eq_skip (start depth : Nat) :
    p.blockEnd start depth = p.skip (fun l => depth ≤ l.depth) start := rfl

theorem nextCodeLine_eq_skip (start : Nat) :
    p.nextCodeLine start = p.skip (fun _ => false) start := by
  simp only [nextCodeLine, skip, Bool.or_false]

theorem drop_rank (i : Nat) : p.code.drop (p.rank i) = (p.lines.drop i).filter (!·.blank) := by
  have hcode : p.code =
      (p.lines.take i).filter (!·.blank) ++ (p.lines.drop i).filter (!·.blank) := by
    rw [code, ← List.filter_append, List.take_append_drop]
  rw [hcode, rank, List.drop_left]

theorem rank_mono {i j : Nat} (h : i ≤ j) : p.rank i ≤ p.rank j :=
  ((List.take_prefix_take_left h).sublist.filter _).length_le

theorem rank_size : p.rank p.size = p.code.length := by
  rw [rank, size, List.take_length, code]

theorem filter_takeWhile_blank (q : Line → Bool) : ∀ ls : List Line,
    (ls.takeWhile fun l => l.blank || q l).filter (!·.blank) =
      (ls.filter (!·.blank)).takeWhile q
  | [] => rfl
  | l :: ls => by
    have ih := filter_takeWhile_blank q ls
    by_cases hb : l.blank = true
    · simp [hb, ih]
    · by_cases hq : q l = true <;> simp [hb, hq, ih]

/-- Blank lines do not count for the rank of what is found. -/
theorem rank_skip (q : Line → Bool) (start : Nat) :
    p.rank (p.skip q start) =
      p.rank start + ((p.code.drop (p.rank start)).takeWhile q).length := by
  have htake := List.prefix_iff_eq_take.1
    (List.takeWhile_prefix (l := p.lines.drop start) fun l => l.blank || q l)
  rw [p.drop_rank, ← filter_takeWhile_blank, skip, rank, List.take_add, ← htake,
    List.filter_append, List.length_append, rank]

theorem rank_nextCodeLine (start : Nat) : p.rank (p.nextCodeLine start) = p.rank start := by
  rw [nextCodeLine_eq_skip, rank_skip]
  cases p.code.drop (p.rank start) <;> rfl

variable {p} {i j : Nat}

theorem getElem?_line (h : i < p.size) : p.lines[i]? = some (p.line i) := by
  rw [line, List.getD_eq_getElem?_getD, List.getElem?_eq_getElem h]
  rfl

theorem depth_beyond (h : p.size ≤ i) : (p.line i).depth = 0 := by
  rw [line, List.getD_eq_getElem?_getD, List.getElem?_eq_none h]
  rfl

/-- A search that does not reach the end stops at a line with code that was not to be passed. -/
theorem stop_skip {q : Line → Bool} (h : p.skip q i < p.size) :
    p.HasCode (p.skip q i) ∧ q (p.line (p.skip q i)) = false := by
  have hnot := List.head?_dropWhile_not (fun l : Line => l.blank || q l) (p.lines.drop i)
  have hline : (p.lines.drop i)[((p.lines.drop i).takeWhile fun l => l.blank || q l).length]? =
      some (p.line (p.skip q i)) := by
    rw [List.getElem?_drop]
    exact getElem?_line h
  -- What is left behind the lines that were passed over starts with a line that was not.
  have hsplit : p.lines.drop i = ((p.lines.drop i).takeWhile fun l => l.blank || q l) ++
      (p.lines.drop i).dropWhile fun l => l.blank || q l :=
    (List.takeWhile_append_dropWhile).symm
  generalize (p.lines.drop i).takeWhile (fun l => l.blank || q l) = passed at hline hsplit
  rw [hsplit, List.getElem?_append_right (Nat.le_refl _), Nat.sub_self,
    ← List.head?_eq_getElem?] at hline
  rw [hline] at hnot
  exact ⟨⟨h, (Bool.or_eq_false_iff.1 hnot).1⟩, (Bool.or_eq_false_iff.1 hnot).2⟩

theorem hasCode_skip {q : Line → Bool} (h : p.skip q i < p.size) : p.HasCode (p.skip q i) :=
  (stop_skip h).1

/-- A line with code that a search passes over is one that was to be passed. -/
theorem HasCode.of_lt_skip {q : Line → Bool} (hj : p.HasCode j) (hij : i ≤ j)
    (h : j < p.skip q i) : q (p.line j) = true := by
  have hlt : j - i < ((p.lines.drop i).takeWhile fun l => l.blank || q l).length := by
    unfold skip at h
    omega
  obtain ⟨rest, hsplit⟩ := List.takeWhile_prefix (l := p.lines.drop i)
    fun l : Line => l.blank || q l
  have hget : (p.lines.drop i)[j - i]? = some (p.line j) := by
    rw [List.getElem?_drop, Nat.add_sub_cancel' hij, getElem?_line hj.lt_size]
  rw [← hsplit, List.getElem?_append_left hlt] at hget
  have hq := List.all_eq_true.1 List.all_takeWhile _ (List.mem_of_getElem? hget)
  rwa [hj.not_blank, Bool.false_or] at hq

theorem HasCode.skip_le {q : Line → Bool} (hj : p.HasCode j) (hij : i ≤ j)
    (hq : q (p.line j) = false) : p.skip q i ≤ j := by
  refine Nat.le_of_not_lt fun hlt => ?_
  rw [hj.of_lt_skip hij hlt] at hq
  cases hq

/-- A search passes over lines that are all to be passed. -/
theorem lt_skip {q : Line → Bool} (hj : j < p.size)
    (h : ∀ k, i ≤ k → k ≤ j → p.HasCode k → q (p.line k) = true) : j < p.skip q i := by
  refine Nat.lt_of_not_le fun hle => ?_
  obtain ⟨hcode, hq⟩ := stop_skip (Nat.lt_of_le_of_lt hle hj)
  have hpassed := h (p.skip q i) (Nat.le_add_right _ _) hle hcode
  rw [hpassed] at hq
  cases hq

theorem hasCode_nextCodeLine (h : p.nextCodeLine i < p.size) : p.HasCode (p.nextCodeLine i) := by
  rw [nextCodeLine_eq_skip] at h ⊢
  exact hasCode_skip h

namespace HasCode

variable (h : p.HasCode i)
include h

theorem rank_succ : p.rank (i + 1) = p.rank i + 1 := by
  rw [rank, List.take_add_one, getElem?_line h.lt_size, List.filter_append, List.length_append,
    rank]
  simp [h.not_blank]

theorem getElem?_code : p.code[p.rank i]? = some (p.line i) := by
  have hdrop : p.lines.drop i = p.line i :: p.lines.drop (i + 1) := by
    obtain ⟨hlt, hline⟩ := List.getElem?_eq_some_iff.1 (getElem?_line h.lt_size)
    rw [List.drop_eq_getElem_cons hlt, hline]
  rw [← List.head?_drop, p.drop_rank, hdrop]
  simp [h.not_blank]

theorem rank_lt (hij : i < j) : p.rank i < p.rank j := by
  have h1 := p.rank_mono (show i + 1 ≤ j from hij)
  have h2 := h.rank_succ
  omega

theorem rank_lt_iff : p.rank i < p.rank j ↔ i < j :=
  ⟨fun hlt => Nat.lt_of_not_le fun hle => Nat.not_lt_of_le (p.rank_mono hle) hlt, h.rank_lt⟩

end HasCode

theorem skip_lt_size_iff {q : Line → Bool} :
    p.skip q i < p.size ↔ p.rank (p.skip q i) < p.code.length := by
  rw [← p.rank_size]
  refine ⟨fun h => (hasCode_skip h).rank_lt h, fun h => Nat.lt_of_not_le fun hle => ?_⟩
  have := p.rank_mono hle
  omega

/-- A block that the next line with code does not belong to is empty. -/
theorem rank_blockEnd_of_shallow {depth : Nat}
    (h : (p.line (p.nextCodeLine i)).depth < depth) : p.rank (p.blockEnd i depth) = p.rank i := by
  rw [blockEnd_eq_skip, rank_skip]
  rcases hd : p.code.drop (p.rank i) with _ | ⟨l, ls⟩
  · rfl
  · have hlt : p.rank i < p.code.length := by
      have hlen := congrArg List.length hd
      rw [List.length_drop, List.length_cons] at hlen
      omega
    rw [nextCodeLine_eq_skip] at h
    rw [← p.rank_nextCodeLine, nextCodeLine_eq_skip] at hlt hd
    have hl := (hasCode_skip (skip_lt_size_iff.2 hlt)).getElem?_code
    rw [← List.head?_drop, hd, List.head?_cons, Option.some.injEq] at hl
    rw [hl, List.takeWhile_cons_of_neg (by simpa using h)]
    rfl

end Source.Program

/-- Lines with the same text, at depths that belong together. -/
def SameText (f : Nat → Nat) (l l' : Line) : Prop := l'.text = l.text ∧ l'.depth = f l.depth

/-- Two programs with the same texts of code, at depths in the same order. -/
structure SameCode (f : Nat → Nat) (p p' : Program) : Prop where
  mono : StrictMono f
  code : List.Forall₂ (SameText f) p.code p'.code
  unit_pos : 0 < p.indentUnit
  unit_pos' : 0 < p'.indentUnit
  numbered : p.Numbered
  numbered' : p'.Numbered

/-- As much code stands before the one line as before the other. -/
def SameRank (p p' : Program) (i i' : Nat) : Prop := p'.rank i' = p.rank i

/-- Lines that hold the same piece of code. -/
structure Twins (p p' : Program) (i i' : Nat) : Prop where
  here : p.HasCode i
  there : p'.HasCode i'
  rank : SameRank p p' i i'

/-- Blocks of the same code. The depth of a block without code does not matter. -/
structure SameExtent (f : Nat → Nat) (p p' : Program) (e e' : Extent) : Prop where
  start : SameRank p p' e.start e'.start
  stop : SameRank p p' e.stop e'.stop
  depth : e'.depth = f e.depth ∨ p.rank e.stop ≤ p.rank e.start

/-- Chains with the same guards, whose bodies are related by `B`. -/
inductive SameChain {β : Type} (p p' : Program) (B : β → β → Prop) : Chain β → Chain β → Prop
  | guarded {line line' : Nat} {guard : List Char} {body body' : β} {resume resume' : Thunk Nat}
      {rest rest' : Chain β} : Twins p p' line line' → B body body' →
      SameRank p p' resume.get resume'.get → SameChain p p' B rest rest' →
      SameChain p p' B (.guarded line guard body resume rest)
        (.guarded line' guard body' resume' rest')
  | otherwise {body body' : β} {resume resume' : Nat} : B body body' →
      SameRank p p' resume resume' →
      SameChain p p' B (.otherwise body resume) (.otherwise body' resume')
  | malformed {line line' : Nat} {text : List Char} : Twins p p' line line' →
      SameChain p p' B (.malformed line text) (.malformed line' text)
  | done {resume resume' : Nat} : SameRank p p' resume resume' →
      SameChain p p' B (.done resume) (.done resume')

section Searching

variable {f : Nat → Nat} {p p' : Program} {i i' : Nat}

theorem Twins.succ (t : Twins p p' i i') : SameRank p p' (i + 1) (i' + 1) := by
  have h := t.rank
  unfold SameRank at h ⊢
  rw [t.here.rank_succ, t.there.rank_succ, h]

theorem Twins.lt_iff (t : Twins p p' i i') {stop stop' : Nat} (h : SameRank p p' stop stop') :
    i' < stop' ↔ i < stop := by
  rw [← t.there.rank_lt_iff, ← t.here.rank_lt_iff, t.rank, h]

theorem length_takeWhile_of_forall₂ {α β : Type} {R : α → β → Prop} {q : α → Bool} {q' : β → Bool}
    (hq : ∀ a b, R a b → q' b = q a) {as : List α} {bs : List β} (h : List.Forall₂ R as bs) :
    (bs.takeWhile q').length = (as.takeWhile q).length := by
  induction h with
  | nil => rfl
  | @cons a b as bs hab _ ih =>
    rw [List.takeWhile_cons, List.takeWhile_cons, hq a b hab]
    split
    · rw [List.length_cons, List.length_cons, ih]
    · rfl

namespace SameCode

theorem lines_eq (h : SameCode f p p') (t : Twins p p' i i') :
    SameText f (p.line i) (p'.line i') := by
  obtain ⟨hlt, hl⟩ := List.getElem?_eq_some_iff.1 t.here.getElem?_code
  have hl' := t.there.getElem?_code
  rw [t.rank] at hl'
  obtain ⟨hlt', hl'⟩ := List.getElem?_eq_some_iff.1 hl'
  have hrel := h.code.get hlt hlt'
  rwa [List.get_eq_getElem, List.get_eq_getElem, hl, hl'] at hrel

/-- A search from lines of one rank on finds lines of one rank. -/
theorem skip (h : SameCode f p p') {q q' : Line → Bool}
    (hq : ∀ l l' : Line, l'.depth = f l.depth → q' l' = q l) (hi : SameRank p p' i i') :
    SameRank p p' (p.skip q i) (p'.skip q' i') := by
  unfold SameRank at hi ⊢
  rw [p'.rank_skip, p.rank_skip, hi,
    length_takeWhile_of_forall₂ (fun l l' hl => hq l l' hl.2) (List.forall₂_drop _ h.code)]

theorem skip_lt_iff (h : SameCode f p p') {q q' : Line → Bool}
    (hs : SameRank p p' (p.skip q i) (p'.skip q' i')) :
    p'.skip q' i' < p'.size ↔ p.skip q i < p.size := by
  rw [Program.skip_lt_size_iff, Program.skip_lt_size_iff, hs, h.code.length_eq]

theorem twins_skip (h : SameCode f p p') {q q' : Line → Bool}
    (hs : SameRank p p' (p.skip q i) (p'.skip q' i')) (hlt : p.skip q i < p.size) :
    Twins p p' (p.skip q i) (p'.skip q' i') :=
  ⟨Program.hasCode_skip hlt, Program.hasCode_skip ((h.skip_lt_iff hs).2 hlt), hs⟩

section NextCodeLine

variable (h : SameCode f p p') (hi : SameRank p p' i i')
include h hi

theorem nextCodeLine : SameRank p p' (p.nextCodeLine i) (p'.nextCodeLine i') := by
  rw [p.nextCodeLine_eq_skip, p'.nextCodeLine_eq_skip]
  exact h.skip (fun _ _ _ => rfl) hi

theorem nextCodeLine_lt_iff : p'.nextCodeLine i' < p'.size ↔ p.nextCodeLine i < p.size := by
  have hs := h.nextCodeLine hi
  rw [p.nextCodeLine_eq_skip, p'.nextCodeLine_eq_skip] at hs ⊢
  exact h.skip_lt_iff hs

theorem twins_nextCodeLine (hlt : p.nextCodeLine i < p.size) :
    Twins p p' (p.nextCodeLine i) (p'.nextCodeLine i') := by
  have hs := h.nextCodeLine hi
  rw [p.nextCodeLine_eq_skip, p'.nextCodeLine_eq_skip] at hs ⊢
  rw [p.nextCodeLine_eq_skip] at hlt
  exact h.twins_skip hs hlt

theorem blockEnd (depth : Nat) :
    SameRank p p' (p.blockEnd i depth) (p'.blockEnd i' (f depth)) :=
  h.skip (fun _ _ hl => by simp only [hl, h.mono.le_iff_le]) hi

end NextCodeLine

/-- Twins open blocks of the same code. -/
theorem body (h : SameCode f p p') (t : Twins p p' i i') :
    SameExtent f p p' (p.body i) (p'.body i') := by
  have hdeeper : (p'.line i').depth < (p'.line (p'.nextCodeLine (i' + 1))).depth ↔
      (p.line i).depth < (p.line (p.nextCodeLine (i + 1))).depth := by
    by_cases hlt : p.nextCodeLine (i + 1) < p.size
    · rw [(h.lines_eq t).2, (h.lines_eq (h.twins_nextCodeLine t.succ hlt)).2, h.mono.lt_iff_lt]
    · have hlt' := (h.nextCodeLine_lt_iff t.succ).not.2 hlt
      rw [Program.depth_beyond (Nat.le_of_not_lt hlt), Program.depth_beyond (Nat.le_of_not_lt hlt')]
      omega
  by_cases hd : (p.line i).depth < (p.line (p.nextCodeLine (i + 1))).depth
  · have hlt : p.nextCodeLine (i + 1) < p.size := by
      by_contra hge
      rw [Program.depth_beyond (Nat.le_of_not_lt hge)] at hd
      omega
    have hdepth : p'.bodyDepth i' = f (p.bodyDepth i) := by
      rw [Program.bodyDepth, Program.bodyDepth, if_pos hd, if_pos (hdeeper.2 hd)]
      exact (h.lines_eq (h.twins_nextCodeLine t.succ hlt)).2
    refine ⟨t.succ, ?_, .inl hdepth⟩
    rw [Program.body, Program.body, hdepth]
    exact h.blockEnd t.succ _
  · -- The next line with code is not deep enough for a body, whatever the indent unit is.
    have hend : p.rank (p.body i).stop = p.rank (i + 1) := by
      refine Program.rank_blockEnd_of_shallow ?_
      have := h.unit_pos
      rw [Program.bodyDepth, if_neg hd]
      omega
    have hend' : p'.rank (p'.body i').stop = p'.rank (i' + 1) := by
      refine Program.rank_blockEnd_of_shallow ?_
      have := h.unit_pos'
      have hd' := hdeeper.not.2 hd
      rw [Program.bodyDepth, if_neg hd']
      omega
    exact ⟨t.succ, hend'.trans (t.succ.trans hend.symm), .inr (Nat.le_of_eq hend)⟩

end SameCode

end Searching

namespace Indented

variable {f : Nat → Nat} {p p' : Program} (h : SameCode f p p') {i i' : Nat}
include h

theorem sameCode_codeLineAt? (hi : SameRank p p' i i') (depth : Nat) :
    Option.Rel (Twins p p') (codeLineAt? p depth i) (codeLineAt? p' (f depth) i') := by
  have hcond : p'.nextCodeLine i' < p'.size ∧ (p'.line (p'.nextCodeLine i')).depth = f depth ↔
      p.nextCodeLine i < p.size ∧ (p.line (p.nextCodeLine i)).depth = depth := by
    rw [h.nextCodeLine_lt_iff hi]
    refine and_congr_right fun hlt => ?_
    rw [(h.lines_eq (h.twins_nextCodeLine hi hlt)).2, h.mono.injective.eq_iff]
  unfold codeLineAt?
  dsimp only
  by_cases hc : p.nextCodeLine i < p.size ∧ (p.line (p.nextCodeLine i)).depth = depth
  · rw [if_pos hc, if_pos (hcond.2 hc)]
    exact .some (h.twins_nextCodeLine hi hc.1)
  · rw [if_neg hc, if_neg (hcond.not.2 hc)]
    exact .none

theorem sameCode_skipBranches (depth : Nat) (hi : SameRank p p' i i' ∧
    (0 < i ∧ i ≤ p.size) ∧ 0 < i' ∧ i' ≤ p'.size) :
    SameRank p p' (skipBranches p depth p.size i) (skipBranches p' (f depth) p'.size i') := by
  refine (skipBranches_settles p depth).related (skipStep_descends p depth) (fun _ _ => by omega)
    (skipBranches_settles p' (f depth)) (skipStep_descends p' (f depth)) (fun _ _ => by omega)
    (R := fun i i' => SameRank p p' i i' ∧ (0 < i ∧ i ≤ p.size) ∧ 0 < i' ∧ i' ≤ p'.size)
    (fun _ _ hi => hi.2) (fun i i' hi ih => ?_) hi
  have hline := sameCode_codeLineAt? h hi.1 depth
  unfold skipStep
  generalize hj : codeLineAt? p depth i = found at hline
  generalize codeLineAt? p' (f depth) i' = found' at hline
  cases hline with
  | none => exact h.nextCodeLine hi.1
  | @some j j' t =>
    dsimp only
    rw [(h.lines_eq t).1]
    split_ifs
    · have hle := (codeLineAt?_eq_some p depth hj).1
      have hb := p.body_stop j
      have hb' := p'.body_stop j'
      have hsize := p.body_stop_le t.here.lt_size
      exact ih _ _ ⟨(h.body t).stop, ⟨by omega, hsize⟩, by omega,
        p'.body_stop_le t.there.lt_size⟩ (by omega)
    · exact t.rank

/-- Twins start the same chain of branches. -/
theorem sameCode_chainFrom (depth : Nat) (t : Twins p p' i i') :
    SameChain p p' (SameExtent f p p') (chainFrom p depth p.size i)
      (chainFrom p' (f depth) p'.size i') := by
  refine (chainFrom_settles p depth).related (chainStep_descends p depth) (fun _ _ => by omega)
    (chainFrom_settles p' (f depth)) (chainStep_descends p' (f depth)) (fun _ _ => by omega)
    (fun _ _ t => ⟨t.here.lt_size, t.there.lt_size⟩) (fun i i' t ih => ?_) t
  have hb := h.body t
  unfold chainStep
  rw [(h.lines_eq t).1]
  cases branchGuard? (p.line i).text with
  | none => exact .malformed t
  | some guard =>
    have h1 := p.body_stop i
    have h1' := p'.body_stop i'
    refine .guarded t hb (sameCode_skipBranches h depth ⟨hb.stop,
      ⟨by omega, p.body_stop_le t.here.lt_size⟩, by omega, p'.body_stop_le t.there.lt_size⟩) ?_
    have hline := sameCode_codeLineAt? h hb.stop depth
    generalize hj : codeLineAt? p depth (p.body i).stop = found at hline
    generalize codeLineAt? p' (f depth) (p'.body i').stop = found' at hline
    cases hline with
    | none => exact .done hb.stop
    | @some j j' s =>
      have hle := (codeLineAt?_eq_some p depth hj).1
      have hlt := s.here.lt_size
      dsimp only
      rw [(h.lines_eq s).1]
      split_ifs
      · exact ih j j' s (by omega)
      · exact .otherwise (h.body s) (h.body s).stop
      · exact .done hb.stop

theorem sameCode_chainAt (t : Twins p p' i i') :
    SameChain p p' (SameExtent f p p') (chainAt p i) (chainAt p' i') := by
  rw [chainAt, chainAt, (h.lines_eq t).2]
  exact sameCode_chainFrom h _ t

end Indented

namespace Braced

/-- Bodies of the same code. -/
inductive SameBody (p p' : Program) : Body → Body → Prop
  | lines {e e' : Extent} : SameExtent id p p' e e' → SameBody p p' (.lines e) (.lines e')
  | inline {i i' : Nat} {texts : List (List Char)} : Twins p p' i i' →
      SameBody p p' (.inline i texts) (.inline i' texts)

variable {p p' : Program} {i i' : Nat} {e e' : Nat → List Char → Nat}

theorem SameBody.resume {body body' : Body} (h : SameBody p p' body body') :
    SameRank p p' body.resume body'.resume := by
  cases h with
  | lines h => exact h.stop
  | inline t => exact t.succ

/-- Statements of the same code below a line end at lines of one rank. -/
def SameEnds (p p' : Program) (i : Nat) (e e' : Nat → List Char → Nat) : Prop :=
  ∀ {j j' : Nat}, Twins p p' j j' → i < j → ∀ text, SameRank p p' (e j text) (e' j' text)

variable (h : SameCode id p p')
include h

theorem sameCode_bodyWith (t : Twins p p' i i') (he : SameEnds p p' i e e') (rest : List Char) :
    SameBody p p' (bodyWith p e i rest) (bodyWith p' e' i' rest) := by
  have hdepth : (p'.line i').depth = (p.line i).depth := (h.lines_eq t).2
  have hopens : (decide (p'.nextCodeLine (i' + 1) < p'.size) &&
        decide ((p'.line i').depth < (p'.line (p'.nextCodeLine (i' + 1))).depth)) =
      (decide (p.nextCodeLine (i + 1) < p.size) &&
        decide ((p.line i).depth < (p.line (p.nextCodeLine (i + 1))).depth)) := by
    simp only [h.nextCodeLine_lt_iff t.succ]
    by_cases hlt : p.nextCodeLine (i + 1) < p.size
    · rw [hdepth, (h.lines_eq (h.twins_nextCodeLine t.succ hlt)).2, id]
    · simp [hlt]
  unfold bodyWith
  dsimp only
  rw [hopens, hdepth]
  split_ifs with hnone hlt hlt' hlt' hblock
  · have s := h.twins_nextCodeLine t.succ hlt
    rw [(h.lines_eq s).1]
    exact .lines ⟨s.rank, he s (p.le_nextCodeLine (i + 1)) _, .inl rfl⟩
  · exact (hlt' ((h.nextCodeLine_lt_iff t.succ).2 hlt)).elim
  · exact (hlt ((h.nextCodeLine_lt_iff t.succ).1 hlt')).elim
  · exact .lines ⟨h.nextCodeLine t.succ, h.nextCodeLine t.succ, .inl rfl⟩
  · exact .lines ⟨t.succ, h.blockEnd t.succ _, .inl rfl⟩
  · exact .inline t

/-- An `else` of a depth comes next in both programs or in none. -/
theorem sameCode_elseFollows {start start' : Nat} (hs : SameRank p p' start start') (depth : Nat) :
    (decide (p'.nextCodeLine start' < p'.size) &&
        (p'.line (p'.nextCodeLine start')).depth == depth &&
        isElse (p'.line (p'.nextCodeLine start')).text) =
      (decide (p.nextCodeLine start < p.size) && (p.line (p.nextCodeLine start)).depth == depth &&
        isElse (p.line (p.nextCodeLine start)).text) := by
  simp only [h.nextCodeLine_lt_iff hs]
  by_cases hlt : p.nextCodeLine start < p.size
  · obtain ⟨htext, hdepth⟩ := h.lines_eq (h.twins_nextCodeLine hs hlt)
    rw [htext, hdepth, id]
  · simp [hlt]

theorem sameCode_skipElseWith {start start' : Nat} (hs : SameRank p p' start start')
    (hi : i < start) (he : SameEnds p p' i e e') (depth : Nat) :
    SameRank p p' (skipElseWith p e depth start) (skipElseWith p' e' depth start') := by
  have h1 := p.le_nextCodeLine start
  unfold skipElseWith
  dsimp only
  rw [sameCode_elseFollows h hs]
  by_cases hc : (decide (p.nextCodeLine start < p.size) &&
      (p.line (p.nextCodeLine start)).depth == depth &&
      isElse (p.line (p.nextCodeLine start)).text) = true
  · rw [if_pos hc, if_pos hc]
    simp only [Bool.and_eq_true, decide_eq_true_eq] at hc
    have t := h.twins_nextCodeLine hs hc.1.1
    rw [(h.lines_eq t).1]
    split_ifs
    · exact he t (by omega) _
    · exact h.nextCodeLine (sameCode_bodyWith h t (fun s hj => he s (by omega)) _).resume
  · rw [if_neg hc, if_neg hc]
    exact h.nextCodeLine hs

theorem sameCode_branchEndWith (t : Twins p p' i i') (he : SameEnds p p' i e e')
    (hr : ∀ rest, i < (bodyWith p e i rest).resume) : ∀ line : BranchLine,
    SameRank p p' (branchEndWith p e i line) (branchEndWith p' e' i' line)
  | .malformed _ => t.succ
  | .last _ body => by
    rw [branchEndWith, branchEndWith, (h.lines_eq t).2]
    exact sameCode_skipElseWith h (sameCode_bodyWith h t he body).resume (hr body) he _
  | .otherwise _ _ elseBody => (sameCode_bodyWith h t he elseBody).resume
  | .elseIf _ _ rest => sameCode_branchEndWith t he hr rest

/-- A statement ends at lines of one rank in both programs. -/
theorem sameCode_endOf (t : Twins p p' i i') (text : List Char) :
    SameRank p p' (endOf p i text) (endOf p' i' text) := by
  refine (endOf_settles p).related (endStep_descends p) (fun _ _ => by omega) (endOf_settles p')
    (endStep_descends p') (fun _ _ => by omega) (R := Twins p p')
    (fun _ _ t => ⟨t.here.lt_size, t.there.lt_size⟩)
    (S := fun r r' => ∀ text, SameRank p p' (r text) (r' text)) (fun i i' t ih text => ?_) t text
  have hi := t.here.lt_size
  have he : SameEnds p p' i (endOf p) (endOf p') := fun s hj => ih _ _ s (by
    have := s.here.lt_size
    omega)
  unfold endStep
  split_ifs
  · exact sameCode_branchEndWith h t he (fun rest => (bodyAt_resume p hi rest).1) _
  · split
    · exact (sameCode_bodyWith h t he _).resume
    · exact t.succ
  · exact t.succ

theorem sameCode_bodyAt (t : Twins p p' i i') (rest : List Char) :
    SameBody p p' (bodyAt p i rest) (bodyAt p' i' rest) :=
  sameCode_bodyWith h t (fun s _ => sameCode_endOf h s) rest

theorem sameCode_chainWith (depth : Nat) {later later' : Nat → Chain Body} (t : Twins p p' i i')
    (hlater : ∀ {j j' : Nat}, Twins p p' j j' → i < j →
      SameChain p p' (SameBody p p') (later j) (later' j')) : ∀ line : BranchLine,
    SameChain p p' (SameBody p p') (chainWith p depth later i line)
      (chainWith p' depth later' i' line)
  | .malformed _ => .malformed t
  | .last guard rest => by
    have hi := bodyAt_resume p t.here.lt_size rest
    have h1 := p.le_nextCodeLine (bodyAt p i rest).resume
    have hb := sameCode_bodyAt h t rest
    rw [chainWith, chainWith]
    refine .guarded t hb (sameCode_skipElseWith h hb.resume hi.1
      (fun s _ => sameCode_endOf h s) depth) ?_
    dsimp only
    rw [sameCode_elseFollows h hb.resume]
    by_cases hc : (decide (p.nextCodeLine (bodyAt p i rest).resume < p.size) &&
        (p.line (p.nextCodeLine (bodyAt p i rest).resume)).depth == depth &&
        isElse (p.line (p.nextCodeLine (bodyAt p i rest).resume)).text) = true
    · rw [if_pos hc, if_pos hc]
      simp only [Bool.and_eq_true, decide_eq_true_eq] at hc
      have s := h.twins_nextCodeLine hb.resume hc.1.1
      rw [(h.lines_eq s).1]
      split_ifs
      · exact hlater s (by omega)
      · exact .otherwise (sameCode_bodyAt h s _) (sameCode_bodyAt h s _).resume
    · rw [if_neg hc, if_neg hc]
      exact .done hb.resume
  | .otherwise guard rest elseRest =>
    have hlast := sameCode_bodyAt h t elseRest
    .guarded t (sameCode_bodyAt h t rest) hlast.resume (.otherwise hlast hlast.resume)
  | .elseIf guard rest more =>
    .guarded t (sameCode_bodyAt h t rest)
      (sameCode_branchEndWith h t (fun s _ => sameCode_endOf h s)
        (fun rest => (bodyAt_resume p t.here.lt_size rest).1) more)
      (sameCode_chainWith depth t hlater more)

/-- Twins start the same chain of branches. -/
theorem sameCode_chainAt (t : Twins p p' i i') :
    SameChain p p' (SameBody p p') (chainAt p i) (chainAt p' i') := by
  rw [chainAt, chainAt, (h.lines_eq t).2, id]
  generalize (p.line i).depth = depth
  refine (chainFrom_settles p depth).related (chainStep_descends p depth) (fun _ _ => by omega)
    (chainFrom_settles p' depth) (chainStep_descends p' depth) (fun _ _ => by omega)
    (R := Twins p p') (fun _ _ t => ⟨t.here.lt_size, t.there.lt_size⟩) (fun i i' t ih => ?_) t
  rw [chainStep, chainStep, (h.lines_eq t).1]
  refine sameCode_chainWith h depth t (fun s hj => ih _ _ s ?_) _
  have := s.here.lt_size
  omega

end Braced

section Functions

/-- Functions with the same name, parameters and code. -/
structure SameFunction (f : Nat → Nat) (p p' : Program) (d d' : FunctionDef) : Prop where
  name : d'.name = d.name
  params : d'.params = d.params
  line : Twins p p' d.headerLine d'.headerLine
  body : SameExtent f p p' d.body d'.body

theorem Source.Program.Numbered.map_number {p : Program} (hp : p.Numbered) :
    p.lines.map (·.number) = List.range p.size := by
  refine List.ext_getElem? fun i => ?_
  rw [List.getElem?_map]
  by_cases hi : i < p.size
  · rw [Program.getElem?_line hi, List.getElem?_range hi, Option.map_some,
      hp i _ (Program.getElem?_line hi)]
  · rw [List.getElem?_eq_none (Nat.le_of_not_lt hi), List.getElem?_eq_none (by simpa using hi)]
    rfl

/-- A line with code is found by its number. -/
theorem Source.Program.Numbered.of_code {p : Program} (hp : p.Numbered) {k : Nat} {l : Line}
    (hl : p.code[k]? = some l) :
    p.HasCode l.number ∧ p.line l.number = l ∧ p.rank l.number = k := by
  obtain ⟨hmem, hblank⟩ := List.mem_filter.1 (List.mem_of_getElem? hl)
  obtain ⟨i, hi⟩ := List.mem_iff_getElem?.1 hmem
  obtain rfl := hp i l hi
  have hlt : l.number < p.size := (List.getElem?_eq_some_iff.1 hi).1
  have hline : p.line l.number = l := by
    rw [Program.getElem?_line hlt] at hi
    exact Option.some.inj hi
  have hcode : p.HasCode l.number := ⟨hlt, by rw [hline]; simpa using hblank⟩
  have hnodup : (p.code.map (·.number)).Nodup := by
    refine List.Nodup.sublist (List.filter_sublist.map _) ?_
    rw [hp.map_number]
    exact List.nodup_range
  have hrank := hcode.getElem?_code
  rw [hline] at hrank
  have hk : (p.code.map (·.number))[p.rank l.number]? = (p.code.map (·.number))[k]? := by
    rw [List.getElem?_map, List.getElem?_map, hrank, hl]
  refine ⟨hcode, hline, (List.getElem?_inj ?_ hnodup).1 hk⟩
  rw [List.length_map]
  exact (List.getElem?_eq_some_iff.1 hrank).1

variable {f : Nat → Nat} {p p' : Program} (h : SameCode f p p')
include h

theorem SameCode.forall₂_twins : List.Forall₂ (fun l l' : Line => Twins p p' l.number l'.number ∧
    p.line l.number = l ∧ p'.line l'.number = l') p.code p'.code := by
  refine List.forall₂_iff_get.2 ⟨h.code.length_eq, fun k hk hk' => ?_⟩
  obtain ⟨h1, h2, h3⟩ := h.numbered.of_code (List.getElem?_eq_getElem hk)
  obtain ⟨h1', h2', h3'⟩ := h.numbered'.of_code (List.getElem?_eq_getElem hk')
  exact ⟨⟨h1, h1', h3'.trans h3.symm⟩, h2, h2'⟩

theorem sameCode_functionAt? {dialect : Dialect} (hf : dialect = .braced → f = id) {l l' : Line}
    (t : Twins p p' l.number l'.number) (hl : p.line l.number = l) (hl' : p'.line l'.number = l') :
    Option.Rel (SameFunction f p p') (functionAt? dialect p l) (functionAt? dialect p' l') := by
  have hb : l.blank = false := hl ▸ t.here.not_blank
  have hb' : l'.blank = false := hl' ▸ t.there.not_blank
  have hlines := h.lines_eq t
  rw [hl, hl'] at hlines
  cases dialect with
  | indented =>
    simp only [functionAt?, Indented.functionAt?, hb, hb', hlines.1, Bool.false_eq_true, if_false]
    cases Indented.definition? l.text with
    | none => exact .none
    | some d => exact .some ⟨rfl, rfl, t, h.body t⟩
  | braced =>
    obtain rfl := hf rfl
    have hdepth : l'.depth = l.depth := hlines.2
    simp only [functionAt?, Braced.functionAt?, hb, hb', hlines.1, hdepth, Bool.false_eq_true,
      if_false]
    cases Braced.functionHeader? l.text with
    | none => exact .none
    | some header =>
      dsimp only
      split_ifs
      · exact .none
      · exact .some ⟨rfl, rfl, t, t.succ, h.blockEnd t.succ _, .inl rfl⟩

/-- Both programs have the same functions under the same names. -/
theorem sameCode_functionTable {dialect : Dialect} (hf : dialect = .braced → f = id)
    (name : String) : Option.Rel (SameFunction f p p') ((functionTable dialect p).get? name)
      ((functionTable dialect p').get? name) := by
  have hcode : ∀ q : Program, q.lines.filterMap (functionAt? dialect q) =
      q.code.filterMap (functionAt? dialect q) := by
    intro q
    rw [Program.code, List.filterMap_filter]
    refine List.filterMap_congr fun l _ => ?_
    cases hb : l.blank with
    | false => rfl
    | true => exact functionAt?_blank hb
  rw [functionTable_eq, functionTable_eq, Table.get?_ofList, Table.get?_ofList, hcode, hcode,
    ← List.map_reverse, ← List.map_reverse]
  have hfound : List.Forall₂ (SameFunction f p p')
      (p.code.filterMap (functionAt? dialect p)).reverse
      (p'.code.filterMap (functionAt? dialect p')).reverse :=
    List.rel_reverse (List.rel_filterMap
      (fun _ _ hl => sameCode_functionAt? h hf hl.1 hl.2.1 hl.2.2) h.forall₂_twins)
  generalize (p.code.filterMap (functionAt? dialect p)).reverse = ds at hfound ⊢
  generalize (p'.code.filterMap (functionAt? dialect p')).reverse = ds' at hfound ⊢
  induction hfound with
  | nil => exact .none
  | @cons d d' ds ds' hd _ ih =>
    rw [List.map_cons, List.map_cons, List.lookup_cons, List.lookup_cons, hd.name]
    split
    · exact .some hd
    · exact ih

end Functions

end Stepwise
