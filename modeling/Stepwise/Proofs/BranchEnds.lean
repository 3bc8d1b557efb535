import Stepwise.Proofs.CodeLines
import Stepwise.Proofs.Texts

/-!
# Where branches end

A chain of branches is run from its first line on, and the end of the statement that it makes is
found without running anything, by another recursion. The two agree (`runLine_branch_resume`):
whichever guards hold, the program goes on at the first line with code behind that end. All bodies
of the chain stand above this line, and nothing but the chain does.
-/

namespace Stepwise

open Source Text

namespace Text

theorem indexOf?_append {c : Char} : ∀ {front : List Char}, c ∉ front → ∀ text : List Char,
    indexOf? [c] (front ++ text) = (indexOf? [c] text).map (· + front.length)
  | [], _, text => by simp
  | d :: front, h, text => by
    rw [List.mem_cons, not_or] at h
    rw [List.cons_append, indexOf?, if_neg (by simpa using h.1), indexOf?_append h.2]
    cases indexOf? [c] text <;> rfl

/-- A text that ends with a character other than a blank still does when it is trimmed. -/
theorem getLast?_trim_concat {z : Char} (hz : isBlank z = false) (text : List Char) :
    (trim (text ++ [z])).getLast? = some z := by
  have hleft : ∃ front, trimLeft (text ++ [z]) = front ++ [z] := by
    rw [trimLeft, List.dropWhile_append]
    split
    · exact ⟨[], List.dropWhile_cons_of_neg (by simp [hz])⟩
    · exact ⟨_, rfl⟩
  obtain ⟨front, hfront⟩ := hleft
  rw [trim, hfront, trimRight_concat hz, List.getLast?_concat]

end Text

namespace Chain

variable {β : Type}

/-- The bodies of the branches, in their order. -/
def bodies : Chain β → List β
  | guarded _ _ body _ rest => body :: rest.bodies
  | otherwise body _ => [body]
  | malformed _ _ => []
  | done _ => []

theorem All.mem {P : β → Prop} {Q : Nat → Prop} : ∀ {c : Chain β}, c.All P Q →
    ∀ body ∈ c.bodies, P body
  | guarded .., h, _, hmem => by
    rcases List.mem_cons.1 hmem with rfl | hmem
    · exact h.1
    · exact h.2.2.mem _ hmem
  | otherwise .., h, _, hmem => List.mem_singleton.1 hmem ▸ h.1

end Chain

namespace Braced

section Words

variable {text tail rest : List Char}

theorem matchParen?_append_left (front text : List Char) (first : Nat) :
    matchParen? (front ++ text) (first + front.length) =
      (matchParen? text first).map (· + front.length) := by
  have hdrop : (front ++ text).drop (first + front.length) = text.drop first := by
    rw [Nat.add_comm, List.drop_append, Nat.add_sub_cancel_left]
    simp
  rw [matchParen?, matchParen?, hdrop, closingFrom_add]

/-- What stands in front of the first parenthesis does not matter. -/
theorem header?_append_left {front : List Char} (h : '(' ∉ front) (text : List Char) :
    header? (front ++ text) = header? text := by
  rw [header?, header?, indexOf?_append h]
  rcases indexOf? ['('] text with _ | first
  · rfl
  · simp only [Option.map_some, Option.bind_eq_bind, Option.bind_some,
      matchParen?_append_left front text first]
    rcases matchParen? text first with _ | last
    · rfl
    · have hlast : last + front.length + 1 = front.length + (last + 1) := by omega
      have hfirst : first + front.length + 1 = front.length + (first + 1) := by omega
      have hdrop : ∀ n, (front ++ text).drop (front.length + n) = text.drop n := fun n => by
        simp [List.drop_append]
      have htake : ((front ++ text).take (last + front.length)).drop (front.length + (first + 1)) =
          (text.take last).drop (first + 1) := by
        rw [Nat.add_comm last, List.take_length_add_append]
        simp [List.drop_append]
      simp only [Option.map_some, Option.bind_some, hlast, hfirst, hdrop, htake]

/-- The words `else` and `else` start the text. -/
def startsElseTwice (text : List Char) : Bool :=
  ((dropKeyword? "else" text).bind dropBlanks?).any isElse

theorem dropWord?_eq_some {word : String} (h : dropWord? word text = some rest) :
    text = word.toList ++ rest := by
  rw [dropWord?] at h
  split at h
  · rename_i hw
    obtain ⟨more, rfl⟩ := List.isPrefixOf_iff_prefix.1 hw
    rw [← Option.some.inj h, ← String.length_toList, List.drop_left]
  · cases h

/-- What follows the blanks behind an `else` is what follows the word. -/
theorem afterElse_blanks (htrim : trim text = text) (h : dropWord? "else" text = some rest)
    (hb : dropBlanks? rest = some tail) :
    afterElse text = tail ∧ ∃ front, text = front ++ tail ∧ '(' ∉ front := by
  have htext := dropWord?_eq_some h
  have hdrop : text.drop 4 = rest := by rw [htext]; rfl
  rcases rest with _ | ⟨c, rest⟩
  · cases hb
  rw [dropBlanks?] at hb
  split at hb
  · rename_i hc
    obtain rfl := Option.some.inj hb
    have hsplit : rest.takeWhile isBlank ++ trimLeft rest = rest := List.takeWhile_append_dropWhile
    have hblank : ∀ d ∈ rest.takeWhile isBlank, isBlank d = true :=
      List.all_eq_true.1 List.all_takeWhile
    have hfront : text = ("else".toList ++ c :: rest.takeWhile isBlank) ++ trimLeft rest := by
      rw [List.append_assoc, List.cons_append, hsplit, htext]
    refine ⟨?_, _, hfront, ?_⟩
    · -- The text is trimmed, so nothing is cut off at its end.
      rw [afterElse, hdrop, trim_cons_blank hc]
      rcases ht : trimLeft rest with _ | ⟨d, more⟩
      · rw [trim, ht]
        rfl
      · have hd : isBlank d = false := by
          have hnot := List.head?_dropWhile_not isBlank rest
          rw [← trimLeft, ht] at hnot
          simpa using hnot
        rw [ht] at hfront
        rw [hfront] at htrim
        have htail := trim_of_append htrim hd
        rw [trim, trimLeft_cons hd] at htail
        rw [trim, ht, htail]
    · simp only [List.mem_append, List.mem_cons, not_or]
      refine ⟨by decide, ?_, fun hmem => ?_⟩
      · rintro rfl
        cases hc
      · cases hblank _ hmem
  · cases hb

/-- An `else if` is read like the `if` behind its `else`. -/
theorem header?_afterElse (htrim : trim text = text) (h : isElseIf text = true) :
    header? (afterElse text) = header? text ∧ isIf (afterElse text) = true := by
  rw [isElseIf] at h
  rcases hw : dropWord? "else" text with _ | rest
  · rw [hw] at h
    cases h
  rcases hb : dropBlanks? rest with _ | tail
  · rw [hw, Option.bind_some, hb] at h
    cases h
  obtain ⟨hafter, front, htext, hfront⟩ := afterElse_blanks htrim hw hb
  rw [hw, Option.bind_some, hb, Option.any_some] at h
  refine ⟨?_, ?_⟩
  · rw [hafter, htext, header?_append_left hfront]
  · rw [hafter, isIf, h, Bool.or_true]

/-- An `else` that no `if` follows is followed by one behind a second `else` only. -/
theorem isIf_afterElse (htrim : trim text = text) (helse : isElse text = true)
    (hnot : isElseIf text = false) (htwice : startsElseTwice text = false) :
    isIf (afterElse text) = false := by
  rw [isElse, dropKeyword?] at helse
  rw [startsElseTwice, dropKeyword?] at htwice
  rw [isElseIf] at hnot
  rcases hw : dropWord? "else" text with _ | rest
  · rw [hw] at helse
    cases helse
  rw [hw, Option.isSome_filter, Option.any_some] at helse
  rw [hw, Option.filter_some, if_pos helse, Option.bind_some] at htwice
  rw [hw, Option.bind_some] at hnot
  rcases hb : dropBlanks? rest with _ | tail
  · -- What follows the word directly is no word, so neither `if` nor `else`.
    have htext := dropWord?_eq_some hw
    have hdrop : text.drop 4 = rest := by rw [htext]; rfl
    rw [afterElse, hdrop]
    rcases rest with _ | ⟨c, rest⟩
    · rfl
    · have hword : isWord c = false := by simpa [atBoundary] using helse
      have hblank : isBlank c = false := by
        rw [dropBlanks?] at hb
        split at hb
        · cases hb
        · rename_i hc
          simpa using hc
      rw [htext] at htrim
      rw [trim_of_append htrim hblank]
      have hne : ∀ d, isWord d = true → (d == c) = false := by
        rintro d hd
        refine beq_false_of_ne ?_
        rintro rfl
        rw [hword] at hd
        cases hd
      have hi : ('i' == c) = false := hne 'i' (by decide)
      have he : ('e' == c) = false := hne 'e' (by decide)
      simp [isIf, isElseIf, opensWith, dropWord?, List.isPrefixOf, hi, he]
  · obtain ⟨hafter, -⟩ := afterElse_blanks htrim hw hb
    rw [hb, Option.any_some] at hnot htwice
    rw [hafter, isIf, hnot, Bool.or_false, isElseIf]
    rw [isElse, dropKeyword?] at htwice
    rcases hw' : dropWord? "else" tail with _ | rest'
    · rfl
    · rw [hw', Option.isSome_filter, Option.any_some] at htwice
      rcases rest' with _ | ⟨c, rest'⟩
      · cases htwice
      · have hword : isWord c = true := by simpa [atBoundary] using htwice
        have hblank : isBlank c = false := by
          by_contra hc
          rw [isWord_of_isBlank (by simpa using hc)] at hword
          cases hword
        rw [Option.bind_some, dropBlanks?, hblank]
        rfl

end Words

section OneLine

theorem read_fixed (text : List Char) : BranchLine.read text = readStep BranchLine.read text :=
  read_settles.fixed readStep_descends (fun _ _ => Nat.succ_pos _) trivial

/-- What stands in front of an `else` on its line is neither nothing nor a lone brace. -/
def BranchLine.FrontsWritten : BranchLine → Prop
  | .malformed _ => True
  | .last _ _ => True
  | .otherwise _ body _ => body ≠ [] ∧ body ≠ ['\x7b']
  | .elseIf _ body rest => (body ≠ [] ∧ body ≠ ['\x7b']) ∧ rest.FrontsWritten

theorem written_of_splitElseFrom : ∀ {text : List Char} {s : Nesting} {front body tail : List Char},
    splitElseFrom s front text = some (body, tail) → body ≠ [] ∧ body ≠ ['\x7b']
  | [], _, _, _, _, h => by cases h
  | c :: rest, s, front, body, tail, h => by
    rw [splitElseFrom] at h
    split_ifs at h with hcut
    · obtain ⟨rfl, -⟩ := Prod.mk.inj (Option.some.inj h)
      simp only [Bool.and_eq_true, Bool.or_eq_true, beq_iff_eq] at hcut
      have hlast : ∀ z, isBlank z = false → z ≠ '\x7b' →
          trim (z :: front).reverse ≠ [] ∧ trim (z :: front).reverse ≠ ['\x7b'] := by
        intro z hz hbrace
        have hget := getLast?_trim_concat hz front.reverse
        rw [← List.reverse_cons] at hget
        refine ⟨fun hnil => ?_, fun hone => ?_⟩
        · rw [hnil] at hget
          cases hget
        · rw [hone] at hget
          exact hbrace (Option.some.inj hget).symm
      rcases hcut.1.2 with rfl | rfl
      · exact hlast ';' (by decide) (by decide)
      · exact hlast '\x7d' (by decide) (by decide)
    · exact written_of_splitElseFrom h

/-- What stands in front of an `else` on its line is written, so it is a body. -/
theorem frontsWritten_read (text : List Char) : (BranchLine.read text).FrontsWritten := by
  induction hn : text.length using Nat.strongRecOn generalizing text with
  | ind n ih =>
    rw [read_fixed, readStep]
    split
    · trivial
    · rename_i guard rest hheader
      split
      · trivial
      · rename_i body tail hsplit
        have hlt := length_header? hheader
        have hlt' := length_splitElseFrom rest hsplit
        have hwritten := written_of_splitElseFrom hsplit
        split
        · exact ⟨hwritten, ih tail.length (by omega) tail rfl⟩
        · exact hwritten

end OneLine

section Ends

/-- The line belongs to the body. -/
def Body.Holds (k : Nat) : Body → Prop
  | .lines extent => extent.start ≤ k ∧ k < extent.stop
  | .inline header _ => k = header

variable {p : Program} {i k : Nat}

theorem nextCodeLine_of_hasCode (h : p.HasCode i) : p.nextCodeLine i = i := by
  have hle : p.skip (fun _ => false) i ≤ i := h.skip_le (Nat.le_refl i) rfl
  rw [← p.nextCodeLine_eq_skip] at hle
  exact Nat.le_antisymm hle (p.le_nextCodeLine i)

theorem nextCodeLine_nextCodeLine (p : Program) (start : Nat) :
    p.nextCodeLine (p.nextCodeLine start) = p.nextCodeLine start := by
  by_cases h : p.nextCodeLine start < p.size
  · exact nextCodeLine_of_hasCode (Program.hasCode_nextCodeLine h)
  · have hnil : p.lines.drop (p.nextCodeLine start) = [] :=
      List.drop_eq_nil_of_le (Nat.le_of_not_lt h)
    conv_lhs => rw [Program.nextCodeLine, hnil]
    rfl

theorem nextCodeLine_le_of_hasCode (h : p.HasCode k) (hik : i ≤ k) : p.nextCodeLine i ≤ k := by
  rw [p.nextCodeLine_eq_skip]
  exact h.skip_le hik rfl

theorem lt_of_lt_nextCodeLine (h : p.HasCode k) (hlt : k < p.nextCodeLine i) : k < i :=
  Nat.lt_of_not_le fun hle => Nat.not_lt_of_le (nextCodeLine_le_of_hasCode h hle) hlt

/-- The code between a head and the line behind its body belongs to the body. -/
theorem holds_bodyAt {rest : List Char} (h : p.HasCode k) (hik : i < k)
    (hlt : k < (bodyAt p i rest).resume) : (bodyAt p i rest).Holds k := by
  have hnext := nextCodeLine_le_of_hasCode (i := i + 1) h hik
  unfold bodyAt bodyWith at hlt ⊢
  dsimp only at hlt ⊢
  split_ifs at hlt ⊢
  · exact ⟨hnext, hlt⟩
  · exact ⟨hnext, hlt⟩
  · exact ⟨hik, hlt⟩
  · rw [Body.resume] at hlt
    omega

theorem resume_of_written {rest : List Char} (h : rest ≠ [] ∧ rest ≠ ['\x7b']) :
    (bodyAt p i rest).resume = i + 1 := by
  unfold bodyAt bodyWith
  simp [h.1, h.2, Body.resume]

theorem le_skipElse {start : Nat} (h : start ≤ p.size) (depth : Nat) :
    start ≤ skipElse p depth start := by
  cases start with
  | zero => exact Nat.zero_le _
  | succ start => exact (skipElse_bounds p depth (Nat.lt_succ_self start) h).1

theorem endOf_of_isIf {text : List Char} (hi : i < p.size) (h : isIf text = true) :
    endOf p i text = branchEnd p i (BranchLine.read text) := by
  rw [endOf_fixed p hi, endStep, if_pos h]
  rfl

/-- A line that starts with `else if` ends where the `if` behind the `else` does. -/
theorem branchEnd_afterElse {text : List Char} (htrim : trim text = text)
    (h : isElseIf text = true) :
    branchEnd p i (BranchLine.read (afterElse text)) = branchEnd p i (BranchLine.read text) := by
  rw [read_fixed, read_fixed text, readStep, readStep, (header?_afterElse htrim h).1]
  cases header? text <;> rfl

end Ends

section Chains

/-- The texts of the lines are trimmed, and none starts with `else` twice. -/
structure Readable (p : Program) : Prop where
  trimmed : ∀ i, trim (p.line i).text = (p.line i).text
  elseOnce : ∀ i, startsElseTwice (p.line i).text = false

/-- A chain that starts at line `i` takes up the lines with code up to `stop`, where the program
goes on behind it: those of its bodies, and those with an `else` of the depth. -/
structure Spans (p : Program) (depth i stop : Nat) (c : Chain Body) : Prop where
  resumes : c.All (·.resume ≤ stop) (fun next => p.nextCodeLine next = stop)
  covers : ∀ k, p.HasCode k → i < k → k < stop → (∃ body ∈ c.bodies, body.Holds k) ∨
    (p.line k).depth = depth ∧ isElse (p.line k).text = true

variable {p : Program} {depth i : Nat}

/-- What is left of a chain behind a body. -/
theorem Spans.guarded {stop line : Nat} {guard rest : List Char} {resume : Thunk Nat}
    {c : Chain Body} (hstop : (bodyAt p i rest).resume ≤ stop)
    (hresume : p.nextCodeLine resume.get = stop)
    (hall : c.All (·.resume ≤ stop) (fun next => p.nextCodeLine next = stop))
    (hcovers : ∀ k, p.HasCode k → p.nextCodeLine (bodyAt p i rest).resume ≤ k → k < stop →
      (∃ body ∈ c.bodies, body.Holds k) ∨
        (p.line k).depth = depth ∧ isElse (p.line k).text = true) :
    Spans p depth i stop (.guarded line guard (bodyAt p i rest) resume c) := by
  refine ⟨⟨hstop, hresume, hall⟩, fun k hk hik hlt => ?_⟩
  by_cases hbody : k < (bodyAt p i rest).resume
  · exact .inl ⟨_, List.mem_cons_self, holds_bodyAt hk hik hbody⟩
  · refine (hcovers k hk (nextCodeLine_le_of_hasCode hk (Nat.le_of_not_lt hbody)) hlt).imp_left ?_
    rintro ⟨body, hmem, hholds⟩
    exact ⟨body, List.mem_cons_of_mem _ hmem, hholds⟩

/-- An `else` of the depth is the next code from a line on. -/
structure ElseFollows (p : Program) (depth start : Nat) : Prop where
  exists_code : p.nextCodeLine start < p.size
  depth_eq : (p.line (p.nextCodeLine start)).depth = depth
  isElse : isElse (p.line (p.nextCodeLine start)).text = true

theorem elseFollows_iff {start : Nat} : (decide (p.nextCodeLine start < p.size) &&
      (p.line (p.nextCodeLine start)).depth == depth &&
      isElse (p.line (p.nextCodeLine start)).text) = true ↔ ElseFollows p depth start := by
  simp only [Bool.and_eq_true, decide_eq_true_eq, beq_iff_eq]
  exact ⟨fun ⟨⟨h1, h2⟩, h3⟩ => ⟨h1, h2, h3⟩, fun ⟨h1, h2, h3⟩ => ⟨⟨h1, h2⟩, h3⟩⟩

theorem skipElse_of_not {start : Nat} (h : ¬ ElseFollows p depth start) :
    skipElse p depth start = p.nextCodeLine start :=
  if_neg (elseFollows_iff.not.2 h)

theorem skipElse_of_elseIf (hp : Readable p) {start : Nat} (h : ElseFollows p depth start)
    (hif : isElseIf (p.line (p.nextCodeLine start)).text = true) :
    skipElse p depth start = branchEnd p (p.nextCodeLine start)
      (BranchLine.read (p.line (p.nextCodeLine start)).text) := by
  have htail := (header?_afterElse (hp.trimmed _) hif).2
  rw [skipElse, skipElseWith, if_pos (elseFollows_iff.2 h), if_pos htail,
    endOf_of_isIf h.exists_code htail, branchEnd_afterElse (hp.trimmed _) hif]

theorem skipElse_of_else (hp : Readable p) {start : Nat} (h : ElseFollows p depth start)
    (hif : isElseIf (p.line (p.nextCodeLine start)).text = false) :
    skipElse p depth start = p.nextCodeLine (bodyAt p (p.nextCodeLine start)
      (afterElse (p.line (p.nextCodeLine start)).text)).resume := by
  have htail := isIf_afterElse (hp.trimmed _) h.isElse hif (hp.elseOnce _)
  rw [skipElse, skipElseWith, if_pos (elseFollows_iff.2 h), if_neg (by simp [htail])]
  rfl

/-- The part of a chain on one line and the branches below it span the statement. -/
theorem chainWith_spans (hp : Readable p) (hi : i < p.size) (hdepth : (p.line i).depth = depth)
    {later : Nat → Chain Body} (hlater : ∀ j, i < j → j < p.size → (p.line j).depth = depth →
      Spans p depth j (p.nextCodeLine (branchEnd p j (BranchLine.read (p.line j).text)))
        (later j)) :
    ∀ line : BranchLine, line.FrontsWritten →
      Spans p depth i (p.nextCodeLine (branchEnd p i line)) (chainWith p depth later i line)
  | .malformed text, _ => by
    refine ⟨rfl, fun k hk hik hlt => ?_⟩
    have hki : k < i + 1 := lt_of_lt_nextCodeLine hk hlt
    omega
  | .last guard rest, _ => by
    obtain ⟨hlow, hhigh⟩ := bodyAt_resume p hi rest
    have hend : branchEnd p i (.last guard rest) = skipElse p depth (bodyAt p i rest).resume := by
      rw [← hdepth]
      rfl
    have hstop := Nat.le_trans (le_skipElse hhigh depth)
      (p.le_nextCodeLine (skipElse p depth (bodyAt p i rest).resume))
    have hbelow := p.le_nextCodeLine (bodyAt p i rest).resume
    rw [chainWith, hend]
    dsimp only
    by_cases helse : ElseFollows p depth (bodyAt p i rest).resume
    · rw [if_pos (elseFollows_iff.2 helse)]
      cases hif : isElseIf (p.line (p.nextCodeLine (bodyAt p i rest).resume)).text with
      | true =>
        have ih := hlater _ (by omega) helse.exists_code helse.depth_eq
        rw [← skipElse_of_elseIf hp helse hif] at ih
        rw [if_pos rfl]
        refine .guarded hstop rfl ih.resumes fun k hk hle hlt => ?_
        rcases Nat.eq_or_lt_of_le hle with rfl | hgt
        · exact .inr ⟨helse.depth_eq, helse.isElse⟩
        · exact ih.covers k hk hgt hlt
      | false =>
        have hskip := skipElse_of_else hp helse hif
        rw [if_neg Bool.false_ne_true]
        rw [hskip, nextCodeLine_nextCodeLine] at hstop ⊢
        refine .guarded hstop ?_ ⟨p.le_nextCodeLine _, rfl⟩ fun k hk hle hlt => ?_
        · exact nextCodeLine_nextCodeLine p _
        rcases Nat.eq_or_lt_of_le hle with rfl | hgt
        · exact .inr ⟨helse.depth_eq, helse.isElse⟩
        · exact .inl ⟨_, List.mem_singleton_self _,
            holds_bodyAt hk hgt (lt_of_lt_nextCodeLine hk hlt)⟩
    · have hskip := skipElse_of_not helse
      rw [if_neg (elseFollows_iff.not.2 helse)]
      rw [hskip, nextCodeLine_nextCodeLine] at hstop ⊢
      refine .guarded hstop ?_ rfl fun k hk hle hlt => absurd hlt (Nat.not_lt_of_le hle)
      exact nextCodeLine_nextCodeLine p _
  | .otherwise guard rest elseRest, hwritten => by
    have hend : branchEnd p i (.otherwise guard rest elseRest) = (bodyAt p i elseRest).resume := rfl
    have hstop := p.le_nextCodeLine (bodyAt p i elseRest).resume
    have hlow := (bodyAt_resume p hi elseRest).1
    have hresume : (bodyAt p i rest).resume = i + 1 := resume_of_written hwritten
    rw [chainWith, hend]
    refine .guarded (by omega) rfl ⟨hstop, rfl⟩ fun k hk hle hlt => .inl ?_
    have hik := p.le_nextCodeLine (bodyAt p i rest).resume
    exact ⟨_, List.mem_singleton_self _,
      holds_bodyAt hk (by omega) (lt_of_lt_nextCodeLine hk hlt)⟩
  | .elseIf guard rest more, ⟨hwritten, hmore⟩ => by
    have ih := chainWith_spans hp hi hdepth hlater more hmore
    have hend : branchEnd p i (.elseIf guard rest more) = branchEnd p i more := rfl
    have hstop := p.le_nextCodeLine (branchEnd p i more)
    have hlow : i < branchEnd p i more := (branchEndWith_bounds p hi (endOf_below p i) more).1
    have hresume : (bodyAt p i rest).resume = i + 1 := resume_of_written hwritten
    rw [chainWith, hend]
    refine .guarded (by omega) rfl ih.resumes fun k hk hle hlt => ?_
    have hik := p.le_nextCodeLine (bodyAt p i rest).resume
    exact ih.covers k hk (by omega) hlt

theorem chainFrom_spans (hp : Readable p) (depth : Nat) : ∀ (i : Nat), i < p.size →
    (p.line i).depth = depth →
      Spans p depth i (p.nextCodeLine (branchEnd p i (BranchLine.read (p.line i).text)))
        (chainFrom p depth p.size i) := by
  intro i
  induction hn : p.size - i using Nat.strongRecOn generalizing i with
  | ind n ih =>
    intro hi hdepth
    rw [chainFrom_fixed p depth hi, chainStep]
    refine chainWith_spans hp hi hdepth (fun j hij hj => ih (p.size - j) (by omega) j rfl hj) _
      (frontsWritten_read _)

/-- A chain of branches spans the statement that starts at its line. -/
theorem chainAt_spans (hp : Readable p) (hi : i < p.size) (hif : isIf (p.line i).text = true) :
    Spans p (p.line i).depth i (p.nextCodeLine (endOf p i (p.line i).text)) (chainAt p i) := by
  rw [endOf_of_isIf hi hif]
  exact chainFrom_spans hp _ i hi rfl

end Chains

section Runs

theorem trim_bracedLines : ∀ (raws : List (List Char)) (number openBraces : Nat),
    ∀ l ∈ bracedLines number openBraces raws, trim l.text = l.text
  | [], _, _, _, hl => by cases hl
  | raw :: raws, number, openBraces, l, hl => by
    rw [bracedLines] at hl
    rcases List.mem_cons.1 hl with rfl | hl
    · dsimp only
      split_ifs
      · rfl
      · exact trim_trim _
    · exact trim_bracedLines raws _ _ l hl

/-- The lines of a layout are trimmed, so only a doubled `else` has to be excluded. -/
theorem readable_layout {source : List Char}
    (h : ∀ l ∈ (layout .braced source).lines, startsElseTwice l.text = false) :
    Readable (layout .braced source) := by
  have hline : ∀ i, (layout .braced source).line i ∈ (layout .braced source).lines ∨
      ((layout .braced source).line i).text = [] := by
    intro i
    rw [Program.line, List.getD_eq_getElem?_getD]
    rcases hl : (layout .braced source).lines[i]? with _ | l
    · exact .inr rfl
    · exact .inl (List.mem_of_getElem? hl)
  refine ⟨fun i => ?_, fun i => ?_⟩ <;> rcases hline i with hmem | hnil
  · exact trim_bracedLines _ _ _ _ hmem
  · rw [hnil]
    rfl
  · exact h _ hmem
  · rw [hnil]
    rfl

theorem shape_of_isIf {text : List Char} (h : isIf text = true) : shape text = .branch := by
  have hnone : functionHeader? text = none := by
    rw [isIf, isElseIf, opensWith] at h
    rcases Bool.or_eq_true_iff.1 h with h | h
    · rcases hw : dropWord? "else" text with _ | rest
      · rw [hw] at h
        cases h
      · rw [dropWord?_eq_some hw]
        rfl
    · rcases hw : dropWord? "if" text with _ | rest
      · rw [hw] at h
        cases h
      · rw [dropWord?_eq_some hw]
        rfl
  rw [shape, hnone, h]
  rfl

/-- Whichever guards hold, a chain of branches that does not return goes on at the first line with
code behind the end of its statement. All its bodies stand above that line, and every line with
code in between belongs to one of them or is an `else` of the chain. -/
theorem runLine_branch_resume {source : String} {i next : Nat} {host : Host}
    {run : Extent → Block} {scope scope' : Scope} {m m' : Machine} :
    let p := layout .braced source.toList
    (∀ l ∈ p.lines, startsElseTwice l.text = false) → i < p.size → isIf (p.line i).text = true →
    (runLine host p run i scope).outcome m = (.ok (next, { scope := scope' }), m') →
    let stop := p.nextCodeLine (endOf p i (p.line i).text)
    p.nextCodeLine next = stop ∧ (∀ body ∈ (chainAt p i).bodies, body.resume ≤ stop) ∧
      ∀ k, p.HasCode k → i < k → k < stop → (∃ body ∈ (chainAt p i).bodies, body.Holds k) ∨
        (p.line k).depth = (p.line i).depth ∧ isElse (p.line k).text = true := by
  intro p hlines hi hif hrun stop
  have hspans := chainAt_spans (readable_layout hlines) hi hif
  have hchain : runLine host p run i scope =
      (chainAt p i).run host (runBody host run) (statements host) scope := by
    unfold runLine
    dsimp only
    rw [shape_of_isIf hif]
  rw [hchain] at hrun
  exact ⟨hspans.resumes.resume ⟨m, m', hrun⟩, hspans.resumes.mem, hspans.covers⟩

/-- A branch on one line, one with a body on the next line, one in braces and one with a loop. -/
def mixedBranches : String :=
  "if (0) x = 1; else if (0)\ny = 2;\nelse if (1) \x7b\nz = 3;\n\x7d\nelse\nwhile (1) w = 4;\nv = 5;"

theorem runLine_branch_resume_mixed :
    let p := layout .braced mixedBranches.toList
    let host := hostOf .braced runLine p {}
    (∀ l ∈ p.lines, startsElseTwice l.text = false) ∧ isIf (p.line 0).text = true ∧
    ∃ next scope' m', (runLine host p (runBlock p (runLine host p) p.size) 0 Table.empty).outcome {}
        = (.ok (next, { scope := scope' }), m') ∧
      p.nextCodeLine next = 7 := by
  intro p host
  let outcome := (runLine host p (runBlock p (runLine host p) p.size) 0 Table.empty).outcome {}
  have hall : (p.lines.all (fun l => !startsElseTwice l.text) && (decide (0 < p.size) &&
      (isIf (p.line 0).text && (p.nextCodeLine (endOf p 0 (p.line 0).text) == 7 &&
        outcome.1.toOption.any (·.2.returned.isNone))))) = true := by decide +kernel
  simp only [Bool.and_eq_true, beq_iff_eq, decide_eq_true_eq, List.all_eq_true,
    Bool.not_eq_true'] at hall
  obtain ⟨hlines, hsize, hif, hend, hreturned⟩ := hall
  rcases ho : outcome with ⟨fault | ⟨next, scope', returned⟩, m'⟩ <;> rw [ho] at hreturned
  · cases hreturned
  · obtain rfl : returned = none := Option.isNone_iff_eq_none.1 hreturned
    exact ⟨hlines, hif, next, scope', m', ho,
      (runLine_branch_resume hlines hsize hif ho).1.trans hend⟩

end Runs

end Braced

end Stepwise
