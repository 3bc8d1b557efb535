import Stepwise.Proofs.CodeLines
import Stepwise.Proofs.LineRuns

/-!
# Heads without their brace

A head of the braced dialect that nothing follows on its line opens the block below it if the next
line with code is deeper, just as a head does that ends with a brace. So a program runs the same
when the braces at the ends of such heads are left out (`Reopened.runProgram_eq`): the bodies,
branches and functions that are found are the same ones.
-/

namespace Stepwise.Braced

open Text Source

/-- What opens a body at the end of a head. -/
def openingMark : List Char := [' ', '\x7b']

section Words

variable {text rest : List Char}

theorem dropWord?_mark {word : String} (h : ' ' ∉ word.toList) :
    dropWord? word (text ++ openingMark) = (dropWord? word text).map (· ++ openingMark) := by
  have hstarts : word.toList <+: text ++ openingMark ↔ word.toList <+: text := by
    refine ⟨fun hw => ?_, fun hw => hw.trans (List.prefix_append _ _)⟩
    rcases List.prefix_or_prefix_of_prefix hw (List.prefix_append _ _) with hle | ⟨more, hmore⟩
    · exact hle
    · rw [← hmore, List.prefix_append_right_inj] at hw
      rcases more with _ | ⟨c, more⟩
      · exact ⟨[], by rw [List.append_nil, ← hmore, List.append_nil]⟩
      · obtain ⟨rfl, -⟩ := List.cons_prefix_cons.1 hw
        exact absurd (hmore ▸ List.mem_append_right _ List.mem_cons_self) h
  rw [dropWord?, dropWord?]
  by_cases hw : word.toList <+: text
  · rw [if_pos (List.isPrefixOf_iff_prefix.2 (hstarts.2 hw)),
      if_pos (List.isPrefixOf_iff_prefix.2 hw), List.drop_append_of_le_length]
    · rfl
    · exact hw.length_le
  · rw [if_neg (fun hp => hw (hstarts.1 (List.isPrefixOf_iff_prefix.1 hp))),
      if_neg (fun hp => hw (List.isPrefixOf_iff_prefix.1 hp))]
    rfl

theorem dropOneOf?_mark {words : List String} (h : ∀ w ∈ words, ' ' ∉ w.toList) :
    dropOneOf? words (text ++ openingMark) = (dropOneOf? words text).map (· ++ openingMark) := by
  induction words with
  | nil => rfl
  | cons w words ih =>
    obtain ⟨hw, hwords⟩ := List.forall_mem_cons.1 h
    rw [dropOneOf?] at ih ⊢
    rw [dropOneOf?, List.findSome?_cons, List.findSome?_cons, dropWord?_mark hw]
    cases dropWord? w text with
    | none => exact ih hwords
    | some rest => rfl

/-- Where nothing but blanks is left, the mark comes next. -/
theorem trimLeft_mark (text : List Char) : trimLeft text = [] ∧
    trimLeft (text ++ openingMark) = ['\x7b'] ∨
      trimLeft text ≠ [] ∧ trimLeft (text ++ openingMark) = trimLeft text ++ openingMark := by
  simp only [trimLeft, List.dropWhile_append]
  rcases h : text.dropWhile isBlank with _ | ⟨c, rest⟩
  · exact .inl ⟨rfl, rfl⟩
  · exact .inr ⟨List.cons_ne_nil _ _, rfl⟩

theorem dropBlanks?_mark (text : List Char) :
    (dropBlanks? text = none ∨ dropBlanks? text = some []) ∧
      dropBlanks? (text ++ openingMark) = some ['\x7b'] ∨
    dropBlanks? (text ++ openingMark) = (dropBlanks? text).map (· ++ openingMark) := by
  rcases text with _ | ⟨c, text⟩
  · exact .inl ⟨.inl rfl, rfl⟩
  · rw [List.cons_append, dropBlanks?, dropBlanks?]
    cases isBlank c with
    | false => exact .inr rfl
    | true =>
      rcases trimLeft_mark text with ⟨h, h'⟩ | ⟨-, h'⟩
      · exact .inl ⟨.inr (congrArg some h), congrArg some h'⟩
      · exact .inr (congrArg some h')

theorem opensWith_mark {keyword : String} (h : ' ' ∉ keyword.toList) :
    opensWith keyword (text ++ openingMark) = opensWith keyword text := by
  rw [opensWith, opensWith, dropWord?_mark h]
  cases dropWord? keyword text with
  | none => rfl
  | some rest =>
    simp only [Option.map_some, Option.any_some]
    rcases trimLeft_mark rest with ⟨h, h'⟩ | ⟨h, h'⟩
    · rw [h, h']
      rfl
    · rw [h']
      obtain ⟨c, more, hmore⟩ := List.exists_cons_of_ne_nil h
      rw [hmore]
      rfl

theorem isElseIf_mark : isElseIf (text ++ openingMark) = isElseIf text := by
  rw [isElseIf, isElseIf, dropWord?_mark (by decide)]
  cases dropWord? "else" text with
  | none => rfl
  | some rest =>
    simp only [Option.map_some, Option.bind_some]
    rcases dropBlanks?_mark rest with ⟨h | h, h'⟩ | h'
    · rw [h, h']
      rfl
    · rw [h, h']
      rfl
    · rw [h']
      cases dropBlanks? rest with
      | none => rfl
      | some rest => exact opensWith_mark (by decide)

theorem isIf_mark : isIf (text ++ openingMark) = isIf text := by
  rw [isIf, isIf, isElseIf_mark, opensWith_mark (by decide)]

theorem isWhile_mark : isWhile (text ++ openingMark) = isWhile text := opensWith_mark (by decide)

theorem isFor_mark : isFor (text ++ openingMark) = isFor text := opensWith_mark (by decide)

theorem isElse_mark : isElse (text ++ openingMark) = isElse text := by
  rw [isElse, isElse, dropKeyword?, dropKeyword?, dropWord?_mark (by decide)]
  rcases dropWord? "else" text with _ | _ | ⟨c, rest⟩
  · rfl
  · rfl
  · cases hc : isWord c <;> simp [atBoundary, hc]

end Words

section Functions

/-- A header with the mark behind it, if it ends with none yet. -/
def FunctionHeader.opened? (header : FunctionHeader) : Option FunctionHeader :=
  if header.terminator = none then some { header with terminator := some '\x7b' } else none

variable {text : List Char}

theorem takeName?_mark (text : List Char) :
    takeName? (text ++ openingMark) =
      (takeName? text).map fun found => (found.1, found.2 ++ openingMark) := by
  have hword (text : List Char) :
      (text ++ openingMark).takeWhile isWord = text.takeWhile isWord ∧
        (text ++ openingMark).dropWhile isWord = text.dropWhile isWord ++ openingMark := by
    induction text with
    | nil => exact ⟨rfl, rfl⟩
    | cons c text ih => cases hc : isWord c <;> simp [hc, ih]
  rw [takeName?, takeName?, (hword text).1, (hword text).2]
  split <;> rfl

theorem dropParen?_mark (text : List Char) : dropChar? '(' (trimLeft (text ++ openingMark)) =
    (dropChar? '(' (trimLeft text)).map (· ++ openingMark) := by
  rcases trimLeft_mark text with ⟨h, h'⟩ | ⟨h, h'⟩
  · rw [h, h']
    rfl
  · rw [h']
    obtain ⟨c, more, hmore⟩ := List.exists_cons_of_ne_nil h
    rw [hmore, List.cons_append, dropChar?, dropChar?]
    split <;> rfl

theorem takeToParen?_mark (text : List Char) : takeToParen? (text ++ openingMark) =
    (takeToParen? text).map fun found => (found.1, found.2 ++ openingMark) := by
  induction text with
  | nil => rfl
  | cons c text ih =>
    rw [takeToParen?, takeToParen?] at ih ⊢
    by_cases hc : c = ')'
    · subst hc
      rfl
    · have hc' : (c != ')') = true := by simpa using hc
      simp only [List.cons_append, List.dropWhile_cons, List.takeWhile_cons, hc', if_true]
      revert ih
      generalize dropChar? ')' ((text ++ openingMark).dropWhile (· != ')')) = a
      generalize dropChar? ')' (text.dropWhile (· != ')')) = b
      cases a <;> cases b <;> simp

/-- The name behind a base type and its stars. -/
theorem takeName?_gap_mark (text : List Char) :
    takeName? ((text ++ openingMark).dropWhile fun c => isBlank c || c == '*') =
      (takeName? (text.dropWhile fun c => isBlank c || c == '*')).map
        fun found => (found.1, found.2 ++ openingMark) := by
  rw [List.dropWhile_append]
  rcases h : text.dropWhile (fun c => isBlank c || c == '*') with _ | ⟨c, rest⟩
  · rfl
  · exact takeName?_mark (c :: rest)

/-- The mark at the end of a header opens a body, and is refused after another mark. -/
theorem afterQualifiers?_mark (text : List Char) : afterQualifiers? (text ++ openingMark) =
    (afterQualifiers? text).bind FunctionHeader.opened? := by
  unfold afterQualifiers?
  rw [dropOneOf?_mark (by decide)]
  rcases dropOneOf? functionTypes text with _ | _ | ⟨c, rest⟩
  · rfl
  · rfl
  · simp only [Option.map_some, Option.bind_eq_bind, Option.bind_some]
    rw [takeName?_gap_mark, List.cons_append, List.head?_cons, List.head?_cons, Option.bind_some,
      Option.bind_some]
    by_cases hgap : (!(isBlank c || c == '*')) = true
    · rw [if_pos hgap, if_pos hgap]
      rfl
    · rw [if_neg hgap, if_neg hgap]
      rcases takeName? _ with _ | ⟨name, rest⟩
      · rfl
      · simp only [Option.map_some, Option.bind_some, dropParen?_mark]
        rcases dropChar? '(' (trimLeft rest) with _ | inner
        · rfl
        · simp only [Option.map_some, Option.bind_some, takeToParen?_mark]
          rcases takeToParen? inner with _ | ⟨params, rest⟩
          · rfl
          · simp only [Option.map_some, Option.bind_some]
            -- The mark makes a header out of one that ends here, and spoils any other one.
            rcases trimLeft_mark rest with ⟨h, h'⟩ | ⟨h, h'⟩
            · rw [h, h']
              rfl
            · rw [h']
              rcases hr : trimLeft rest with _ | ⟨d, _ | ⟨d', more⟩⟩
              · exact absurd hr h
              · by_cases hd : (d == ';' || d == '\x7b') = true
                · simp [hd, openingMark, FunctionHeader.opened?]
                · simp [hd, openingMark]
              · rfl

/-- The mark that a text ends with. -/
def lastMark (text : List Char) : Option Char :=
  text.getLast?.filter fun c => c == ';' || c == '\x7b'

theorem lastMark_of_suffix {rest : List Char} (h : rest <:+ text) (hne : rest ≠ []) :
    lastMark rest = lastMark text := by
  obtain ⟨front, rfl⟩ := h
  rw [lastMark, lastMark, List.getLast?_append_of_ne_nil _ hne]

theorem lastMark_of_blank {blanks : List Char} (h : ∀ c ∈ blanks, isBlank c = true) :
    lastMark (')' :: blanks) = none := by
  rcases List.eq_nil_or_concat blanks with rfl | ⟨front, c, rfl⟩
  · rfl
  · have hc := h c (by simp)
    rw [List.concat_eq_append, lastMark, ← List.cons_append, List.getLast?_concat,
      Option.filter_some, if_neg]
    simp only [Bool.or_eq_true, beq_iff_eq]
    rintro (rfl | rfl) <;> cases hc

theorem dropWord?_suffix {word : String} {rest : List Char} (h : dropWord? word text = some rest) :
    rest <:+ text := by
  rw [dropWord?] at h
  split at h
  · obtain rfl := Option.some.inj h
    exact List.drop_suffix _ _
  · cases h

theorem dropOneOf?_suffix {words : List String} {rest : List Char}
    (h : dropOneOf? words text = some rest) : rest <:+ text := by
  obtain ⟨word, -, hword⟩ := List.exists_of_findSome?_eq_some h
  exact dropWord?_suffix hword

theorem dropBlanks?_suffix {rest : List Char} (h : dropBlanks? text = some rest) :
    rest <:+ text ∧ rest.length < text.length := by
  rcases text with _ | ⟨c, text⟩
  · cases h
  · rw [dropBlanks?] at h
    split at h
    · obtain rfl := Option.some.inj h
      have hs : trimLeft text <:+ text := List.dropWhile_suffix _
      exact ⟨hs.trans (List.suffix_cons _ _), Nat.lt_succ_of_le hs.length_le⟩
    · cases h

theorem dropChar?_eq {c : Char} {rest : List Char} (h : dropChar? c text = some rest) :
    text = c :: rest := by
  rcases text with _ | ⟨d, text⟩
  · cases h
  · rw [dropChar?] at h
    split at h
    · rename_i hd
      rw [← Option.some.inj h, eq_of_beq hd]
    · cases h

theorem takeName?_suffix {name : String} {rest : List Char}
    (h : takeName? text = some (name, rest)) : rest <:+ text := by
  rw [takeName?] at h
  split at h
  · cases h
  · obtain ⟨-, rfl⟩ := Prod.mk.inj (Option.some.inj h)
    exact List.dropWhile_suffix _

theorem takeToParen?_suffix {params rest : List Char}
    (h : takeToParen? text = some (params, rest)) : ')' :: rest <:+ text := by
  obtain ⟨rest', hrest, hpair⟩ := Option.map_eq_some_iff.1 h
  obtain ⟨-, rfl⟩ := Prod.mk.inj hpair
  rw [← dropChar?_eq hrest]
  exact List.dropWhile_suffix _

/-- The mark of a header is the one that its text ends with. -/
theorem afterQualifiers?_terminator {header : FunctionHeader}
    (h : afterQualifiers? text = some header) : header.terminator = lastMark text := by
  unfold afterQualifiers? at h
  simp only [Option.bind_eq_bind, Option.bind_eq_some_iff] at h
  obtain ⟨rest, htype, first, -, h⟩ := h
  split at h
  · cases h
  · simp only [Option.bind_eq_some_iff] at h
    obtain ⟨⟨name, rest'⟩, hname, inner, hopen, ⟨params, tail⟩, hclose, h⟩ := h
    have hopened : '(' :: inner <:+ rest' := by
      rw [← dropChar?_eq hopen]
      exact List.dropWhile_suffix _
    have hinner : inner <:+ text := (List.suffix_cons _ _).trans <| hopened.trans <|
      (takeName?_suffix hname).trans <| (List.dropWhile_suffix _).trans (dropOneOf?_suffix htype)
    have htail : ')' :: tail <:+ text := (takeToParen?_suffix hclose).trans hinner
    rw [← lastMark_of_suffix htail (List.cons_ne_nil _ _)]
    have hsplit : tail.takeWhile isBlank ++ trimLeft tail = tail :=
      List.takeWhile_append_dropWhile
    have hblank : ∀ c ∈ tail.takeWhile isBlank, isBlank c = true :=
      List.all_eq_true.1 List.all_takeWhile
    rw [← hsplit]
    rcases htrim : trimLeft tail with _ | ⟨c, _ | _⟩ <;> simp only [htrim] at h
    · rw [← Option.some.inj h, List.append_nil, lastMark_of_blank hblank]
    · split at h
      · rename_i hc
        rw [← Option.some.inj h, lastMark, ← List.cons_append, List.getLast?_concat,
          Option.filter_some, if_pos hc]
      · cases h
    · cases h

/-- What follows a qualifier at the start of a text. -/
def afterQualifier? (text : List Char) : Option (List Char) :=
  (dropOneOf? functionQualifiers text).bind dropBlanks?

theorem functionHeaderFrom?_succ (fuel : Nat) (text : List Char) :
    functionHeaderFrom? (fuel + 1) text =
      ((afterQualifier? text).bind (functionHeaderFrom? fuel)).or (afterQualifiers? text) := by
  rw [functionHeaderFrom?, afterQualifier?]
  cases ((dropOneOf? functionQualifiers text).bind dropBlanks?).bind (functionHeaderFrom? fuel) <;>
    rfl

theorem functionHeaderFrom?_nil : ∀ fuel, functionHeaderFrom? fuel [] = none
  | 0 => rfl
  | _ + 1 => rfl

theorem functionHeaderFrom?_brace : ∀ fuel, functionHeaderFrom? fuel ['\x7b'] = none
  | 0 => rfl
  | _ + 1 => rfl

/-- The mark that ends a header is the last character of its text. -/
theorem functionHeaderFrom?_terminator {header : FunctionHeader} :
    ∀ {fuel : Nat} {text : List Char}, functionHeaderFrom? fuel text = some header →
      header.terminator = lastMark text
  | 0, _, h => afterQualifiers?_terminator h
  | fuel + 1, text, h => by
    rw [functionHeaderFrom?_succ] at h
    rcases Option.or_eq_some_iff.1 h with h | ⟨-, h⟩
    · obtain ⟨rest, hrest, hfrom⟩ := Option.bind_eq_some_iff.1 h
      obtain ⟨mid, hmid, hblanks⟩ := Option.bind_eq_some_iff.1 hrest
      have hne : rest ≠ [] := by
        rintro rfl
        rw [functionHeaderFrom?_nil] at hfrom
        cases hfrom
      rw [functionHeaderFrom?_terminator hfrom, lastMark_of_suffix
        ((dropBlanks?_suffix hblanks).1.trans (dropOneOf?_suffix hmid)) hne]
    · exact afterQualifiers?_terminator h

/-- A header that starts with qualifiers is opened like the header behind them. -/
theorem functionHeaderFrom?_mark : ∀ (fuel : Nat) (text : List Char),
    functionHeaderFrom? fuel (text ++ openingMark) =
      (functionHeaderFrom? fuel text).bind FunctionHeader.opened?
  | 0, text => afterQualifiers?_mark text
  | fuel + 1, text => by
    have hqualified : (afterQualifier? (text ++ openingMark)).bind (functionHeaderFrom? fuel) =
        ((afterQualifier? text).bind (functionHeaderFrom? fuel)).bind FunctionHeader.opened? := by
      rw [afterQualifier?, afterQualifier?, dropOneOf?_mark (by decide)]
      rcases dropOneOf? functionQualifiers text with _ | rest
      · rfl
      · simp only [Option.map_some, Option.bind_some]
        rcases dropBlanks?_mark rest with ⟨h | h, h'⟩ | h'
        · rw [h, h']
          exact functionHeaderFrom?_brace fuel
        · rw [h, h', Option.bind_some, Option.bind_some, functionHeaderFrom?_nil]
          exact functionHeaderFrom?_brace fuel
        · rw [h']
          rcases dropBlanks? rest with _ | rest
          · rfl
          · exact functionHeaderFrom?_mark fuel rest
    rw [functionHeaderFrom?_succ, functionHeaderFrom?_succ, hqualified, afterQualifiers?_mark]
    rcases hq : (afterQualifier? text).bind (functionHeaderFrom? fuel) with _ | header
    · rfl
    · -- Both ways to read the text would give a header with the same mark.
      rw [Option.bind_some, Option.some_or, Option.bind_some]
      rcases ha : afterQualifiers? text with _ | header'
      · rw [Option.bind_none, Option.or_none]
      · have hmark : header'.terminator = header.terminator := by
          have hfrom : functionHeaderFrom? (fuel + 1) text = some header := by
            rw [functionHeaderFrom?_succ, hq, Option.some_or]
          rw [afterQualifiers?_terminator ha, functionHeaderFrom?_terminator hfrom]
        rw [Option.bind_some, FunctionHeader.opened?, FunctionHeader.opened?, hmark]
        split <;> rfl

/-- Fuel for every character is enough to read the qualifiers. -/
theorem functionHeaderFrom?_fuel : ∀ {fuel fuel' : Nat} {text : List Char}, text.length ≤ fuel →
    text.length ≤ fuel' → functionHeaderFrom? fuel text = functionHeaderFrom? fuel' text
  | 0, fuel', text, h, _ => by
    rw [List.length_eq_zero_iff.1 (Nat.le_zero.1 h), functionHeaderFrom?_nil,
      functionHeaderFrom?_nil]
  | fuel + 1, 0, text, _, h => by
    rw [List.length_eq_zero_iff.1 (Nat.le_zero.1 h), functionHeaderFrom?_nil,
      functionHeaderFrom?_nil]
  | fuel + 1, fuel' + 1, text, h, h' => by
    rw [functionHeaderFrom?_succ, functionHeaderFrom?_succ]
    congr 1
    rcases hq : afterQualifier? text with _ | rest
    · rfl
    · obtain ⟨mid, hmid, hblanks⟩ := Option.bind_eq_some_iff.1 hq
      have h1 := (dropBlanks?_suffix hblanks).2
      have h2 := (dropOneOf?_suffix hmid).length_le
      exact functionHeaderFrom?_fuel (by omega) (by omega)

/-- A head of a function opens its body with or without the mark. -/
theorem functionHeader?_mark (text : List Char) : functionHeader? (text ++ openingMark) =
    (functionHeader? text).bind FunctionHeader.opened? := by
  rw [functionHeader?, functionHeader?, functionHeaderFrom?_mark]
  have hle : text.length ≤ (text ++ openingMark).length := by
    rw [List.length_append]
    omega
  rw [functionHeaderFrom?_fuel hle (Nat.le_refl _)]

end Functions

section Reopening

/-- The next line with code is deeper than line `i`. -/
structure DeeperBelow (p : Program) (i : Nat) : Prop where
  exists_code : p.nextCodeLine (i + 1) < p.size
  deeper : (p.line i).depth < (p.line (p.nextCodeLine (i + 1))).depth

/-- The text of a statement at line `i` with and without the mark at the end of its head. -/
structure Reopens (p : Program) (i : Nat) (text text' : List Char) : Prop where
  marked : text = text' ++ openingMark
  opened : (isIf text || (isWhile text || isFor text)) = true → DeeperBelow p i ∧
    ∃ guard, header? text = some (guard, ['\x7b']) ∧ header? text' = some (guard, [])

/-- The text of line `i` with and without the mark at its end. -/
structure Unbraced (p : Program) (i : Nat) (text text' : List Char) : Prop
    extends Reopens p i text text' where
  function : functionHeader? text = none → functionHeader? text' = none
  clauses : isFor text = true → ∃ guard init test step,
    header? text = some (guard, ['\x7b']) ∧ splitSemicolons guard = [init, test, step]
  tail : isElse text = true →
    isElseIf text = true ∧ isIf (afterElse text) = true ∧
        Reopens p i (afterElse text) (afterElse text') ∨
      isElseIf text = false ∧ DeeperBelow p i ∧ afterElse text = ['\x7b'] ∧ afterElse text' = []
  /-- It is no simple statement. -/
  shaped : functionHeader? text ≠ none ∨
    (isIf text || (isElse text || (isWhile text || isFor text))) = true

/-- A line of a program with and without the mark at its end. -/
structure Counterpart (p : Program) (l l' : Line) : Prop where
  blank_eq : l'.blank = l.blank
  depth_eq : l'.depth = l.depth
  number_eq : l'.number = l.number
  text : l'.text = l.text ∨ Unbraced p l.number l.text l'.text

/-- The second program has the lines of the first one, some of them without the mark at their
end. -/
structure Reopened (p p' : Program) : Prop where
  lines : List.Forall₂ (Counterpart p) p.lines p'.lines
  numbered : p.Numbered

theorem number_line {p : Program} (hp : p.Numbered) (i : Nat) : (p.line i).number = i := by
  by_cases hi : i < p.size
  · exact hp i _ (Program.getElem?_line hi)
  · have hlines : p.lines[i]? = none := List.getElem?_eq_none (Nat.le_of_not_lt hi)
    rw [Program.line, List.getD_eq_getElem?_getD, hlines]
    rfl

/-- Two accounts of where statements end that agree on texts with and without a mark. -/
def EndsAlike (p : Program) (e e' : Nat → List Char → Nat) : Prop :=
  ∀ i text text', text' = text ∨ Reopens p i text text' → e' i text' = e i text

/-- The body of a head is the same one without the mark. -/
theorem DeeperBelow.bodyWith_eq {p : Program} {i : Nat} (h : DeeperBelow p i)
    (e : Nat → List Char → Nat) : bodyWith p e i [] = bodyWith p e i ['\x7b'] := by
  simp [bodyWith, h.exists_code, h.deeper]

theorem DeeperBelow.bodyAt_eq {p : Program} {i : Nat} (h : DeeperBelow p i) :
    bodyAt p i [] = bodyAt p i ['\x7b'] :=
  h.bodyWith_eq (endOf p)

theorem read_of_last {text guard rest : List Char} (h : header? text = some (guard, rest))
    (hrest : splitElse? rest = none) : BranchLine.read text = .last guard rest := by
  rw [BranchLine.read, BranchLine.readWith, h]
  dsimp only
  rw [hrest]

theorem isIf_of_shape {text : List Char} (h : shape text = .branch) : isIf text = true := by
  unfold shape at h
  split at h
  · cases h
  · split at h
    · assumption
    · repeat' split at h
      all_goals cases h

/-- The shapes of a line with and without the mark at its end. -/
inductive SameShape (p : Program) (i : Nat) (text : List Char) : Shape → Shape → Prop
  | function (name : String) (params : List Char) : SameShape p i text
      (.function ⟨name, params, some '\x7b'⟩) (.function ⟨name, params, none⟩)
  | branch : isIf text = true → SameShape p i text .branch .branch
  | strayElse : isElse text = true → isElseIf text = false →
      SameShape p i text .strayElse .strayElse
  | whileLoop (guard : List Char) : DeeperBelow p i →
      SameShape p i text (.whileLoop guard ['\x7b']) (.whileLoop guard [])
  | forLoop (all init test step : List Char) : DeeperBelow p i → SameShape p i text
      (.forLoop ⟨all, init, test, step, ['\x7b']⟩) (.forLoop ⟨all, init, test, step, []⟩)

namespace Unbraced

variable {p : Program} {i : Nat} {text text' : List Char} (h : Unbraced p i text text')
include h

/-- Both texts are no header, or the header of one function, whose body the mark opens. -/
theorem functions : functionHeader? text = none ∧ functionHeader? text' = none ∨
    ∃ name params, functionHeader? text = some ⟨name, params, some '\x7b'⟩ ∧
      functionHeader? text' = some ⟨name, params, none⟩ := by
  cases hf : functionHeader? text with
  | none => exact .inl ⟨rfl, h.function hf⟩
  | some header =>
    rw [h.marked, functionHeader?_mark] at hf
    obtain ⟨header', hf', hopened⟩ := Option.bind_eq_some_iff.1 hf
    rw [FunctionHeader.opened?] at hopened
    split at hopened
    · rename_i hterminator
      refine .inr ⟨header'.name, header'.params, hopened.symm, ?_⟩
      rw [hf', ← hterminator]
    · cases hopened

/-- With and without the mark a text has the same shape. -/
theorem shapes : SameShape p i text (shape text) (shape text') := by
  have hif : isIf text' = isIf text := by rw [h.marked, isIf_mark]
  have helse : isElse text' = isElse text := by rw [h.marked, isElse_mark]
  have hwhile : isWhile text' = isWhile text := by rw [h.marked, isWhile_mark]
  have hfor : isFor text' = isFor text := by rw [h.marked, isFor_mark]
  rcases h.functions with ⟨hf, hf'⟩ | ⟨name, params, hf, hf'⟩
  · have hshaped := h.shaped.resolve_left (fun hne => hne hf)
    have hopened := h.opened
    have hclauses := h.clauses
    have htail := h.tail
    rw [shape, shape, hf, hf', hif, helse, hwhile, hfor]
    cases hi : isIf text with
    | true => exact .branch hi
    | false =>
      cases he : isElse text with
      | true =>
        rcases htail he with ⟨helseIf, -⟩ | ⟨hnot, -⟩
        · rw [isIf, helseIf, Bool.true_or] at hi
          cases hi
        · exact .strayElse he hnot
      | false =>
        rw [hi, he] at hshaped
        rw [hi] at hopened
        obtain ⟨hdeeper, guard, hheader, hheader'⟩ := hopened hshaped
        cases hw : isWhile text with
        | true =>
          rw [hheader, hheader']
          exact .whileLoop guard hdeeper
        | false =>
          have ho : isFor text = true := by rwa [hw] at hshaped
          obtain ⟨guard', init, test, step, hguard, hsplit⟩ := hclauses ho
          obtain rfl : guard = guard' := by
            rw [hheader] at hguard
            exact (Prod.mk.inj (Option.some.inj hguard)).1
          have hclause : forHeader? text = some ⟨guard, init, test, step, ['\x7b']⟩ := by
            simp only [forHeader?, hheader, Option.bind_eq_bind, Option.bind_some, hsplit]
            rfl
          have hclause' : forHeader? text' = some ⟨guard, init, test, step, []⟩ := by
            simp only [forHeader?, hheader', Option.bind_eq_bind, Option.bind_some, hsplit]
            rfl
          rw [ho, hclause, hclause']
          exact .forLoop guard init test step hdeeper
  · rw [shape, shape, hf, hf']
    exact .function name params

end Unbraced

namespace Reopened

variable {p p' : Program} (h : Reopened p p') {e e' : Nat → List Char → Nat} {i : Nat}
include h

theorem size_eq : p'.size = p.size := h.lines.length_eq.symm

theorem line (i : Nat) : Counterpart p (p.line i) (p'.line i) := by
  by_cases hi : i < p.size
  · have hi' : i < p'.size := h.size_eq ▸ hi
    obtain ⟨hlt, hline⟩ := List.getElem?_eq_some_iff.1 (Program.getElem?_line hi)
    obtain ⟨hlt', hline'⟩ := List.getElem?_eq_some_iff.1 (Program.getElem?_line hi')
    have hrel := h.lines.get hlt hlt'
    rwa [List.get_eq_getElem, List.get_eq_getElem, hline, hline'] at hrel
  · have hlines : p.lines[i]? = none := List.getElem?_eq_none (Nat.le_of_not_lt hi)
    have hlines' : p'.lines[i]? = none :=
      List.getElem?_eq_none (Nat.le_of_not_lt fun hi' => hi (h.size_eq ▸ hi'))
    simp only [Program.line, List.getD_eq_getElem?_getD, hlines, hlines']
    exact ⟨rfl, rfl, rfl, .inl rfl⟩

theorem numbered' : p'.Numbered := by
  intro i l hl
  obtain ⟨hi, -⟩ := List.getElem?_eq_some_iff.1 hl
  rw [Program.getElem?_line hi] at hl
  rw [← Option.some.inj hl, (h.line i).number_eq, number_line h.numbered i]

theorem depth_eq (i : Nat) : (p'.line i).depth = (p.line i).depth := (h.line i).depth_eq

theorem text (i : Nat) :
    (p'.line i).text = (p.line i).text ∨ Unbraced p i (p.line i).text (p'.line i).text := by
  have htext := (h.line i).text
  rwa [number_line h.numbered i] at htext

theorem near (i : Nat) : (p'.line i).text = (p.line i).text ∨
    Reopens p i (p.line i).text (p'.line i).text :=
  (h.text i).imp_right Unbraced.toReopens

theorem skip_eq {q : Line → Bool} (hq : ∀ l l' : Line, l'.depth = l.depth → q l' = q l)
    (i : Nat) : p'.skip q i = p.skip q i := by
  rw [Program.skip, Program.skip, length_takeWhile_of_forall₂ (fun l l' hl => ?_)
    (List.forall₂_drop i h.lines)]
  rw [hl.blank_eq, hq l l' hl.depth_eq]

theorem nextCodeLine_eq (i : Nat) : p'.nextCodeLine i = p.nextCodeLine i := by
  rw [p'.nextCodeLine_eq_skip, p.nextCodeLine_eq_skip]
  exact h.skip_eq (fun _ _ _ => rfl) i

theorem blockEnd_eq (i depth : Nat) : p'.blockEnd i depth = p.blockEnd i depth :=
  h.skip_eq (fun _ _ hd => by rw [hd]) i

theorem nextStatement_eq (i depth : Nat) : p'.nextStatement i depth = p.nextStatement i depth :=
  h.skip_eq (q := fun l => depth < l.depth) (fun _ _ hd => by rw [hd]) i

theorem bodyWith_eq (he : EndsAlike p e e') (i : Nat) (rest : List Char) :
    bodyWith p' e' i rest = bodyWith p e i rest := by
  unfold bodyWith
  dsimp only
  rw [h.depth_eq, h.nextCodeLine_eq, h.depth_eq, h.size_eq, h.blockEnd_eq, he _ _ _ (h.near _)]

/-- The branches that are skipped are the same ones. -/
theorem skipElseWith_eq (he : EndsAlike p e e') (depth start : Nat) :
    skipElseWith p' e' depth start = skipElseWith p e depth start := by
  unfold skipElseWith
  dsimp only
  rw [h.nextCodeLine_eq, h.size_eq, h.depth_eq]
  rcases h.text (p.nextCodeLine start) with htext | hun
  · rw [htext, he _ _ _ (.inl rfl), h.bodyWith_eq he, h.nextCodeLine_eq]
  · have helse : isElse (p'.line (p.nextCodeLine start)).text =
        isElse (p.line (p.nextCodeLine start)).text := by rw [hun.marked, isElse_mark]
    rw [helse]
    cases hb : isElse (p.line (p.nextCodeLine start)).text with
    | false => simp only [Bool.and_false, Bool.false_eq_true, if_false]
    | true =>
      congr 1
      rcases hun.tail hb with ⟨-, hif, hre⟩ | ⟨-, hdeeper, htail, htail'⟩
      · have hif' : isIf (afterElse (p'.line (p.nextCodeLine start)).text) = true := by
          rw [← hif, hre.marked, isIf_mark]
        rw [if_pos hif, if_pos hif', he _ _ _ (.inr hre)]
      · rw [htail, htail', h.bodyWith_eq he, hdeeper.bodyWith_eq, h.nextCodeLine_eq]
        rfl

theorem branchEndWith_eq (he : EndsAlike p e e') (i : Nat) : ∀ line : BranchLine,
    branchEndWith p' e' i line = branchEndWith p e i line
  | .malformed _ => rfl
  | .last _ body => by
    rw [branchEndWith, branchEndWith, h.bodyWith_eq he, h.depth_eq,
      h.skipElseWith_eq he]
  | .otherwise _ _ elseBody => by
    rw [branchEndWith, branchEndWith, h.bodyWith_eq he]
  | .elseIf _ _ rest => branchEndWith_eq he i rest

/-- Statements end at the same lines. -/
theorem statementEnd_eq : ∀ fuel, EndsAlike p (statementEnd p fuel) (statementEnd p' fuel)
  | 0, _, _, _, _ => rfl
  | fuel + 1, i, text, text', hnear => by
    have he := statementEnd_eq fuel
    rw [statementEnd, statementEnd]
    rcases hnear with rfl | hre
    · rw [h.branchEndWith_eq he]
      rcases header? text' with _ | ⟨guard, rest⟩
      · rfl
      · dsimp only
        rw [h.bodyWith_eq he]
    · have hif : isIf text' = isIf text := by rw [hre.marked, isIf_mark]
      have hwhile : isWhile text' = isWhile text := by rw [hre.marked, isWhile_mark]
      have hfor : isFor text' = isFor text := by rw [hre.marked, isFor_mark]
      rw [hif, hwhile, hfor]
      cases hopen : (isIf text || (isWhile text || isFor text)) with
      | false =>
        obtain ⟨h1, h2⟩ := Bool.or_eq_false_iff.1 hopen
        rw [h1, h2]
        rfl
      | true =>
        obtain ⟨hdeeper, guard, hheader, hheader'⟩ := hre.opened hopen
        rw [read_of_last hheader rfl, read_of_last hheader' rfl, hheader, hheader']
        simp only [branchEndWith, h.bodyWith_eq he, hdeeper.bodyWith_eq, h.depth_eq,
          h.skipElseWith_eq he]

theorem endOf_eq : EndsAlike p (endOf p) (endOf p') := by
  rw [endOf, endOf, h.size_eq]
  exact h.statementEnd_eq p.size

theorem bodyAt_eq (i : Nat) (rest : List Char) : bodyAt p' i rest = bodyAt p i rest :=
  h.bodyWith_eq h.endOf_eq i rest

theorem skipElse_eq (depth start : Nat) : skipElse p' depth start = skipElse p depth start :=
  h.skipElseWith_eq h.endOf_eq depth start

theorem branchEnd_eq (i : Nat) (line : BranchLine) : branchEnd p' i line = branchEnd p i line :=
  h.branchEndWith_eq h.endOf_eq i line

/-- The branches below a body are the same ones. -/
theorem chainWith_eq {depth : Nat} {later later' : Nat → Chain Body}
    (hlater : ∀ j, isIf (p.line j).text = true → later' j = later j) (i : Nat) :
    ∀ line : BranchLine, chainWith p' depth later' i line = chainWith p depth later i line
  | .malformed _ => rfl
  | .last guard rest => by
    rw [chainWith, chainWith, h.bodyAt_eq, h.skipElse_eq]
    dsimp only
    rw [h.nextCodeLine_eq, h.size_eq, h.depth_eq]
    congr 1
    generalize p.nextCodeLine (bodyAt p i rest).resume = next
    have hlater' : isElseIf (p.line next).text = true → later' next = later next := fun helse =>
      hlater next (by rw [isIf, helse, Bool.true_or])
    rcases h.text next with htext | hun
    · rw [htext, h.bodyAt_eq]
      split
      · split
        · rename_i helse
          exact hlater' helse
        · rfl
      · rfl
    · have helse : isElse (p'.line next).text = isElse (p.line next).text := by
        rw [hun.marked, isElse_mark]
      have helseIf : isElseIf (p'.line next).text = isElseIf (p.line next).text := by
        rw [hun.marked, isElseIf_mark]
      rw [helse, helseIf]
      split
      · rename_i hc
        simp only [Bool.and_eq_true] at hc
        rcases hun.tail hc.2 with ⟨hif, -⟩ | ⟨hif, hdeeper, htail, htail'⟩
        · rw [if_pos hif, if_pos hif, hlater' hif]
        · rw [htail, htail', h.bodyAt_eq, hdeeper.bodyAt_eq, hif]
          rfl
      · rfl
  | .otherwise guard rest elseRest => by
    rw [chainWith, chainWith, h.bodyAt_eq, h.bodyAt_eq]
  | .elseIf guard rest more => by
    rw [chainWith, chainWith, h.bodyAt_eq, h.branchEnd_eq, chainWith_eq hlater i more]

theorem chainFrom_eq (depth : Nat) : ∀ (fuel i : Nat), isIf (p.line i).text = true →
    chainFrom p' depth fuel i = chainFrom p depth fuel i
  | 0, _, _ => rfl
  | fuel + 1, i, hif => by
    have hlater := @chainWith_eq p p' h depth _ _ (chainFrom_eq depth fuel) i
    rw [chainFrom, chainFrom]
    rcases h.text i with htext | hun
    · rw [htext, hlater]
    · obtain ⟨hdeeper, guard, hheader, hheader'⟩ := hun.opened (by rw [hif]; rfl)
      rw [read_of_last hheader rfl, read_of_last hheader' rfl, hlater, chainWith, chainWith,
        hdeeper.bodyAt_eq]

theorem chainAt_eq (hif : isIf (p.line i).text = true) : chainAt p' i = chainAt p i := by
  rw [chainAt, chainAt, h.depth_eq, h.size_eq]
  exact h.chainFrom_eq _ _ _ hif

/-- A line does the same without its mark. -/
theorem runLine_eq (host : Host) (run : Extent → Block) (i : Nat) (scope : Scope) :
    runLine host p' run i scope = runLine host p run i scope := by
  unfold runLine
  dsimp only
  rcases h.text i with htext | hun
  · rw [htext]
    rcases hshape : shape (p.line i).text with header | _ | _ | ⟨guard, rest⟩ | header | _
    · simp only [define, h.depth_eq, h.blockEnd_eq]
    · simp only [h.chainAt_eq (isIf_of_shape hshape)]
    all_goals simp only [h.bodyAt_eq]
  · have hshapes := hun.shapes
    have htail := hun.tail
    generalize shape (p.line i).text = s at hshapes ⊢
    generalize shape (p'.line i).text = s' at hshapes ⊢
    cases hshapes with
    | function name params => simp [define, h.depth_eq, h.blockEnd_eq]
    | branch hif => simp only [h.chainAt_eq hif]
    | strayElse helse hnotIf =>
      rcases htail helse with ⟨hif, -⟩ | ⟨-, hdeeper, hrest, hrest'⟩
      · rw [hif] at hnotIf
        cases hnotIf
      · simp only [hrest, hrest', h.bodyAt_eq, hdeeper.bodyAt_eq]
    | whileLoop guard hdeeper => simp only [h.bodyAt_eq, hdeeper.bodyAt_eq]
    | forLoop all init test step hdeeper =>
      simp only [h.bodyAt_eq, hdeeper.bodyAt_eq]
      rfl

theorem runBlock_eq (host : Host) : ∀ fuel : Nat,
    runBlock p' (runLine host p') fuel = runBlock p (runLine host p) fuel
  | 0 => rfl
  | fuel + 1 => by
    funext extent scope
    rw [runBlock, runBlock, h.nextStatement_eq, h.depth_eq, runBlock_eq host fuel]
    simp only [h.runLine_eq]

theorem functionAt?_eq {l l' : Line} (hl : Counterpart p l l') :
    functionAt? p' l' = functionAt? p l := by
  simp only [functionAt?, hl.blank_eq, hl.number_eq, hl.depth_eq, h.blockEnd_eq]
  rcases hl.text with htext | hun
  · rw [htext]
  · rcases hun.functions with ⟨hf, hf'⟩ | ⟨name, params, hf, hf'⟩ <;> rw [hf, hf']
    rfl

theorem functionTable_eq : functionTable .braced p' = functionTable .braced p := by
  have hfound : p'.lines.filterMap (functionAt? p') = p.lines.filterMap (functionAt? p) := by
    have hlines := h.lines
    generalize p.lines = ls at hlines ⊢
    generalize p'.lines = ls' at hlines ⊢
    induction hlines with
    | nil => rfl
    | cons hl _ ih => rw [List.filterMap_cons, List.filterMap_cons, h.functionAt?_eq hl, ih]
  unfold functionTable
  dsimp only
  rw [hfound]

theorem callFunction_eq (functions : FunctionTable) (limits : Limits) : ∀ room : Nat,
    callFunction .braced runLine p' functions limits room =
      callFunction .braced runLine p functions limits room
  | 0 => rfl
  | room + 1 => by
    simp only [callFunction, callFunction_eq functions limits room, h.runBlock_eq, h.size_eq]

theorem hostOf_eq (limits : Limits) :
    hostOf .braced runLine p' limits = hostOf .braced runLine p limits := by
  rw [hostOf, hostOf, h.functionTable_eq, h.callFunction_eq]

/-- A program does the same without the marks. -/
theorem runProgram_eq (limits : Limits) : runProgram limits p' = runProgram limits p := by
  unfold runProgram
  dsimp only
  rw [h.hostOf_eq, h.runBlock_eq, h.size_eq, h.functionTable_eq]

end Reopened

end Reopening

end Stepwise.Braced
