import Mathlib.Data.List.Induction
import Mathlib.Tactic.SplitIfs
import Stepwise.Exec.Block
import Stepwise.Proofs.Lines

/-!
# Tables and definitions

What is written to a table last is what is read from it (`Table.get?_ofList`), so a call runs the
last definition of its name. The lines of a layout are numbered by their positions
(`layout_numbered`), so a function of the table starts at the line that defines it and ends within
the program.
-/

namespace Stepwise

open Source Text

namespace Table

variable {α : Type}

/-- The name has the new value, and all others keep theirs. -/
theorem lookup_putIn (name : String) (value : α) (n : String) : ∀ entries : List (String × α),
    (putIn name value entries).lookup n = if n = name then some value else entries.lookup n
  | [] => by
    by_cases h : n = name
    · simp [putIn, h]
    · simp [putIn, List.lookup_cons, beq_false_of_ne h, h]
  | (n', v) :: rest => by
    have ih := lookup_putIn name value n rest
    rw [putIn]
    by_cases hn : n' = name
    · subst hn
      by_cases h : n = n'
      · simp [h]
      · simp [List.lookup_cons, beq_false_of_ne h, h]
    · by_cases h : n = n'
      · subst h
        simp [hn]
      · simp [List.lookup_cons, hn, beq_false_of_ne h, ih]

theorem get?_put (t : Table α) (name : String) (value : α) (n : String) :
    (t.put name value).get? n = if n = name then some value else t.get? n :=
  lookup_putIn name value n t.entries

theorem ofList_concat (entries : List (String × α)) (name : String) (value : α) :
    ofList (entries ++ [(name, value)]) = (ofList entries).put name value := by
  simp [ofList]

/-- Of several entries with one name the last one counts. -/
theorem get?_ofList (entries : List (String × α)) (n : String) :
    (ofList entries).get? n = entries.reverse.lookup n := by
  induction entries using List.reverseRecOn with
  | nil => rfl
  | append_singleton entries e ih =>
    obtain ⟨name, value⟩ := e
    rw [ofList_concat, get?_put, ih, List.reverse_append, List.reverse_singleton,
      List.singleton_append, List.lookup_cons]
    by_cases h : n = name
    · simp [h]
    · simp [beq_false_of_ne h, h]

theorem mem_of_get?_ofList {entries : List (String × α)} {n : String} {v : α}
    (h : (ofList entries).get? n = some v) : (n, v) ∈ entries := by
  rw [get?_ofList] at h
  obtain ⟨front, back, hl, -⟩ := List.lookup_eq_some_iff.1 h
  rw [← List.mem_reverse, hl]
  exact List.mem_append_right _ List.mem_cons_self

end Table

/-- The lines of a program have their positions as numbers. -/
def Source.Program.Numbered (p : Program) : Prop :=
  ∀ (i : Nat) (l : Line), p.lines[i]? = some l → l.number = i

theorem number_bracedLines : ∀ (raws : List (List Char)) (number openBraces i : Nat) (l : Line),
    (bracedLines number openBraces raws)[i]? = some l → l.number = number + i
  | [], _, _, i, l, h => by simp [bracedLines] at h
  | raw :: rest, number, openBraces, 0, l, h => by
    simp only [bracedLines, List.getElem?_cons_zero, Option.some.injEq] at h
    subst h
    rfl
  | raw :: rest, number, openBraces, i + 1, l, h => by
    simp only [bracedLines, List.getElem?_cons_succ] at h
    have := number_bracedLines rest _ _ i l h
    omega

theorem layout_numbered (dialect : Dialect) (source : List Char) :
    (layout dialect source).Numbered := by
  intro i l h
  cases dialect with
  | indented =>
    simp only [layout, indentLayout, List.getElem?_mapIdx, Option.map_eq_some_iff] at h
    obtain ⟨raw, -, rfl⟩ := h
    rfl
  | braced =>
    have := number_bracedLines _ 0 0 i l h
    omega

/-- The function that a line of a dialect defines. -/
def functionAt? (dialect : Dialect) (p : Program) : Line → Option FunctionDef :=
  match dialect with
  | .indented => Indented.functionAt? p
  | .braced => Braced.functionAt? p

theorem functionTable_eq (dialect : Dialect) (p : Program) :
    functionTable dialect p =
      Table.ofList ((p.lines.filterMap (functionAt? dialect p)).map fun f => (f.name, f)) := by
  cases dialect <;> rfl

theorem functionAt?_blank {dialect : Dialect} {p : Program} {l : Line} (hb : l.blank = true) :
    functionAt? dialect p l = none := by
  cases dialect
  · exact if_pos hb
  · exact if_pos hb

/-- A line that defines a function has code, and the body of the function starts right below it. -/
theorem functionAt?_spec {dialect : Dialect} {p : Program} {l : Line} {f : FunctionDef}
    (h : functionAt? dialect p l = some f) :
    l.blank = false ∧ f.headerLine = l.number ∧ f.bodyStart = l.number + 1
      ∧ f.bodyEnd = p.blockEnd (l.number + 1) f.bodyDepth := by
  refine ⟨Bool.eq_false_iff.2 fun hb => ?_, ?_⟩
  · rw [functionAt?_blank hb] at h
    cases h
  cases dialect with
  | indented =>
    change Indented.functionAt? p l = some f at h
    simp only [Indented.functionAt?] at h
    split_ifs at h
    obtain ⟨d, -, rfl⟩ := Option.map_eq_some_iff.1 h
    exact ⟨rfl, rfl, rfl⟩
  | braced =>
    change Braced.functionAt? p l = some f at h
    simp only [Braced.functionAt?] at h
    split_ifs at h
    split at h
    · split_ifs at h
      cases h
      exact ⟨rfl, rfl, rfl⟩
    · cases h

/-- A function of the table has the name it is looked up by, and some line defines it. -/
theorem functionTable_source {dialect : Dialect} {p : Program} {name : String} {f : FunctionDef}
    (h : (functionTable dialect p).get? name = some f) :
    f.name = name ∧ ∃ (i : Nat) (l : Line), p.lines[i]? = some l ∧
      functionAt? dialect p l = some f := by
  rw [functionTable_eq] at h
  obtain ⟨f', hf, heq⟩ := List.mem_map.1 (Table.mem_of_get?_ofList h)
  simp only [Prod.mk.injEq] at heq
  obtain ⟨rfl, rfl⟩ := heq
  obtain ⟨l, hl, hat⟩ := List.mem_filterMap.1 hf
  obtain ⟨i, hi⟩ := List.mem_iff_getElem?.1 hl
  exact ⟨rfl, i, l, hi, hat⟩

/-- The body of a function of the table is a block right below its header. -/
theorem functionTable_spec {dialect : Dialect} {p : Program} (hp : p.Numbered) {name : String}
    {f : FunctionDef} (h : (functionTable dialect p).get? name = some f) :
    f.name = name ∧ ∃ i, i < p.size ∧ f.headerLine = i ∧ f.bodyStart = i + 1
      ∧ f.bodyEnd = p.blockEnd (i + 1) f.bodyDepth := by
  obtain ⟨hname, i, l, hi, hat⟩ := functionTable_source h
  have hspec := (functionAt?_spec hat).2
  rw [hp i l hi] at hspec
  exact ⟨hname, i, (List.getElem?_eq_some_iff.1 hi).1, hspec⟩

theorem functionTable_stop_le {dialect : Dialect} {p : Program} (hp : p.Numbered) {name : String}
    {f : FunctionDef} (h : (functionTable dialect p).get? name = some f) :
    f.body.stop ≤ p.size := by
  obtain ⟨-, i, hi, -, -, hend⟩ := functionTable_spec hp h
  show f.bodyEnd ≤ p.size
  rw [hend]
  exact p.blockEnd_le _ hi

end Stepwise
