import Mathlib.Tactic.MkIffOfInductiveProp
import Stepwise.Proofs.BracedTree
import Stepwise.Proofs.TopLevel

/-!
# Bodies on the line of their head

The body of a branch or a loop may stand on the line of its head, `while (n) { n--; m++; }`, or
behind it without braces, `while (n) n--; m++;`. Such a line is taken apart twice: the text behind
the head is cut at its semicolons into the statements of the body (`inlineStatements_rest`), and
each of these is stripped of the braces at its ends and cut again when it runs. An `Item` is a
statement that comes through the second cut as it is, among others (`Item.statements_text`) and on a
line of its own (`Item.run_line`). With a brace at one of its ends it would not, whence `unopened`
and `unclosed`.

A text behind a head that has an `else` in it ends there. `elseless` says that this does not happen,
in a form that is kept when statements are joined (`elseless_joined`).

With these a `OneLine` is as good as a simple statement (`OneLine.goesOn`), so the trees over
`oneLines` are run as all trees are.
-/

namespace Stepwise

open Source Text

/-- The pieces that are not blank. -/
theorem filter_splitTopLevel (isSeparator : Char → Bool) (text : List Char) :
    ((splitTopLevel isSeparator text).filter fun t => !t.isEmpty) =
      ((topLevelPieces isSeparator .start text).map trim).filter fun t => !t.isEmpty := by
  unfold splitTopLevel
  split
  · rename_i h
    rw [h]
    rfl
  · rfl

namespace Braced

section Elses

/-- No semicolon or closing brace of a text that stands outside literals has an `else` behind it. -/
def elseless : Quoting → List Char → Bool
  | _, [] => true
  | q, c :: rest =>
    !(q.seesCode c && (c == ';' || c == '\x7d') && isElse (trimLeft rest)) &&
      elseless (q.next c) rest

theorem splitElseFrom_eq_none : ∀ {text : List Char} {s : Nesting} {front : List Char},
    elseless s.quoting text = true → splitElseFrom s front text = none
  | [], _, _, _ => rfl
  | c :: text, s, front, h => by
    rw [elseless, Bool.and_eq_true_iff, Bool.not_eq_true'] at h
    obtain ⟨hc, hrest⟩ := h
    rw [splitElseFrom, if_neg]
    · exact splitElseFrom_eq_none (s := s.next c) hrest
    · intro hcut
      simp only [Bool.and_eq_true] at hcut
      rw [hcut.1.1.1, hcut.1.2, hcut.2] at hc
      cases hc

/-- A semicolon behind a text makes no keyword of it, and does not make its first word longer. -/
theorem isElse_semicolon (text more : List Char) : isElse (text ++ ';' :: more) = isElse text := by
  rw [isElse, isElse, dropKeyword?, dropKeyword?, dropWord?, dropWord?,
    isPrefixOf_append_cons (by decide) text more]
  split_ifs with hword
  · have hlength : "else".length ≤ text.length := (List.isPrefixOf_iff_prefix.1 hword).length_le
    have hboundary : ∀ rest : List Char, atBoundary (rest ++ ';' :: more) = atBoundary rest := by
      intro rest
      cases rest <;> rfl
    rw [List.drop_append_of_le_length hlength, Option.filter_some, Option.filter_some, hboundary]
    cases atBoundary (text.drop "else".length) <;> rfl
  · rfl

theorem isElse_trimLeft_semicolon (text more : List Char) :
    isElse (trimLeft (text ++ ';' :: more)) = isElse (trimLeft text) := by
  have htrim : trimLeft (text ++ ';' :: more) = trimLeft text ++ ';' :: more := by
    rw [trimLeft, trimLeft, List.dropWhile_append]
    split_ifs with hblank
    · rw [List.isEmpty_iff.1 hblank]
      rfl
    · rfl
  rw [htrim, isElse_semicolon]

theorem elseless_semicolon (more : List Char) : ∀ (text : List Char) (q : Quoting),
    elseless q (text ++ ';' :: more) =
      (elseless q text && elseless (text.foldl Quoting.next q) (';' :: more))
  | [], _ => rfl
  | c :: text, q => by
    rw [List.cons_append, elseless, elseless, isElse_trimLeft_semicolon,
      elseless_semicolon more text]
    exact (Bool.and_assoc _ _ _).symm

end Elses

/-- Braces are only taken from the ends of a text. -/
theorem withoutBraces_eq {text : List Char} (htrim : trim text = text)
    (hfront : text.head? ≠ some '\x7b') (hback : text.getLast? ≠ some '\x7d') :
    withoutBraces text = text := by
  have hdrop : ∀ {c : Char} {l : List Char}, l.head? ≠ some c → l.dropWhile (· == c) = l := by
    intro c l h
    cases l with
    | nil => rfl
    | cons d l =>
      refine List.dropWhile_cons_of_neg ?_
      simpa using h
  rw [withoutBraces, htrim, hdrop hfront, hdrop (by rwa [List.head?_reverse]), List.reverse_reverse]

section Items

/-- The text of a simple statement without its semicolon: a scan closes its literals and brackets
and finds no separator in it, no brace stands at its ends, and on a line of its own it is no head
and no `else`. -/
@[mk_iff]
structure IsItem (text : List Char) : Prop where
  legible : Legible text 0
  nonempty : text ≠ []
  balanced : text.foldl Nesting.next .start = .start
  whole : topLevelPieces (· == ';') .start text = [text]
  elseless : Braced.elseless .code text = true
  unopened : text.head? ∉ [some '\x7b', some '\x7d', some '#']
  unclosed : text.getLast? ≠ some '\x7d'
  notFunction : functionHeader? (text ++ [';']) = none
  notIf : isIf (text ++ [';']) = false
  notElse : isElse (text ++ [';']) = false
  notWhile : isWhile (text ++ [';']) = false
  notFor : isFor (text ++ [';']) = false

attribute [mk_iff] Legible

instance (text : List Char) (balance : Int) : Decidable (Legible text balance) :=
  decidable_of_iff' _ (legible_iff text balance)

instance (text : List Char) : Decidable (IsItem text) := decidable_of_iff' _ (isItem_iff text)

/-- A simple statement without its semicolon. -/
structure Item where
  text : List Char
  isItem : IsItem text

namespace Item

/-- The literals of an item are closed, for they are where its brackets are followed. -/
theorem closed (s : Item) : s.text.foldl Quoting.next .code = .code := by
  have hquoting : ∀ (text : List Char) (n : Nesting),
      (text.foldl Nesting.next n).quoting = text.foldl Quoting.next n.quoting := by
    intro text
    induction text with
    | nil => exact fun _ => rfl
    | cons c text ih => exact fun n => ih (n.next c)
  have h := hquoting s.text .start
  rw [s.isItem.balanced] at h
  exact h.symm

/-- The text of a statement can stand in a head. -/
def toFragment (s : Item) : Fragment := ⟨s.text, s.isItem.legible, s.closed⟩

theorem exists_cons (s : Item) : ∃ c rest, s.text = c :: rest ∧ isBlank c = false ∧ c ≠ '\x7b' ∧
    c ≠ '\x7d' ∧ c ≠ '#' ∧ c ≠ ';' := by
  obtain ⟨c, rest, hs, hc⟩ := exists_cons_of_trim s.isItem.legible.trimmed s.isItem.nonempty
  have hopen := s.isItem.unopened
  have hwhole := s.isItem.whole
  rw [hs] at hopen hwhole
  simp only [List.head?_cons, List.mem_cons, Option.some_inj, List.not_mem_nil, or_false,
    not_or] at hopen
  refine ⟨c, rest, hs, hc, hopen.1, hopen.2.1, hopen.2.2, ?_⟩
  rintro rfl
  rw [topLevelPieces] at hwhole
  split at hwhole
  · cases hwhole
  · exact absurd ‹_› (topLevelPieces_ne_nil _ rest _)

theorem trim_semicolon (s : Item) : trim (s.text ++ [';']) = s.text ++ [';'] := by
  obtain ⟨c, rest, hs, hc, -⟩ := s.exists_cons
  rw [hs]
  exact trim_cons_concat hc rfl

/-- The statement on a line of its own. -/
def line (s : Item) : SimpleText where
  text := s.text ++ [';']
  legible := s.toFragment.between [] (by simp) (List.all_eq_true.1 rfl) (by decide) s.trim_semicolon
  nonempty := List.append_ne_nil_of_right_ne_nil _ (List.cons_ne_nil _ _)
  notClosing := by
    obtain ⟨c, rest, hs, -, -, hc, -⟩ := s.exists_cons
    rw [hs]
    simpa using hc
  notDirective := by
    obtain ⟨c, rest, hs, -, -, -, hc, -⟩ := s.exists_cons
    rw [hs]
    simpa using hc
  notFunction := s.isItem.notFunction
  notIf := s.isItem.notIf
  notElse := s.isItem.notElse
  notWhile := s.isItem.notWhile
  notFor := s.isItem.notFor

theorem isElse_text (s : Item) : isElse s.text = false :=
  (isElse_semicolon s.text []).symm.trans s.isItem.notElse

/-- An item with its semicolon is the first piece of a line. -/
theorem pieces_semicolon (s : Item) {more : List Char} :
    topLevelPieces (· == ';') .start (s.text ++ ';' :: more) =
      s.text :: topLevelPieces (· == ';') .start more := by
  have hnext : Nesting.start.next ';' = .start := rfl
  rw [topLevelPieces_separator (by rw [s.isItem.balanced]; rfl), s.isItem.whole, s.isItem.balanced,
    hnext, List.singleton_append]

theorem trimmed (s : Item) : trim s.text = s.text := s.isItem.legible.trimmed

theorem isEmpty_text (s : Item) : s.text.isEmpty = false := by
  simpa using s.isItem.nonempty

/-- Among other statements an item is run for itself. -/
theorem statements_text (s : Item) (host : Host) (line : Nat) :
    statements host line s.text = Flow.inTurn (statement host line) [s.text] := by
  have hbraces : withoutBraces s.text = s.text :=
    withoutBraces_eq s.trimmed (fun h => s.isItem.unopened (by rw [h]; decide))
      s.isItem.unclosed
  unfold statements
  rw [hbraces, splitSemicolons, filter_splitTopLevel, s.isItem.whole]
  simp [s.trimmed, s.isEmpty_text]

/-- On a line of its own an item does what it does among others. -/
theorem run_line (s : Item) (host : Host) (line : Nat) :
    s.line.run host line = statements host line s.text := by
  obtain ⟨c, rest, hs, hc, hopen, hclose, -, hsemicolon⟩ := s.exists_cons
  have hcode : isPunctuation (s.text ++ [';']) = false := by
    simp [hs, isPunctuation, hc, hopen, hclose, hsemicolon]
  have hhead : (s.text ++ [';']).head? ≠ some '\x7b' := by
    rw [hs]
    simpa using hopen
  have hbraces : withoutBraces (s.text ++ [';']) = s.text ++ [';'] :=
    withoutBraces_eq s.trim_semicolon hhead (by simp)
  funext scope
  unfold SimpleText.run
  have hline : s.line.text = s.text ++ [';'] := rfl
  rw [hline, hcode, if_neg Bool.false_ne_true, s.statements_text]
  unfold statements
  rw [hbraces, splitSemicolons, filter_splitTopLevel, s.pieces_semicolon]
  -- Behind the semicolon stands one more piece, which is blank.
  have hlast : topLevelPieces (· == ';') .start [] = [[]] := rfl
  have hblank : trim [] = [] := rfl
  simp [hlast, hblank, s.trimmed, s.isEmpty_text]

end Item

/-- Several statements on one line, with a blank in front of each. -/
def joined (items : List Item) : List Char :=
  items.flatMap fun s => ' ' :: (s.text ++ [';'])

variable (s : Item) (items : List Item)

theorem joined_cons (tail : List Char) :
    joined (s :: items) ++ tail = ' ' :: (s.text ++ ';' :: (joined items ++ tail)) := by
  simp [joined]

theorem passage_joined : ∀ items : List Item, Passage (joined items) 0
  | [] => .of_plain (by simp [joined])
  | s :: items => by
    have hfirst : Passage ([' '] ++ (s.text ++ [';'])) 0 :=
      s.toFragment.passage.between (List.all_eq_true.1 rfl) (List.all_eq_true.1 rfl) (by decide)
    have hlast : ([' '] ++ (s.text ++ [';'])).getLast? ≠ some '/' := by
      rw [← List.append_assoc, List.getLast?_concat]
      decide
    exact hfirst.append (passage_joined items) (.inl hlast)

/-- The pieces of joined statements in front of a text without semicolons. -/
theorem pieces_joined (tail : List Char) (htail : topLevelPieces (· == ';') .start tail = [tail]) :
    ∀ items : List Item, topLevelPieces (· == ';') .start (joined items ++ tail) =
      items.map (fun s => ' ' :: s.text) ++ [tail]
  | [] => htail
  | s :: items => by
    have hblank : Nesting.start.next ' ' = .start := rfl
    rw [joined_cons, topLevelPieces, hblank, s.pieces_semicolon, pieces_joined tail htail items]
    rfl

theorem filter_trim_items (items : List Item) :
    ((items.map fun s => ' ' :: s.text).map trim).filter (fun t => !t.isEmpty) =
      items.map fun s => s.text := by
  induction items with
  | nil => rfl
  | cons s items ih =>
    rw [List.map_cons, List.map_cons, trim_cons_blank rfl, s.trimmed, List.filter_cons,
      s.isEmpty_text, ih]
    rfl

/-- Nothing of joined statements is an `else`, nor is what stands in front of them. -/
theorem elseless_joined (tail : List Char) (htail : elseless .code tail = true)
    (helse : isElse (trimLeft tail) = false) : ∀ items : List Item,
    elseless .code (joined items ++ tail) = true ∧ isElse (trimLeft (joined items ++ tail)) = false
  | [] => ⟨htail, helse⟩
  | s :: items => by
    obtain ⟨hrest, hnone⟩ := elseless_joined tail htail helse items
    have hblank : trimLeft (' ' :: (s.text ++ ';' :: (joined items ++ tail))) =
        trimLeft (s.text ++ ';' :: (joined items ++ tail)) := trimLeft_cons_blank rfl
    rw [joined_cons]
    constructor
    · have hnext : Quoting.code.next ';' = .code := rfl
      have hfirst : elseless .code (s.text ++ ';' :: (joined items ++ tail)) = true := by
        rw [elseless_semicolon, s.isItem.elseless, s.closed, elseless, hnone, hnext, hrest]
        rfl
      exact hfirst
    · rw [hblank, isElse_trimLeft_semicolon, trimLeft_of_trim s.trimmed, s.isElse_text]

theorem getLast?_joined : ∀ items : List Item, (';' :: joined items).getLast? = some ';'
  | [] => rfl
  | s :: items => by
    have happend : ';' :: joined (s :: items) = ';' :: ' ' :: s.text ++ ';' :: joined items := by
      simp [joined]
    rw [happend, List.getLast?_append, getLast?_joined items]
    rfl

theorem trim_joined : trim (s.text ++ ';' :: joined items) = s.text ++ ';' :: joined items := by
  obtain ⟨c, text, hs, hc, -⟩ := s.exists_cons
  obtain ⟨front, hfront⟩ := List.getLast?_eq_some_iff.1 (getLast?_joined items)
  have hconcat : s.text ++ ';' :: joined items = c :: (text ++ front) ++ [';'] := by
    rw [hs, hfront]
    simp
  rw [hconcat]
  exact trim_cons_concat hc rfl

end Items

section Lines

/-- What stands in front of a body on the same line. -/
inductive Opener
  | branch (guard : Guard)
  | whileLoop (guard : Guard)
  | forLoop (clauses : Clauses)

/-- The word in front of the parentheses. -/
def Opener.keyword : Opener → List Char
  | branch _ => "if ".toList
  | whileLoop _ => "while ".toList
  | forLoop _ => "for ".toList

/-- What stands between the parentheses. -/
def Opener.guard : Opener → Guard
  | branch guard => guard
  | whileLoop guard => guard
  | forLoop clauses => clauses.toGuard

/-- The shape of a line with a text behind the head. -/
def Opener.shape (rest : List Char) : Opener → Shape
  | branch _ => .branch
  | whileLoop guard => .whileLoop guard.text rest
  | forLoop clauses => .forLoop ⟨clauses.text, clauses.init, clauses.test, clauses.step, rest⟩

theorem Opener.exists_cons (o : Opener) : ∃ c word, o.keyword = c :: word ∧
    isBlank c = false ∧ c ≠ '\x7d' ∧ c ≠ '#' ∧ isPunctuation [c] = false := by
  cases o with
  | branch _ => exact ⟨'i', "f ".toList, rfl, by decide⟩
  | whileLoop _ => exact ⟨'w', "hile ".toList, rfl, by decide⟩
  | forLoop _ => exact ⟨'f', "or ".toList, rfl, by decide⟩

theorem Opener.not_mem_keyword (o : Opener) : '(' ∉ o.keyword := by
  cases o <;> rw [keyword] <;> decide

/-- A compound statement whose body stands on the line of its head, in braces or without. Without
braces there is some statement. -/
structure OneLine (braced : Bool) where
  opener : Opener
  items : List Item
  filled : braced = true ∨ items ≠ []

variable {braced : Bool}

namespace OneLine

/-- What stands behind the parentheses of the head. -/
def tail (o : OneLine braced) : List Char :=
  if braced then " \x7b".toList ++ (joined o.items ++ " \x7d".toList) else joined o.items

/-- The whole line. -/
def text (o : OneLine braced) : List Char :=
  o.opener.keyword ++ '(' :: (o.opener.guard.text ++ ')' :: o.tail)

/-- The texts of the statements. -/
def texts (o : OneLine braced) : List (List Char) := o.items.map fun s => s.text

/-- The body as it is found behind the head. -/
def rest : {braced : Bool} → OneLine braced → List Char
  | true, o => '\x7b' :: (joined o.items ++ [' ', '\x7d'])
  | false, o => (joined o.items).drop 1

theorem exists_rest (o : OneLine false) : ∃ s items, o.items = s :: items ∧
    o.tail = ' ' :: (s.text ++ ';' :: joined items) ∧ o.rest = s.text ++ ';' :: joined items := by
  obtain ⟨s, items, hitems⟩ := List.exists_cons_of_ne_nil (o.filled.resolve_left Bool.false_ne_true)
  have hjoined := joined_cons s items []
  rw [List.append_nil, List.append_nil] at hjoined
  refine ⟨s, items, hitems, ?_, ?_⟩
  · rw [tail, hitems, hjoined]
    rfl
  · rw [rest, hitems, hjoined]
    rfl

theorem trim_tail : ∀ {braced : Bool} (o : OneLine braced), trim o.tail = o.rest
  | true, o => by
    have htail : o.tail = ' ' :: ('\x7b' :: (joined o.items ++ [' ']) ++ ['\x7d']) := by
      simp [tail]
    have hrest : o.rest = '\x7b' :: (joined o.items ++ [' ']) ++ ['\x7d'] := by
      simp [rest]
    rw [htail, hrest, trim_cons_blank rfl]
    exact trim_cons_concat rfl rfl
  | false, o => by
    obtain ⟨s, items, -, htail, hrest⟩ := o.exists_rest
    rw [htail, hrest, trim_cons_blank rfl, trim_joined]

/-- The head does not open a block below. -/
theorem rest_ne : ∀ {braced : Bool} (o : OneLine braced), o.rest ≠ [] ∧ o.rest ≠ ['\x7b']
  | true, o => by simp [rest]
  | false, o => by
    obtain ⟨s, items, -, -, hrest⟩ := o.exists_rest
    obtain ⟨c, text, hs, -, hc, -⟩ := s.exists_cons
    rw [hrest, hs]
    simp [hc]

theorem splitElse?_rest : ∀ {braced : Bool} (o : OneLine braced), splitElse? o.rest = none
  | true, o => by
    have hinner := (elseless_joined [' ', '\x7d'] rfl rfl o.items).1
    exact splitElseFrom_eq_none (s := .start) hinner
  | false, o => by
    obtain ⟨s, items, -, -, hrest⟩ := o.exists_rest
    have hjoined := (elseless_joined [] rfl rfl (s :: items)).1
    rw [joined_cons, List.append_nil] at hjoined
    rw [hrest]
    exact splitElseFrom_eq_none (s := .start) hjoined

/-- The statements that are found behind the head are those of the body. -/
theorem inlineStatements_rest : ∀ {braced : Bool} (o : OneLine braced),
    inlineStatements o.rest = o.texts
  | true, o => by
    have hlast : (joined o.items ++ [' ', '\x7d']).getLast? = some '\x7d' := by simp
    have hinner : (joined o.items ++ [' ', '\x7d']).dropLast = joined o.items ++ [' '] := by
      rw [List.dropLast_append_of_ne_nil (by simp)]
      rfl
    have hblank : trim [' '] = [] := by decide
    rw [rest, inlineStatements, hlast, if_pos (by decide), hinner, splitSemicolons,
      filter_splitTopLevel, pieces_joined [' '] rfl, List.map_append, List.filter_append,
      filter_trim_items, List.map_singleton, hblank]
    exact List.append_nil _
  | false, o => by
    obtain ⟨s, items, hitems, -, hrest⟩ := o.exists_rest
    obtain ⟨c, text, hs, -, hc, -⟩ := s.exists_cons
    have hpieces := pieces_joined [] rfl items
    have hblank : trim [] = [] := rfl
    rw [List.append_nil] at hpieces
    rw [hrest, inlineStatements]
    · rw [splitSemicolons, filter_splitTopLevel, s.pieces_semicolon, hpieces, List.map_cons,
        s.trimmed, List.map_append, List.filter_cons, s.isEmpty_text, List.filter_append,
        filter_trim_items, List.map_singleton, hblank, texts, hitems, List.map_cons]
      exact congrArg (s.text :: ·) (List.append_nil _)
    · intro inner hbrace
      rw [hs] at hbrace
      exact hc (List.cons.inj hbrace).1

theorem passage_tail : ∀ {braced : Bool} (o : OneLine braced), Passage o.tail 0
  | true, o => (passage_joined o.items).between (List.all_eq_true.1 rfl) (List.all_eq_true.1 rfl)
      (by decide)
  | false, o => passage_joined o.items

theorem exists_concat_tail : ∀ {braced : Bool} (o : OneLine braced),
    ∃ front z, o.tail = front ++ [z] ∧ isBlank z = false
  | true, o => ⟨" \x7b".toList ++ (joined o.items ++ [' ']), '\x7d', by simp [tail], rfl⟩
  | false, o => by
    obtain ⟨s, items, -, htail, -⟩ := o.exists_rest
    obtain ⟨front, hfront⟩ := List.getLast?_eq_some_iff.1 (getLast?_joined items)
    exact ⟨' ' :: (s.text ++ front), ';', by rw [htail, hfront]; simp, rfl⟩

/-- The line can be read, and leaves no brace open. -/
theorem legible (o : OneLine braced) : Legible o.text 0 := by
  have hhead : Passage (o.opener.keyword ++ ['('] ++ (o.opener.guard.text ++ [')'])) 0 := by
    cases o.opener <;>
      exact (Guard.toFragment _).passage.between (List.all_eq_true.1 rfl) (List.all_eq_true.1 rfl)
        (by decide)
  have hlast : (o.opener.keyword ++ ['('] ++ (o.opener.guard.text ++ [')'])).getLast? ≠
      some '/' := by
    rw [← List.append_assoc, List.getLast?_concat]
    decide
  have htext : o.opener.keyword ++ ['('] ++ (o.opener.guard.text ++ [')']) ++ o.tail = o.text := by
    simp [text]
  have hpassage := hhead.append o.passage_tail (.inl hlast)
  rw [htext] at hpassage
  refine hpassage.legible ?_
  obtain ⟨front, z, hz, hblank⟩ := o.exists_concat_tail
  obtain ⟨c, keyword, hkeyword, hc, -⟩ := o.opener.exists_cons
  have hconcat : o.text =
      c :: (keyword ++ '(' :: (o.opener.guard.text ++ ')' :: front)) ++ [z] := by
    rw [text, hkeyword, hz]
    simp
  rw [hconcat]
  exact trim_cons_concat hc hblank

theorem reads (o : OneLine braced) : Reads (.plain o.text) 0 0 := by
  have h := o.legible
  obtain ⟨c, keyword, hkeyword, hc, hclosing, hdirective, hcode⟩ := o.opener.exists_cons
  rw [text, hkeyword, List.cons_append] at h ⊢
  have hrow := reads_legible [] h (by simp) hc hclosing hdirective
  rwa [codeOf_cons hcode] at hrow

theorem text_ne_nil (o : OneLine braced) : o.text ≠ [] :=
  List.append_ne_nil_of_right_ne_nil _ (List.cons_ne_nil _ _)

theorem notFunction (o : OneLine braced) : functionHeader? o.text = none := by
  rw [text]
  cases o.opener <;> rfl

theorem notElse (o : OneLine braced) : isElse o.text = false := by
  rw [text]
  cases o.opener <;> rfl

theorem header?_text (o : OneLine braced) :
    header? o.text = some (o.opener.guard.text, o.rest) := by
  rw [text, header?_tail _ o.opener.not_mem_keyword, o.trim_tail]

/-- What the line does. -/
def run (o : OneLine braced) (host : Host) (line : Nat) : Block :=
  let body := Flow.inTurn (statements host line) o.texts
  match o.opener with
  | .branch guard => runBranch host line guard.text body fun scope => pure { scope }
  | .whileLoop guard => (Head.whileLoop guard).run host line body
  | .forLoop clauses => (Head.forLoop clauses).run host line body

theorem bodyAt_rest (o : OneLine braced) (p : Program) (i : Nat) :
    bodyAt p i o.rest = .inline i o.texts := by
  obtain ⟨hempty, hbrace⟩ := o.rest_ne
  rw [bodyAt, bodyWith, o.inlineStatements_rest]
  simp [hempty, hbrace]

section Running

variable {p : Program} {d i : Nat} {rest : List Line}

/-- The chain of a branch on one line ends there. -/
theorem chainAt_eq (o : OneLine braced) (hp : Placed p i [(d, .plain o.text)] rest)
    (hr : EndsStatement .braced d rest) :
    chainAt p i = .guarded i o.opener.guard.text (.inline i o.texts) (skipElse p d (i + 1))
      (.done (i + 1)) := by
  have hread : BranchLine.read (p.line i).text = .last o.opener.guard.text o.rest := by
    rw [hp.line, Row.line, Row.plain, BranchLine.read, BranchLine.readWith, o.header?_text]
    dsimp only
    rw [o.splitElse?_rest]
  have hdepth : (p.line i).depth = d := by rw [hp.line, Row.line]
  have hnone := notElse_end (p := p) (d := d) (i := i + 1) (hp.tail ▸ hr)
  rw [chainAt, hdepth, chainFrom_fixed p d hp.lt_size, chainStep, hread, chainWith, o.bodyAt_rest]
  dsimp only [Body.resume]
  rw [hnone]
  rfl

/-- The shape of a line is that of its opener, whatever the body is. -/
theorem shape_text (o : OneLine braced) : shape o.text = o.opener.shape o.rest := by
  have hheader := o.header?_text
  rw [Braced.shape, o.notFunction, o.notElse]
  cases ho : o.opener with
  | branch guard =>
    have hif : isIf o.text = true := by rw [text, ho]; rfl
    rw [hif]
    rfl
  | whileLoop guard =>
    have hif : isIf o.text = false := by rw [text, ho]; rfl
    have hwhile : isWhile o.text = true := by rw [text, ho]; rfl
    rw [ho] at hheader
    rw [hif, hwhile, hheader]
    rfl
  | forLoop clauses =>
    have hif : isIf o.text = false := by rw [text, ho]; rfl
    have hwhile : isWhile o.text = false := by rw [text, ho]; rfl
    have hfor : isFor o.text = true := by rw [text, ho]; rfl
    have hclauses : splitSemicolons o.opener.guard.text =
        [clauses.init, clauses.test, clauses.step] := by
      rw [ho]
      exact clauses.clauses
    rw [hif, hwhile, hfor, forHeader?, hheader, Option.bind_eq_bind, Option.bind_some]
    dsimp only
    rw [hclauses, ho]
    rfl

/-- A line with a body does what the compound statement does, and goes on below. -/
theorem goesOn (o : OneLine braced) (host : Host) (block : Extent → Block)
    (hp : Placed p i [(d, .plain o.text)] rest) (hr : EndsStatement .braced d rest)
    (scope : Scope) : GoesOn p (i + 1) (runLine host p block i scope) (o.run host i scope) := by
  have hshape := o.shape_text
  have hbody := o.bodyAt_rest p i
  have htext : (p.line i).text = o.text := by rw [hp.line, Row.line, Row.plain]
  unfold runLine run
  rw [htext]
  cases ho : o.opener with
  | branch guard =>
    have hchain := o.chainAt_eq hp hr
    rw [ho, Opener.shape] at hshape
    rw [ho] at hchain
    simp only [hshape, hchain]
    -- Behind a body that has run the lines with an `else` are skipped; there are none.
    refine goesOn_guarded ?_ rfl scope
    show p.nextCodeLine (skipElse p d (i + 1)) = _
    rw [skipElse_end (hp.tail ▸ hr), p.nextCodeLine_nextCodeLine]
  | whileLoop guard =>
    rw [ho, Opener.shape] at hshape
    simp only [hshape, hbody, Head.run]
    refine .of_eq rfl ?_
    rw [bind_assoc]
    rfl
  | forLoop clauses =>
    rw [ho, Opener.shape] at hshape
    simp only [hshape, hbody, Head.run]
    exact .of_eq rfl rfl

end Running

end OneLine

/-- The simple statements, and compound statements that take one line each. -/
def oneLines (braced : Bool) : Simples where
  Simple := SimpleText ⊕ OneLine braced
  row := Sum.elim plain.row fun o => .plain o.text
  run host line := Sum.elim (plain.run host line) fun o => o.run host line
  legible
    | .inl s => plain.legible s
    | .inr o => o.legible
  reads
    | .inl s => plain.reads s
    | .inr o => o.reads
  code
    | .inl s => plain.code s
    | .inr o => .inl ⟨o.text_ne_nil, o.notElse⟩
  notFunction
    | .inl s => plain.notFunction s
    | .inr o => o.notFunction
  runs host block
    | .inl s => plain.runs host block s
    | .inr o => o.goesOn host block

end Lines

end Braced

end Stepwise
