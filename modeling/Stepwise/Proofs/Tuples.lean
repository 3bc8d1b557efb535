import Stepwise.Indented.Statement
import Stepwise.Proofs.AssignmentTexts
import Stepwise.Proofs.IntegerMeaning
import Stepwise.Proofs.Locality

/-!
# Assignments of tuples

The parts of a tuple are variables and elements, with commas between them. A scan that looks for
commas or the equals sign finds those between the parts only, because an index made of integers,
variables, signs, sums, differences and products closes each parenthesis that it opens
(`IndexMeans.balanced`). So an assignment of as many parts as there are targets is cut into its
parts again; it evaluates all the sources and then writes the values from left to right
(`simple_tuple`).
-/

namespace Stepwise

open Text Token

namespace Source

/-- A character that may end a part of an assignment or begin a literal. -/
def isBreak (c : Char) : Bool := c == ',' || c == '=' || isQuote c

/-- No part ends in the text and no literal begins, and as many brackets are closed as opened. -/
structure Balanced (text : List Char) : Prop where
  unbroken : ∀ c ∈ text, isBreak c = false
  closed : text.countP isOpener = text.countP isCloser

variable {text front rest : List Char} {s : Nesting}

theorem Balanced.append (hfront : Balanced front) (htext : Balanced text) :
    Balanced (front ++ text) where
  unbroken := List.forall_mem_append.2 ⟨hfront.unbroken, htext.unbroken⟩
  closed := by rw [List.countP_append, List.countP_append, hfront.closed, htext.closed]

/-- The characters that a scan for the parts of an assignment looks at. -/
def scanned : List Char := [',', '=', '"', '\'', '(', '[', '\x7b', ')', ']', '\x7d']

theorem plain_of_not_mem {c : Char} (h : c ∉ scanned) :
    isBreak c = false ∧ isOpener c = false ∧ isCloser c = false := by
  simp only [scanned, List.mem_cons, List.not_mem_nil, or_false, not_or] at h
  simp [isBreak, isQuote, isOpener, isCloser, h]

theorem balanced_of_not_mem (h : ∀ c ∈ text, c ∉ scanned) : Balanced text where
  unbroken c hc := (plain_of_not_mem (h c hc)).1
  closed := by
    rw [List.countP_eq_zero.2 fun c hc => by simp [plain_of_not_mem (h c hc)],
      List.countP_eq_zero.2 fun c hc => by simp [plain_of_not_mem (h c hc)]]

theorem balanced_of_all (h : text.all (fun c => !scanned.contains c) = true) : Balanced text := by
  refine balanced_of_not_mem fun c hc hmem => ?_
  have hnot := List.all_eq_true.1 h c hc
  rw [List.contains_iff_mem.2 hmem] at hnot
  cases hnot

/-- A text whose characters are all of a class that no scan looks at. -/
theorem balanced_of_class {p : Char → Bool} (hp : scanned.all (fun c => !p c) = true)
    (h : ∀ c ∈ text, p c = true) : Balanced text := by
  refine balanced_of_not_mem fun c hc hmem => ?_
  have hnot := List.all_eq_true.1 hp c hmem
  rw [h c hc] at hnot
  cases hnot

theorem not_closer_of_opener {c : Char} (h : isOpener c = true) :
    isBreak c = false ∧ isCloser c = false := by
  simp only [isOpener, Bool.or_eq_true, beq_iff_eq] at h
  rcases h with (rfl | rfl) | rfl <;> decide

theorem not_opener_of_closer {c : Char} (h : isCloser c = true) :
    isBreak c = false ∧ isOpener c = false := by
  simp only [isCloser, Bool.or_eq_true, beq_iff_eq] at h
  rcases h with (rfl | rfl) | rfl <;> decide

theorem Balanced.bracketed {o c : Char} (ho : isOpener o = true) (hc : isCloser c = true)
    (h : Balanced text) : Balanced (o :: (text ++ [c])) := by
  obtain ⟨hobreak, hocloser⟩ := not_closer_of_opener ho
  obtain ⟨hcbreak, hcopener⟩ := not_opener_of_closer hc
  constructor
  · simp only [List.forall_mem_cons, List.forall_mem_append]
    exact ⟨hobreak, h.unbroken, hcbreak, List.forall_mem_nil _⟩
  · simp [List.countP_append, ho, hc, hocloser, hcopener, h.closed]

/-- Without literals, the state of a scan is the number of open brackets. -/
theorem foldl_next (h : ∀ c ∈ text, isBreak c = false) : ∀ d : Int,
    text.foldl Nesting.next ⟨.code, d⟩ =
      ⟨.code, d + text.countP isOpener - text.countP isCloser⟩ := by
  induction text with
  | nil => intro d; simp
  | cons c text ih =>
    intro d
    rw [List.forall_mem_cons] at h
    have hquote : isQuote c = false := by
      have hc := h.1
      simp only [isBreak, Bool.or_eq_false_iff] at hc
      exact hc.2
    have hnext : Nesting.next ⟨.code, d⟩ c =
        ⟨.code, if isOpener c then d + 1 else if isCloser c then d - 1 else d⟩ := by
      simp [Nesting.next, Quoting.next, Quoting.seesCode, hquote]
    rw [List.foldl_cons, hnext, ih h.2, List.countP_cons, List.countP_cons]
    congr 1
    split_ifs with ho hc hc
    · rw [(not_closer_of_opener ho).2] at hc
      cases hc
    all_goals push_cast; omega

theorem Balanced.not_mem (h : Balanced text) : ',' ∉ text ∧ '=' ∉ text :=
  ⟨fun hc => Bool.noConfusion (h.unbroken _ hc), fun hc => Bool.noConfusion (h.unbroken _ hc)⟩

theorem Balanced.neutral (h : Balanced text) : Neutral text := by
  rw [Neutral, Nesting.start, foldl_next h.unbroken, h.closed]
  simp

theorem split?_eq_none (h : '=' ∉ text) : Assignment.split? text = none := by
  have happend := @Assignment.splitFrom_append_of_not_meets .start text [] (not_meets_of_not_mem h) []
  rw [List.append_nil] at happend
  exact happend

/-- A text that is found again between commas: neither end of it is blank. -/
structure Piece (text : List Char) : Prop extends Balanced text where
  nonempty : text ≠ []
  trimmed : trim text = text

/-- Texts with commas between them. -/
def tupleText (parts : List (List Char)) : List Char := [',', ' '].intercalate parts

theorem tupleText_singleton (part : List Char) : tupleText [part] = part := by
  simp [tupleText, List.intercalate]

theorem tupleText_cons (part next : List Char) (parts : List (List Char)) :
    tupleText (part :: next :: parts) = part ++ ',' :: ' ' :: tupleText (next :: parts) := rfl

/-- The parts of a tuple are found between its commas. -/
theorem topLevelPieces_tupleText : ∀ {part : List Char} {parts : List (List Char)},
    (∀ t ∈ part :: parts, Piece t) →
      topLevelPieces (· == ',') .start (tupleText (part :: parts)) =
        part :: parts.map (' ' :: ·)
  | part, parts, h => by
    obtain ⟨hpart, hparts⟩ := List.forall_mem_cons.1 h
    have hwhole : topLevelPieces (· == ',') .start part = [part] :=
      topLevelPieces_eq_singleton_iff.2 (not_meets_of_not_mem hpart.not_mem.1)
    cases parts with
    | nil =>
      rw [tupleText_singleton, hwhole]
      rfl
    | cons next parts =>
      have hcomma : Nesting.start.next ',' = .start := rfl
      have hblank : Nesting.start.next ' ' = .start := rfl
      rw [tupleText_cons, topLevelPieces_separator (by rw [hpart.neutral]; rfl), hwhole,
        hpart.neutral, hcomma, topLevelPieces, hblank, topLevelPieces_tupleText hparts]
      rfl

/-- The parts are found again. -/
theorem splitCommas_tupleText : ∀ {parts : List (List Char)}, 2 ≤ parts.length →
    (∀ t ∈ parts, Piece t) → splitCommas (tupleText parts) = parts
  | part :: next :: parts, _, h => by
    have hpieces : (topLevelPieces (· == ',') .start (tupleText (part :: next :: parts))).map trim =
        part :: next :: parts := by
      rw [topLevelPieces_tupleText h, List.map_cons, List.map_map,
        (h part List.mem_cons_self).trimmed]
      congr 1
      refine (List.map_congr_left fun t ht => ?_).trans (List.map_id _)
      rw [Function.comp, trim_cons_blank rfl, (h t (List.mem_cons_of_mem part ht)).trimmed]
      rfl
    unfold splitCommas splitTopLevel
    rw [hpieces]
    cases part <;> rfl

theorem trim_of_nonblank (h : ∀ c ∈ text, isBlank c = false) : trim text = text := by
  have hreverse : ∀ c ∈ text.reverse, isBlank c = false := fun c hc => h c (List.mem_reverse.1 hc)
  rw [trim, trimLeft, Number.dropWhile_eq_self h, trimRight, Number.dropWhile_eq_self hreverse,
    List.reverse_reverse]

theorem trim_between {front back : List Char} (mid : List Char)
    (hfront : front ≠ [] ∧ trim front = front) (hback : back ≠ [] ∧ trim back = back) :
    trim (front ++ (mid ++ back)) = front ++ (mid ++ back) := by
  obtain ⟨c, tail, rfl, hc⟩ := exists_cons_of_trim hfront.2 hfront.1
  obtain ⟨init, z, rfl, hz⟩ := exists_concat_of_trim hback.2 hback.1
  have hassoc : c :: tail ++ (mid ++ (init ++ [z])) = c :: (tail ++ mid ++ init) ++ [z] := by simp
  rw [hassoc, trim_cons_concat hc hz]

theorem trim_tupleText : ∀ {parts : List (List Char)}, parts ≠ [] →
    (∀ t ∈ parts, Piece t) → tupleText parts ≠ [] ∧ trim (tupleText parts) = tupleText parts
  | [part], _, h => by
    rw [tupleText_singleton]
    exact ⟨(h part List.mem_cons_self).nonempty, (h part List.mem_cons_self).trimmed⟩
  | part :: next :: parts, _, h => by
    obtain ⟨hpart, hparts⟩ := List.forall_mem_cons.1 h
    rw [tupleText_cons]
    exact ⟨List.append_ne_nil_of_left_ne_nil hpart.nonempty _, trim_between [',', ' ']
      ⟨hpart.nonempty, hpart.trimmed⟩ (trim_tupleText (List.cons_ne_nil _ _) hparts)⟩

theorem sign_not_mem_tupleText : ∀ {parts : List (List Char)}, (∀ t ∈ parts, Piece t) →
    '=' ∉ tupleText parts
  | [], _ => List.not_mem_nil
  | [part], h => by
    rw [tupleText_singleton]
    exact (h part List.mem_cons_self).not_mem.2
  | part :: next :: parts, h => by
    obtain ⟨hpart, hparts⟩ := List.forall_mem_cons.1 h
    rw [tupleText_cons]
    simp only [List.mem_append, List.mem_cons, not_or]
    exact ⟨hpart.not_mem.2, by decide, by decide, sign_not_mem_tupleText hparts⟩

theorem neutral_tupleText : ∀ {parts : List (List Char)}, (∀ t ∈ parts, Piece t) →
    Neutral (tupleText parts)
  | [], _ => rfl
  | [part], h => by
    rw [tupleText_singleton]
    exact (h part List.mem_cons_self).neutral
  | part :: next :: parts, h => by
    obtain ⟨hpart, hparts⟩ := List.forall_mem_cons.1 h
    rw [Neutral, tupleText_cons, List.foldl_append, hpart.neutral]
    exact neutral_tupleText hparts

/-- An assignment of some parts to others. -/
def tupleAssignment (targets sources : List (List Char)) : List Char :=
  tupleText targets ++ ' ' :: '=' :: ' ' :: tupleText sources

theorem split?_tupleAssignment {targets sources : List (List Char)} (htne : targets ≠ [])
    (ht : ∀ t ∈ targets, Piece t) (hsne : sources ≠ []) (hs : ∀ t ∈ sources, Piece t) :
    Assignment.split? (tupleAssignment targets sources) =
      some ⟨tupleText targets, none, tupleText sources⟩ := by
  obtain ⟨htne, httrim⟩ := trim_tupleText htne ht
  obtain ⟨hsne, hstrim⟩ := trim_tupleText hsne hs
  have hwritable : Assignment.Writable ⟨tupleText targets, none, tupleText sources⟩ :=
    ⟨htne, hsne, ⟨httrim, hstrim⟩, neutral_tupleText ht,
      not_meets_of_not_mem (sign_not_mem_tupleText ht), List.mem_cons_self⟩
  have htext : tupleAssignment targets sources =
      Assignment.written ⟨tupleText targets, none, tupleText sources⟩ := by
    simp [tupleAssignment, Assignment.written, Assignment.opSymbol]
  rw [htext, hwritable.split?_eq]

theorem chain_tuple (target : List Char) {sources : List (List Char)}
    (hs : ∀ t ∈ sources, Piece t) :
    (Assignment.mk target none (tupleText sources)).chain = ([target], tupleText sources) := by
  have hnone := split?_eq_none (sign_not_mem_tupleText hs)
  have hunchain : ∀ fuel,
      Assignment.unchain fuel (tupleText sources) = ([], tupleText sources) := by
    intro fuel
    cases fuel with
    | zero => rfl
    | succ fuel => rw [Assignment.unchain, hnone]
  unfold Assignment.chain
  simp only [hunchain]

end Source

open Source

namespace Token

variable {dialect : Dialect} {lexeme : List Char}

theorem Lexed.mark {kind : TokenKind} (h : Lexed dialect ⟨kind, lexeme⟩) :
    (kind = .leftParen → lexeme = ['(']) ∧ (kind = .rightParen → lexeme = [')']) := by
  obtain ⟨text, rest, h⟩ := h
  simp only [first?, Option.orElse_eq_orElse, Option.orElse_eq_or, Option.or_eq_some_iff,
    Option.map_eq_some_iff] at h
  rcases h with ⟨_, -, hk⟩ | ⟨-, ⟨_, -, hk⟩ | ⟨-, ⟨_, -, hk⟩ | ⟨-, ⟨_, -, hk⟩ |
    ⟨-, ⟨_, -, hk⟩ | ⟨-, h⟩⟩⟩⟩⟩
  iterate 5
    · cases hk
      simp
  · unfold mark? at h
    split at h
    · split_ifs at h <;> cases h <;> simp_all
    · cases h

theorem balanced_of_isName (h : isName lexeme = true) : Balanced lexeme := by
  have hword : scanned.all (fun c => !isWord c) = true := by decide
  exact balanced_of_class hword (isWord_of_isName h)

theorem Lexed.balanced_number (h : Lexed dialect ⟨.number, lexeme⟩) : Balanced lexeme := by
  obtain ⟨text, rest, h⟩ := h
  obtain ⟨m, e, suffix, rfl, hm, he, hs⟩ := number?_shape (first?_cutAs h)
  have hnumeric : scanned.all (fun c => !Number.isNumeric c) = true := by decide
  have hsuffix : scanned.all (fun c => !isNumberSuffix c) = true := by decide
  exact ((balanced_of_class hnumeric hm.isNumeric).append
    (balanced_of_class hnumeric he.isNumeric)).append (balanced_of_class hsuffix hs)

/-- The characters of a text are those of its tokens, blanks aside. -/
theorem CutInto.countP {text : List Char} {ts : List Token} {p : Char → Bool}
    (h : CutInto dialect text ts) (hp : ∀ c, isBlank c = true → p c = false) :
    text.countP p = (ts.flatMap Token.text).countP p := by
  induction h with
  | nil => rfl
  | blank hc _ ih => simp [hp _ hc, ih]
  | token hfirst _ ih =>
    obtain ⟨-, htext⟩ := first?_takes hfirst
    rw [← htext, List.countP_append, ih, List.flatMap_cons, List.countP_append]

/-- A text balances if its tokens do. -/
theorem CutInto.balanced {text : List Char} {ts : List Token} (h : CutInto dialect text ts)
    (hts : Balanced (ts.flatMap Token.text)) : Balanced text := by
  have hbreak : ∀ c, isBlank c = true → isBreak c = false := by
    intro c hc
    refine (plain_of_not_mem fun hmem => ?_).1
    have hnot : scanned.all (fun c => !isBlank c) = true := by decide
    have hnot := List.all_eq_true.1 hnot c hmem
    rw [hc] at hnot
    cases hnot
  have hnone : (ts.flatMap Token.text).countP isBreak = 0 :=
    List.countP_eq_zero.2 fun c hc => by simp [hts.unbroken c hc]
  have hcount := (h.countP hbreak).trans hnone
  refine ⟨fun c hc => by simpa using List.countP_eq_zero.1 hcount c hc, ?_⟩
  rw [h.countP fun c hc => (isBlank_inert hc).2.1, h.countP fun c hc => (isBlank_inert hc).2.2,
    hts.closed]

end Token

/-- The value of an index made of integers, variables that hold integers, signs, sums, differences
and products. -/
inductive IndexMeans (scope : Scope) : Expr → Int → Prop
  | int (n : Int) : IndexMeans scope (.lit (.int n)) n
  | var {name : String} {n : Int} : scope.get? name = some (.int n) →
    IndexMeans scope (.var name) n
  | neg {e : Expr} {x : Int} : IndexMeans scope e x → IndexMeans scope (.unary .neg e) (-x)
  | pos {e : Expr} {x : Int} : IndexMeans scope e x → IndexMeans scope (.unary .pos e) x
  | function {op : BinaryOp} {f : Int → Int → Int} {a b : Expr} {x y : Int} :
    op.function? = some f → IndexMeans scope a x → IndexMeans scope b y →
    IndexMeans scope (.binary op a b) (f x y)

namespace IndexMeans

variable {scope : Scope} {e : Expr} {k : Int}

/-- The value of an index does not depend on any list. -/
theorem fixed? (h : IndexMeans scope e k) (heap : Heap) :
    e.fixed? .indented heap scope = some (.int k) := by
  induction h with
  | int n => rfl
  | var h => exact h
  | neg _ ih =>
    rw [Expr.fixed?, ih]
    rfl
  | pos _ ih =>
    rw [Expr.fixed?, ih]
    rfl
  | @function op f a b x y hop _ _ iha ihb =>
    rw [Expr.fixed?, iha, ihb]
    show (if op ∈ BinaryOp.applicable .indented ∧ _ then _ else _) = _
    rw [if_pos ⟨mem_applicable_of_function hop, rfl, rfl⟩, HeapM.integer?,
      Operator.apply_function hop]
    rfl

theorem balanced_operator {op : BinaryOp} {f : Int → Int → Int} (hop : op.function? = some f) :
    Balanced (op.tokens.flatMap Token.text) := by
  refine balanced_of_all ?_
  cases op <;> cases hop <;> decide

/-- The tokens of an index open as many parentheses as they close. -/
theorem balanced_tokens : ∀ {e : Expr} {ts : List Token}, Derives .indented e ts →
    Expr.AllLexed .indented ts → ∀ {k : Int}, IndexMeans scope e k →
      Balanced (ts.flatMap Token.text)
  | _, _, .literal h, ht, _, hk => by
    have ht := ht _ List.mem_cons_self
    rw [List.flatMap_singleton]
    cases h with
    | int => exact ht.balanced_number
    | char hc =>
      obtain ⟨text, rest, hfirst⟩ := ht
      cases first?_cutAs hfirst
    | float | string => cases hk
  | _, _, .constant _, ht, _, _ | _, _, .var _, ht, _, _ => by
    rw [List.flatMap_singleton]
    exact balanced_of_isName (ht _ List.mem_cons_self).isName
  | _, _, .paren (l := l) (r := r) hl hr h, ht, _, hk => by
    rw [Expr.allLexed_cons, Expr.allLexed_append] at ht
    have ih := balanced_tokens h ht.2.1 hk
    have hltext := ht.1.mark.1 hl
    have hrtext := (ht.2.2 r List.mem_cons_self).mark.2 hr
    rw [List.flatMap_cons, List.flatMap_append, List.flatMap_singleton, hltext, hrtext]
    exact ih.bracketed rfl rfl
  | _, _, .unary _ h, ht, _, hk => by
    rw [Expr.allLexed_cons] at ht
    rw [List.flatMap_cons]
    cases hk with
    | neg hk => exact (balanced_of_all (by decide)).append (balanced_tokens h ht.2 hk)
    | pos hk => exact (balanced_of_all (by decide)).append (balanced_tokens h ht.2 hk)
  | _, _, .binary _ ha hb, ht, _, hk => by
    rw [Expr.allLexed_append, Expr.allLexed_append] at ht
    cases hk with
    | function hop hka hkb =>
      rw [List.flatMap_append, List.flatMap_append]
      exact (balanced_tokens ha ht.1 hka).append
        ((balanced_operator hop).append (balanced_tokens hb ht.2.2 hkb))
  | _, _, .index _ _ _ _, _, _, hk | _, _, .call _ _ _, _, _, hk
  | _, _, .method _ _ _ _ _, _, _, hk | _, _, .list _ _ _ _, _, _, hk
  | _, _, .listComma _ _ _ _ _ _, _, _, hk => by cases hk

theorem balanced {text : List Char} (h : IndexMeans scope e k)
    (hparse : Expr.parse .indented text = .ok e) : Balanced text := by
  obtain ⟨ts, htext, hlexed, hderives⟩ := Expr.derives_of_parse hparse
  exact (tokenize_eq_ok_iff.1 htext).balanced (balanced_tokens hderives hlexed h)

end IndexMeans

/-- A name that stands for a variable. -/
structure IsVariable (name : String) : Prop where
  isName : Token.isName name.toList = true
  notKeyword : name ∉ keywords .indented
  notConstant : (constants .indented).lookup name = none

/-- A variable or an element of the list in one, as a part of a tuple. -/
inductive Part : List Char → Expr → Prop
  | var {name : String} : IsVariable name → Part name.toList (.var name)
  | element {name : String} {index : List Char} {e : Expr} : IsVariable name → Balanced index →
    Expr.parse .indented index = .ok e →
    Part (name.toList ++ '[' :: (index ++ [']'])) (.index (.var name) e)

theorem IsVariable.nonempty {name : String} (h : IsVariable name) : name.toList ≠ [] := by
  intro hnil
  have hname := h.isName
  rw [hnil] at hname
  cases hname

theorem IsVariable.trimmed {name : String} (h : IsVariable name) :
    trim name.toList = name.toList :=
  trim_of_nonblank fun c hc => isBlank_of_isWord (isWord_of_isName h.isName c hc)

namespace Part

variable {text : List Char} {e : Expr}

theorem parse (h : Part text e) : Expr.parse .indented text = .ok e := by
  cases h with
  | @var name h =>
    rw [Expr.parse, tokenize_eq_ok_iff.2 (cutInto_name h.isName)]
    exact (Expr.parses_operand (Expr.parsesOperand_var h.notKeyword h.notConstant)).ofTokens
      ⟨_, _, rfl, by simp [ofName]⟩
  | element h _ hindex => exact Expr.parse_element h.isName h.notKeyword h.notConstant hindex

theorem isTarget (h : Part text e) : e.isTarget = true := by
  cases h <;> rfl

theorem piece (h : Part text e) : Piece text := by
  cases h with
  | var h => exact ⟨balanced_of_isName h.isName, h.nonempty, h.trimmed⟩
  | @element name index e h hindex _ =>
    exact ⟨(balanced_of_isName h.isName).append (hindex.bracketed rfl rfl),
      List.append_ne_nil_of_left_ne_nil h.nonempty _,
      trim_between ('[' :: index) ⟨h.nonempty, h.trimmed⟩ ⟨List.cons_ne_nil _ _, rfl⟩⟩

/-- The text begins with a word, and no parenthesis follows it. -/
theorem exists_word (h : Part text e) (rest : List Char) :
    ∃ word c tail, text ++ ',' :: rest = word ++ c :: tail ∧ (∀ d ∈ word, isWord d = true) ∧
      c ∈ [',', '['] := by
  cases h with
  | @var name h => exact ⟨name.toList, ',', rest, rfl, isWord_of_isName h.isName, by decide⟩
  | @element name index e h _ _ =>
    exact ⟨name.toList, '[', index ++ ']' :: ',' :: rest, by simp, isWord_of_isName h.isName,
      by decide⟩

end Part

namespace Indented

theorem printRest?_eq_none {word tail : List Char} {c : Char} (hword : ∀ d ∈ word, isWord d = true)
    (hc : c ∈ [',', '[']) : printRest? (word ++ c :: tail) = none := by
  have hprint : c ∉ "print".toList := by
    simp only [List.mem_cons, List.not_mem_nil, or_false] at hc
    rcases hc with rfl | rfl <;> decide
  unfold printRest? dropWord?
  rw [isPrefixOf_append_cons hprint]
  split_ifs with hprefix
  · obtain ⟨more, rfl⟩ := List.isPrefixOf_iff_prefix.1 hprefix
    cases more with
    | nil =>
      simp only [List.mem_cons, List.not_mem_nil, or_false] at hc
      rcases hc with rfl | rfl <;> rfl
    | cons d more =>
      have hd := hword d (by simp)
      have hparen : ('(' == d) = false := beq_eq_false_iff_ne.2 fun heq => by
        rw [← heq] at hd
        cases hd
      have hdrop : ("print".toList ++ d :: more ++ c :: tail).drop "print".length =
          d :: (more ++ c :: tail) := rfl
      show dropChar? '(' (trimLeft (("print".toList ++ d :: more ++ c :: tail).drop _)) = none
      rw [hdrop, trimLeft_cons (isBlank_of_isWord hd), dropChar?, hparen]
      rfl
  · rfl

theorem printArguments?_tuple (sources : List (List Char)) : ∀ {targets : List (List Char)}
    {es : List Expr}, List.Forall₂ Part targets es → 2 ≤ targets.length →
      printArguments? (tupleAssignment targets sources) = none
  | target :: next :: targets, _, .cons h _, _ => by
    obtain ⟨word, c, tail, htext, hword, hc⟩ := h.exists_word
      (' ' :: tupleText (next :: targets) ++ ' ' :: '=' :: ' ' :: tupleText sources)
    have hwhole : tupleAssignment (target :: next :: targets) sources = word ++ c :: tail := by
      rw [← htext, tupleAssignment, tupleText_cons]
      simp
    rw [printArguments?, hwhole, printRest?_eq_none hword hc]
    rfl

/-- The tokens of the parts, with commas between them. -/
theorem exists_cutInto_tupleText : ∀ {parts : List (List Char)} {es : List Expr},
    List.Forall₂ Part parts es → ∃ ts, CutInto .indented (tupleText parts) ts
  | _, _, .nil => ⟨[], .nil⟩
  | part :: [], _, .cons h .nil => by
    obtain ⟨ts, htext, -⟩ := Expr.exists_tokens_of_parse h.parse
    exact ⟨ts, by rw [tupleText_singleton]; exact tokenize_eq_ok_iff.1 htext⟩
  | part :: next :: parts, _, .cons h hs => by
    obtain ⟨ts, htext, -⟩ := Expr.exists_tokens_of_parse h.parse
    obtain ⟨us, hus⟩ := exists_cutInto_tupleText hs
    exact ⟨_, (tokenize_eq_ok_iff.1 htext).append (separates_mark (by decide))
      (.mark (t := comma) (by decide) (.blank rfl hus))⟩

/-- An equals sign between blanks is no token. -/
theorem scan_sign (text : List Char) {fuel : Nat}
    (hfuel : (' ' :: '=' :: ' ' :: text).length ≤ fuel) :
    scan .indented fuel (' ' :: '=' :: ' ' :: text) = .error (.strayCharacter '=') := by
  obtain ⟨fuel, rfl⟩ : ∃ n, fuel = n + 2 := ⟨fuel - 2, by simp at hfuel; omega⟩
  have hsign : first? .indented ('=' :: ' ' :: text) = none := by
    rw [first?_bare rfl]
    rfl
  rw [scan_blank rfl, scan, hsign]
  rfl

/-- An assignment to a tuple is not an expression. -/
theorem parse?_tupleAssignment {parts sources : List (List Char)} {es : List Expr}
    (h : List.Forall₂ Part parts es)
    (htrim : trim (tupleAssignment parts sources) = tupleAssignment parts sources) :
    Expr.parse? .indented (tupleAssignment parts sources) = .ok none := by
  obtain ⟨ts, hts⟩ := exists_cutInto_tupleText h
  have htokens : tokenize .indented (tupleAssignment parts sources) =
      .error (.strayCharacter '=') := by
    obtain ⟨fuel, hfuel, heq⟩ := hts.scan_append (separates_blank (c := ' ') rfl)
      ('=' :: ' ' :: tupleText sources) (Nat.le_refl _)
    rw [tokenize, tupleAssignment, heq, scan_sign _ hfuel]
    rfl
  unfold Expr.parse? Expr.parse
  rw [htrim, htokens]
  rfl

theorem parseTargets_tuple {host : Host} (hd : host.dialect = .indented)
    {parts : List (List Char)} {es : List Expr} (h : List.Forall₂ Part parts es) :
    host.parseTargets parts = pure (some es) := by
  have htargets : ∀ e ∈ es, e.isTarget = true := by
    induction h with
    | nil => exact List.forall_mem_nil _
    | cons hpart _ ih => exact List.forall_mem_cons.2 ⟨hpart.isTarget, ih⟩
  have hparsed : parts.mapM host.parse = pure (es.map some) := by
    clear htargets
    induction h with
    | nil => rfl
    | @cons part e parts es hpart _ ih =>
      have hparse : host.parse part = pure (some e) := by
        rw [Host.parse, hd, Expr.parse?, hpart.piece.trimmed, hpart.parse]
        rfl
      rw [List.mapM_cons, hparse, pure_bind, ih, pure_bind, List.map_cons]
  have hsome : (es.map some).mapM id = some es := by
    rw [List.mapM_map]
    exact (List.mapM_pure (l := es) (f := id)).trans (congrArg some (List.map_id es))
  rw [Host.parseTargets, hparsed, pure_bind, hsome]
  simp only [List.all_eq_true.2 htargets, if_true]

/-- Describe the values of an assignment and record it. -/
def reported (host : Host) (line : Nat) (target : List Char) (values : List Value)
    (scope : Scope) : Run Scope := do
  let described ← host.describeAll values
  host.record line .assignment (s!"{String.ofList target} = " ++ described) scope
  pure scope

theorem pieces_of_parts {parts : List (List Char)} {es : List Expr}
    (h : List.Forall₂ Part parts es) : ∀ t ∈ parts, Piece t := by
  induction h with
  | nil => exact List.forall_mem_nil _
  | cons hpart _ ih => exact List.forall_mem_cons.2 ⟨hpart.piece, ih⟩

theorem unpacked_tuple (host : Host) (scope : Scope) {sources : List (List Char)}
    (htwo : 2 ≤ sources.length) (hs : ∀ t ∈ sources, Piece t) :
    unpacked host sources.length (tupleText sources) scope = host.evaluateTexts scope sources := by
  unfold unpacked
  rw [if_neg (by omega), splitCommas_tupleText htwo hs]
  exact if_pos rfl

/-- All sources of a tuple are evaluated before the first target is stored. -/
theorem assign_tuple {host : Host} (hd : host.dialect = .indented) (line : Nat) (scope : Scope)
    {targets sources : List (List Char)} {es : List Expr} (ht : List.Forall₂ Part targets es)
    (hs : ∀ t ∈ sources, Piece t) (hlength : sources.length = targets.length)
    (htwo : 2 ≤ targets.length) :
    assign host line ⟨tupleText targets, none, tupleText sources⟩ scope =
      host.evaluateTexts scope sources >>= fun values =>
        host.storeEach (es.zip values) scope >>= fun scope =>
          some <$> reported host line (tupleText targets) values scope := by
  have hchain := chain_tuple (tupleText targets) hs
  have hcut := splitCommas_tupleText htwo (pieces_of_parts ht)
  have hvalues := unpacked_tuple host scope (hlength ▸ htwo) hs
  have hcount : sources.length = es.length := hlength.trans ht.length_eq
  obtain _ | ⟨e, _ | ⟨e', es⟩⟩ := es
  · simp only [List.length_nil] at hcount
    omega
  · simp only [List.length_singleton] at hcount
    omega
  unfold assign
  rw [hchain]
  dsimp only
  rw [hcut, parseTargets_tuple hd ht, pure_bind]
  dsimp only
  rw [← hcount, hvalues]
  simp only [reported, map_bind, map_pure]

/-- An assignment of as many parts as there are targets evaluates them all, and then writes the
values from left to right. -/
theorem simple_tuple {host : Host} (hd : host.dialect = .indented) (line : Nat) (scope : Scope)
    {targets sources : List (List Char)} {es : List Expr} (ht : List.Forall₂ Part targets es)
    (hs : ∀ t ∈ sources, Piece t) (hlength : sources.length = targets.length)
    (htwo : 2 ≤ targets.length) :
    simple host line (tupleAssignment targets sources) scope =
      host.evaluateTexts scope sources >>= fun values =>
        host.storeEach (es.zip values) scope >>= fun scope =>
          reported host line (tupleText targets) values scope := by
  have htne : targets ≠ [] := List.ne_nil_of_length_pos (by omega)
  have hsne : sources ≠ [] := List.ne_nil_of_length_pos (by omega)
  have htparts := pieces_of_parts ht
  have htrim : trim (tupleAssignment targets sources) = tupleAssignment targets sources :=
    trim_between [' ', '=', ' '] (trim_tupleText htne htparts) (trim_tupleText hsne hs)
  have hparse : host.parse (tupleAssignment targets sources) = pure none := by
    rw [Host.parse, hd, parse?_tupleAssignment ht htrim]
    rfl
  unfold simple
  rw [printArguments?_tuple sources ht htwo]
  dsimp only
  rw [hparse, pure_bind, split?_tupleAssignment htne htparts hsne hs]
  dsimp only
  rw [assign_tuple hd line scope ht hs hlength htwo]
  simp only [bind_assoc, bind_map_left, bind_pure]

end Indented

end Stepwise
