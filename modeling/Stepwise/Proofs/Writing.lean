import Stepwise.Proofs.Spacing

/-!
# Parsing undoes writing

`Written` says which tokens write an expression at a level: an operator of a lower level stands in
parentheses, the operands of an operator are written at the levels it demands, and any part may have
more parentheses. The parser reads such tokens back as the same expression (`parse_written`),
because it stops at every operator that binds no tighter than the level (`Parses`).
-/

namespace Stepwise

open Text

/-- The level of a prefix operator and of its operand. -/
def UnaryOp.precedence : UnaryOp → Nat
  | .not => notPrecedence
  | .neg | .pos | .bang => signPrecedence

/-- The level of the left operand. Powers associate to the right. -/
def BinaryOp.leftPrecedence (dialect : Dialect) (op : BinaryOp) : Nat :=
  if op = .pow then op.precedence dialect + 1 else op.precedence dialect

/-- The words that are operators. -/
def keywords : Dialect → List String
  | .indented => ["and", "or", "in", "not"]
  | .braced => []

namespace Token

def openParen : Token := ⟨.leftParen, ['(']⟩
def closeParen : Token := ⟨.rightParen, [')']⟩
def openBracket : Token := ⟨.leftBracket, ['[']⟩
def closeBracket : Token := ⟨.rightBracket, [']']⟩
def comma : Token := ⟨.comma, [',']⟩
def dot : Token := ⟨.dot, ['.']⟩

def ofName (name : String) : Token := ⟨.name, name.toList⟩

end Token

open Token

mutual

/-- The tokens write the expression where operators of a lower level need parentheses. -/
inductive Written (dialect : Dialect) : Nat → Expr → List Token → Prop
  | operand {k : Nat} {e : Expr} {ts : List Token} : Operand dialect e ts → Written dialect k e ts
  | unary {k : Nat} {op : UnaryOp} {e : Expr} {ts : List Token} :
    op ∈ UnaryOp.ofDialect dialect → k ≤ op.precedence → Written dialect op.precedence e ts →
    Written dialect k (.unary op e) (op.token :: ts)
  | binary {k : Nat} {op : BinaryOp} {left right : Expr} {ts us : List Token} :
    op ∈ BinaryOp.ofDialect dialect → k ≤ op.precedence dialect →
    Written dialect (op.leftPrecedence dialect) left ts →
    Written dialect (op.rightPrecedence dialect) right us →
    Written dialect k (.binary op left right) (ts ++ (op.tokens ++ us))

/-- The tokens write the expression where no operator may stand without parentheses. -/
inductive Operand (dialect : Dialect) : Expr → List Token → Prop
  | int {n : Nat} : (Nat.toDigits 10 n).length ≤ maxDigits →
    Operand dialect (.lit (.int n)) [⟨.number, Nat.toDigits 10 n⟩]
  | string {text : String} : Operand dialect (.lit (.str text)) [⟨.string, quoted text.toList⟩]
  | constant {name : String} {v : Literal} : (name, v) ∈ constants dialect →
    Operand dialect (.lit v) [ofName name]
  | var {name : String} : isName name.toList = true → name ∉ keywords dialect →
    (constants dialect).lookup name = none → Operand dialect (.var name) [ofName name]
  | paren {e : Expr} {ts : List Token} : Written dialect 1 e ts →
    Operand dialect e (openParen :: (ts ++ [closeParen]))
  | list {items : List Expr} {ts : List Token} : dialect = .indented →
    WrittenAll dialect items ts →
    Operand dialect (.list items) (openBracket :: (ts ++ [closeBracket]))
  | call {name : String} {args : List Expr} {ts : List Token} : isName name.toList = true →
    name ∉ keywords dialect → WrittenAll dialect args ts →
    Operand dialect (.call name args) (ofName name :: openParen :: (ts ++ [closeParen]))
  | index {target position : Expr} {ts us : List Token} : Operand dialect target ts →
    Written dialect 1 position us →
    Operand dialect (.index target position) (ts ++ openBracket :: (us ++ [closeBracket]))
  | method {receiver : Expr} {name : String} {args : List Expr} {ts us : List Token} :
    dialect = .indented → Operand dialect receiver ts → isName name.toList = true →
    WrittenAll dialect args us →
    Operand dialect (.method receiver name args)
      (ts ++ dot :: ofName name :: openParen :: (us ++ [closeParen]))

/-- The tokens write the expressions, with commas between them. -/
inductive WrittenAll (dialect : Dialect) : List Expr → List Token → Prop
  | nil : WrittenAll dialect [] []
  | single {e : Expr} {ts : List Token} : Written dialect 1 e ts → WrittenAll dialect [e] ts
  | cons {e : Expr} {es : List Expr} {ts us : List Token} : es ≠ [] → Written dialect 1 e ts →
    WrittenAll dialect es us → WrittenAll dialect (e :: es) (ts ++ comma :: us)

end

namespace Expr

variable {dialect : Dialect} {j k : Nat} {e : Expr} {ts us rest : List Token}

theorem binaryOp?_tokens {op : BinaryOp} (h : op ∈ BinaryOp.ofDialect dialect)
    (rest : List Token) : binaryOp? dialect (op.tokens ++ rest) = some (op, rest) := by
  cases dialect <;> cases op <;> first | rfl | simp [BinaryOp.ofDialect, BinaryOp.symbolic] at h

theorem unaryOp?_token {op : UnaryOp} (h : op ∈ UnaryOp.ofDialect dialect) (rest : List Token) :
    unaryOp? dialect (op.token :: rest) = some (op, op.precedence, rest) := by
  cases dialect <;> cases op <;> first | rfl | simp [UnaryOp.ofDialect] at h

/-- What may follow tokens written at a level: no call, index or method, and no operator that
would take the written expression apart. -/
structure Stops (dialect : Dialect) (j : Nat) (rest : List Token) : Prop where
  noSuffix : ∀ t ∈ rest.head?, t.kind ∉ [.leftParen, .leftBracket, .dot]
  below : ∀ op rest', binaryOp? dialect rest = some (op, rest') → op.leftPrecedence dialect ≤ j

theorem stops_nil : Stops dialect j [] := ⟨by simp, by simp [binaryOp?]⟩

theorem stops_mark {t : Token} (h : t.kind ∈ [.rightParen, .rightBracket, .comma])
    (rest : List Token) : Stops dialect j (t :: rest) := by
  obtain ⟨kind, text⟩ := t
  simp only [List.mem_cons, List.not_mem_nil, or_false] at h
  refine ⟨fun u hu => ?_, fun op rest' hop => ?_⟩
  · cases hu
    rcases h with rfl | rfl | rfl <;> simp
  · rcases h with rfl | rfl | rfl <;> cases hop

theorem stops_tokens {op : BinaryOp} (h : op ∈ BinaryOp.ofDialect dialect) (rest : List Token) :
    Stops dialect (op.leftPrecedence dialect) (op.tokens ++ rest) := by
  refine ⟨fun t ht => ?_, fun op' rest' hop => ?_⟩
  · unfold BinaryOp.tokens at ht
    split_ifs at ht <;> cases ht <;> simp
  · rw [binaryOp?_tokens h] at hop
    cases hop
    exact Nat.le_refl _

theorem Stops.mono (h : Stops dialect j rest) (hjk : j ≤ k) : Stops dialect k rest :=
  ⟨h.noSuffix, fun op rest' hop => (h.below op rest' hop).trans hjk⟩

/-- The parser takes the tokens for the expression and goes on with what follows. -/
def Parses (dialect : Dialect) (j : Nat) (e : Expr) (ts : List Token) : Prop :=
  ∀ k ≤ j, ∀ rest, Stops dialect j rest → ∀ fuel, 4 * (ts ++ rest).length + 4 ≤ fuel →
    ∃ fuel', 4 * rest.length + 1 ≤ fuel' ∧
      expression dialect fuel k (ts ++ rest) = climb dialect fuel' k e rest

/-- The parser takes the tokens for an operand and looks for indices and methods behind it. -/
def ParsesOperand (dialect : Dialect) (e : Expr) (ts : List Token) : Prop :=
  ∀ rest, (∀ t ∈ rest.head?, t.kind ≠ .leftParen) → ∀ fuel, 4 * (ts ++ rest).length + 3 ≤ fuel →
    ∃ fuel', 4 * rest.length + 1 ≤ fuel' ∧
      operand dialect fuel (ts ++ rest) = suffixes dialect fuel' e rest

/-- The first of some arguments and the others. -/
def someArguments (dialect : Dialect) (fuel : Nat) : Parse (List Expr) := fun tokens => do
  let (head, tokens) ← expression dialect fuel 1 tokens
  let (tail, tokens) ← moreArguments dialect fuel tokens
  pure (head :: tail, tokens)

/-- The parser takes the tokens for the arguments of a call, and for the items of a list. -/
def ParsesAll (dialect : Dialect) (es : List Expr) (ts : List Token) : Prop :=
  ∀ rest fuel, 4 * (ts ++ closeParen :: rest).length + 4 ≤ fuel →
    someArguments dialect fuel (ts ++ closeParen :: rest) = .ok (es, rest) ∧
    listItems dialect (fuel + 1) (ts ++ closeBracket :: rest) = .ok (es, rest)

theorem climb_eq {fuel : Nat} (hfuel : 1 ≤ fuel)
    (h : ∀ op rest', binaryOp? dialect rest = some (op, rest') → op.precedence dialect < k) :
    climb dialect fuel k e rest = .ok (e, rest) := by
  obtain ⟨fuel, rfl⟩ : ∃ n, fuel = n + 1 := ⟨fuel - 1, by omega⟩
  rw [climb]
  split
  · rfl
  · rename_i op rest' hop
    rw [if_pos (h op rest' hop)]
    rfl

theorem suffixes_eq {fuel : Nat} (hfuel : 1 ≤ fuel)
    (h : ∀ t ∈ rest.head?, t.kind ∉ [.leftParen, .leftBracket, .dot]) :
    suffixes dialect fuel e rest = .ok (e, rest) := by
  obtain ⟨fuel, rfl⟩ : ∃ n, fuel = n + 1 := ⟨fuel - 1, by omega⟩
  unfold suffixes
  dsimp only
  split
  · exact absurd (h _ rfl) (by simp)
  · exact absurd (h _ rfl) (by simp)
  · rfl

theorem precedence_le_left (op : BinaryOp) :
    op.precedence dialect ≤ op.leftPrecedence dialect := by
  unfold BinaryOp.leftPrecedence
  split_ifs <;> omega

/-- No infix operator has the level of a prefix operator of its dialect. -/
theorem precedence_ne : ∀ op ∈ UnaryOp.ofDialect dialect, ∀ op' ∈ BinaryOp.ofDialect dialect,
    op'.precedence dialect ≠ op.precedence := by
  cases dialect <;> decide

/-- An operator that may follow an operation binds less tightly than its right operand. -/
theorem precedence_lt_right {op op' : BinaryOp}
    (h : op'.leftPrecedence dialect ≤ op.precedence dialect) :
    op'.precedence dialect < op.rightPrecedence dialect := by
  by_cases hop : op = .pow
  · subst hop
    have hne : op' ≠ .pow := by
      rintro rfl
      exact absurd h (by cases dialect <;> decide)
    cases op' <;> cases dialect <;> first | decide | exact absurd rfl hne
  · rw [BinaryOp.rightPrecedence, if_neg hop]
    exact Nat.lt_succ_of_le ((precedence_le_left op').trans h)

/-- In front of what may follow, the parser stops. -/
theorem Parses.eq (h : Parses dialect j e ts) (hrest : Stops dialect j rest)
    (hbelow : ∀ op rest', binaryOp? dialect rest = some (op, rest') → op.precedence dialect < j)
    {fuel : Nat} (hfuel : 4 * (ts ++ rest).length + 4 ≤ fuel) :
    expression dialect fuel j (ts ++ rest) = .ok (e, rest) := by
  obtain ⟨fuel', hfuel', heq⟩ := h j (Nat.le_refl _) rest hrest fuel hfuel
  rw [heq, climb_eq (by omega) hbelow]

theorem Parses.eq_mark (h : Parses dialect 1 e ts) {t : Token}
    (ht : t.kind ∈ [.rightParen, .rightBracket, .comma]) {fuel : Nat}
    (hfuel : 4 * (ts ++ t :: rest).length + 4 ≤ fuel) :
    expression dialect fuel 1 (ts ++ t :: rest) = .ok (e, t :: rest) := by
  refine h.eq (stops_mark ht rest) (fun op rest' hop => ?_) hfuel
  have := (@stops_mark dialect 0 t ht rest).below op rest' hop
  exact Nat.lt_succ_of_le ((precedence_le_left op).trans this)

theorem parses_operand (h : ParsesOperand dialect e ts) : Parses dialect j e ts := by
  intro k _ rest hrest fuel hfuel
  obtain ⟨fuel, rfl⟩ : ∃ n, fuel = n + 1 := ⟨fuel - 1, by omega⟩
  have hparen : ∀ t ∈ rest.head?, t.kind ≠ .leftParen := fun t ht hkind =>
    hrest.noSuffix t ht (by simp [hkind])
  obtain ⟨fuel', hfuel', heq⟩ := h rest hparen fuel (by omega)
  refine ⟨fuel, by rw [List.length_append] at hfuel; omega, ?_⟩
  rw [expression, heq, suffixes_eq (by omega) hrest.noSuffix]
  rfl

theorem parses_unary {op : UnaryOp} (hop : op ∈ UnaryOp.ofDialect dialect)
    (hj : j ≤ op.precedence) (h : Parses dialect op.precedence e ts) :
    Parses dialect j (.unary op e) (op.token :: ts) := by
  intro k _ rest hrest fuel hfuel
  rw [List.cons_append, List.length_cons] at hfuel
  obtain ⟨fuel, rfl⟩ : ∃ n, fuel = n + 2 := ⟨fuel - 2, by omega⟩
  have hinner : expression dialect fuel op.precedence (ts ++ rest) = .ok (e, rest) := by
    refine h.eq (hrest.mono hj) (fun op' rest' hop' => ?_) (by omega)
    have hle := (precedence_le_left op').trans ((hrest.below op' rest' hop').trans hj)
    exact Nat.lt_of_le_of_ne hle (precedence_ne op hop op' (binaryOp?_spec hop').2)
  refine ⟨fuel + 1, by rw [List.length_append] at hfuel; omega, ?_⟩
  rw [List.cons_append, expression, operand, unaryOp?_token hop]
  dsimp only
  rw [hinner]
  rfl

/-- A binary operator is parsed with operands that bind tightly enough on their sides. -/
theorem parses_binary {op : BinaryOp} {left right : Expr} (hop : op ∈ BinaryOp.ofDialect dialect)
    (hj : j ≤ op.precedence dialect) (hl : Parses dialect (op.leftPrecedence dialect) left ts)
    (hr : Parses dialect (op.rightPrecedence dialect) right us) :
    Parses dialect j (.binary op left right) (ts ++ (op.tokens ++ us)) := by
  intro k hk rest hrest fuel hfuel
  have hassoc : ts ++ (op.tokens ++ us) ++ rest = ts ++ (op.tokens ++ (us ++ rest)) := by simp
  have hpos : 1 ≤ op.tokens.length := by unfold BinaryOp.tokens; split_ifs <;> simp
  rw [hassoc] at hfuel ⊢
  have hleft := @precedence_le_left dialect op
  obtain ⟨fuel', hfuel', heq⟩ := hl k (by omega) _ (stops_tokens hop (us ++ rest)) fuel hfuel
  rw [List.length_append] at hfuel'
  obtain ⟨fuel', rfl⟩ : ∃ n, fuel' = n + 1 := ⟨fuel' - 1, by omega⟩
  have hright : expression dialect fuel' (op.rightPrecedence dialect) (us ++ rest) =
      .ok (right, rest) := by
    refine hr.eq (hrest.mono ?_) (fun op' rest' hop' => ?_) (by omega)
    · unfold BinaryOp.rightPrecedence
      split_ifs <;> omega
    · exact precedence_lt_right ((hrest.below op' rest' hop').trans hj)
  refine ⟨fuel', by rw [List.length_append] at hfuel'; omega, ?_⟩
  rw [heq, climb, binaryOp?_tokens hop]
  dsimp only
  rw [if_neg (by omega), hright]
  rfl

theorem parsesOperand_of_primary (hunary : ∀ rest, unaryOp? dialect (ts ++ rest) = none)
    (h : ∀ rest, (∀ t ∈ rest.head?, t.kind ≠ .leftParen) → ∀ fuel,
      4 * (ts ++ rest).length + 1 ≤ fuel →
        primary dialect (fuel + 1) (ts ++ rest) = .ok (e, rest)) :
    ParsesOperand dialect e ts := by
  intro rest hrest fuel hfuel
  obtain ⟨fuel, rfl⟩ : ∃ n, fuel = n + 2 := ⟨fuel - 2, by omega⟩
  refine ⟨fuel + 1, by rw [List.length_append] at hfuel; omega, ?_⟩
  rw [operand, hunary, h rest hrest fuel (by omega)]
  rfl

theorem not_fraction {digits : List Char} (hd : ∀ c ∈ digits, c.isDigit = true) :
    (digits.any fun c => c == '.' || c == 'e' || c == 'E') = false := by
  rw [List.any_eq_false]
  intro c hc hmark
  have hdigit := hd c hc
  simp only [Bool.or_eq_true, beq_iff_eq] at hmark
  rcases hmark with (rfl | rfl) | rfl <;> cases hdigit

/-- The decimal digits of a number denote it, unless there are too many of them. -/
theorem numberLiteral_toDigits (n : Nat) :
    numberLiteral (Nat.toDigits 10 n) =
      if maxDigits < (Nat.toDigits 10 n).length then .error .longNumeral else .ok (.int n) := by
  have hd : ∀ c ∈ Nat.toDigits 10 n, c.isDigit = true := fun c hc =>
    Nat.isDigit_of_mem_toDigits (by decide) (by decide) hc
  have hnumeric : ∀ c ∈ Nat.toDigits 10 n, Number.isNumeric c = true := fun c hc =>
    Number.isNumeric_of_isDecimal (isDecimal_of_isDigit (hd c hc))
  have hnumeral : ((Nat.toDigits 10 n).reverse.dropWhile Token.isNumberSuffix).reverse =
      Nat.toDigits 10 n := by
    simpa [Token.numeral] using Token.numeral_eq hnumeric (List.forall_mem_nil _)
  unfold numberLiteral
  dsimp only
  rw [hnumeral, not_fraction hd, if_neg Bool.false_ne_true, Number.readInt_toDigits]
  split_ifs <;> rfl

theorem unaryOp?_name {name : List Char} (h : dialect = .indented → name ≠ "not".toList)
    (rest : List Token) : unaryOp? dialect (⟨.name, name⟩ :: rest) = none := by
  rw [unaryOp?, if_neg fun hnot => h hnot.1 hnot.2]

theorem primary_name {name : List Char} (hrest : ∀ t ∈ rest.head?, t.kind ≠ .leftParen)
    (fuel : Nat) :
    primary dialect (fuel + 1) (⟨.name, name⟩ :: rest) =
      .ok (((constants dialect).lookup (String.ofList name)).elim (.var (String.ofList name)) .lit,
        rest) := by
  unfold primary
  dsimp only
  split
  · exact absurd rfl (hrest _ rfl)
  · split <;> rename_i heq <;> rw [heq] <;> rfl

theorem not_ne_of_not_mem_keywords {name : String} (h : name ∉ keywords dialect) :
    dialect = .indented → name.toList ≠ "not".toList := by
  rintro rfl hnot
  exact h (String.toList_inj.1 hnot ▸ by decide)

theorem parsesOperand_int {n : Nat} (h : (Nat.toDigits 10 n).length ≤ maxDigits) :
    ParsesOperand dialect (.lit (.int n)) [⟨.number, Nat.toDigits 10 n⟩] := by
  refine parsesOperand_of_primary (fun _ => rfl) fun rest _ fuel _ => ?_
  show primary dialect (fuel + 1) (⟨.number, Nat.toDigits 10 n⟩ :: rest) = _
  rw [primary, numberLiteral_toDigits, if_neg (by omega)]
  rfl

theorem parsesOperand_string {text : String} :
    ParsesOperand dialect (.lit (.str text)) [⟨.string, quoted text.toList⟩] := by
  refine parsesOperand_of_primary (fun _ => rfl) fun rest _ fuel _ => ?_
  show primary dialect (fuel + 1) (⟨.string, quoted text.toList⟩ :: rest) = _
  rw [primary, unescape_quoted, String.ofList_toList]
  rfl

theorem lookup_of_mem_constants {name : String} {v : Literal} (h : (name, v) ∈ constants dialect) :
    (constants dialect).lookup name = some v ∧ name ∉ keywords dialect := by
  cases dialect <;>
    simp only [constants, List.mem_cons, Prod.mk.injEq, List.not_mem_nil, or_false] at h <;>
    rcases h with ⟨rfl, rfl⟩ | ⟨rfl, rfl⟩ | ⟨rfl, rfl⟩ <;> decide

theorem parsesOperand_constant {name : String} {v : Literal} (h : (name, v) ∈ constants dialect) :
    ParsesOperand dialect (.lit v) [ofName name] := by
  obtain ⟨hlookup, hkey⟩ := lookup_of_mem_constants h
  refine parsesOperand_of_primary (unaryOp?_name (not_ne_of_not_mem_keywords hkey)) ?_
  intro rest hrest fuel _
  show primary dialect (fuel + 1) (⟨.name, name.toList⟩ :: rest) = _
  rw [primary_name hrest, String.ofList_toList, hlookup]
  rfl

theorem parsesOperand_var {name : String} (hkey : name ∉ keywords dialect)
    (h : (constants dialect).lookup name = none) :
    ParsesOperand dialect (.var name) [ofName name] := by
  refine parsesOperand_of_primary (unaryOp?_name (not_ne_of_not_mem_keywords hkey)) ?_
  intro rest hrest fuel _
  show primary dialect (fuel + 1) (⟨.name, name.toList⟩ :: rest) = _
  rw [primary_name hrest, String.ofList_toList, h]
  rfl

theorem parsesOperand_paren (h : Parses dialect 1 e ts) :
    ParsesOperand dialect e (openParen :: (ts ++ [closeParen])) := by
  refine parsesOperand_of_primary (fun _ => rfl) fun rest _ fuel hfuel => ?_
  simp only [List.cons_append, List.append_assoc, List.nil_append, List.length_cons] at hfuel ⊢
  show primary dialect (fuel + 1) (⟨.leftParen, ['(']⟩ :: (ts ++ closeParen :: rest)) = _
  rw [primary, h.eq_mark (by simp [closeParen]) (by omega)]
  rfl

theorem arguments_eq {t : Token} (ht : t.kind ≠ .rightParen) (fuel : Nat) (rest : List Token) :
    arguments dialect (fuel + 1) (openParen :: t :: rest) =
      someArguments dialect fuel (t :: rest) := by
  obtain ⟨kind, text⟩ := t
  cases kind <;> first | rfl | exact absurd rfl ht

/-- The tokens are some, and the first closes no bracket. -/
def Opens (ts : List Token) : Prop :=
  ∃ t us, ts = t :: us ∧ t.kind ≠ .rightParen ∧ t.kind ≠ .rightBracket

theorem listItems_single {fuel : Nat} (hts : Opens ts)
    (h : expression dialect fuel 1 ts = .ok (e, closeBracket :: rest)) :
    listItems dialect (fuel + 1) ts = .ok ([e], rest) := by
  obtain ⟨t, us, rfl, -, ht⟩ := hts
  unfold listItems
  dsimp only
  split
  · rename_i heq
    cases heq
    exact absurd rfl ht
  · rw [h]
    rfl

theorem listItems_cons {fuel : Nat} {es : List Expr} (hts : Opens ts)
    (h : expression dialect fuel 1 ts = .ok (e, comma :: us))
    (hus : listItems dialect fuel us = .ok (es, rest)) :
    listItems dialect (fuel + 1) ts = .ok (e :: es, rest) := by
  obtain ⟨t, us, rfl, -, ht⟩ := hts
  unfold listItems
  dsimp only
  split
  · rename_i heq
    cases heq
    exact absurd rfl ht
  · rw [h]
    show (listItems dialect fuel _ >>= _) = _
    rw [hus]
    rfl

theorem Opens.append (h : Opens ts) (rest : List Token) : Opens (ts ++ rest) := by
  obtain ⟨t, us, rfl, ht⟩ := h
  exact ⟨t, us ++ rest, rfl, ht⟩

theorem parsesAll_single (h : Parses dialect 1 e ts) (hts : Opens ts) :
    ParsesAll dialect [e] ts := by
  intro rest fuel hfuel
  obtain ⟨fuel, rfl⟩ : ∃ n, fuel = n + 1 := ⟨fuel - 1, by omega⟩
  have hlength : (ts ++ closeBracket :: rest).length = (ts ++ closeParen :: rest).length := by simp
  constructor
  · rw [someArguments, h.eq_mark (by simp [closeParen]) hfuel]
    rfl
  · exact listItems_single (hts.append _) (h.eq_mark (by simp [closeBracket]) (hlength ▸ hfuel))

theorem parsesAll_cons {es : List Expr} (h : Parses dialect 1 e ts) (hts : Opens ts)
    (hes : ParsesAll dialect es us) : ParsesAll dialect (e :: es) (ts ++ comma :: us) := by
  intro rest fuel hfuel
  obtain ⟨fuel, rfl⟩ : ∃ n, fuel = n + 1 := ⟨fuel - 1, by omega⟩
  have hassoc : ∀ t, ts ++ comma :: us ++ t :: rest = ts ++ comma :: (us ++ t :: rest) := by simp
  have hcomma : comma.kind ∈ [.rightParen, .rightBracket, .comma] := by simp [comma]
  have hlength : 4 * (us ++ closeParen :: rest).length + 4 ≤ fuel := by
    rw [hassoc, List.length_append, List.length_cons] at hfuel
    omega
  obtain ⟨hargs, hitems⟩ := hes rest fuel hlength
  rw [hassoc, hassoc]
  constructor
  · rw [someArguments, h.eq_mark hcomma (by rw [← hassoc]; exact hfuel)]
    show (someArguments dialect fuel (us ++ closeParen :: rest) >>= _) = _
    rw [hargs]
    rfl
  · refine listItems_cons (hts.append _) (h.eq_mark hcomma ?_) hitems
    simpa [hassoc] using hfuel

/-- The arguments of a call, with their parentheses. -/
theorem arguments_parse {args : List Expr}
    (h : args = [] ∧ ts = [] ∨ Opens ts ∧ ParsesAll dialect args ts) {fuel : Nat}
    (hfuel : 4 * (ts ++ closeParen :: rest).length + 4 ≤ fuel) :
    arguments dialect (fuel + 1) (openParen :: (ts ++ closeParen :: rest)) = .ok (args, rest) := by
  rcases h with ⟨rfl, rfl⟩ | ⟨hts, h⟩
  · rfl
  · have hargs := (h rest fuel hfuel).1
    obtain ⟨t, us, rfl, ht, -⟩ := hts
    rw [List.cons_append, arguments_eq ht]
    exact hargs

theorem parsesOperand_list {items : List Expr} (hd : dialect = .indented)
    (h : items = [] ∧ ts = [] ∨ Opens ts ∧ ParsesAll dialect items ts) :
    ParsesOperand dialect (.list items) (openBracket :: (ts ++ [closeBracket])) := by
  subst hd
  refine parsesOperand_of_primary (fun _ => rfl) fun rest _ fuel hfuel => ?_
  simp only [List.cons_append, List.append_assoc, List.nil_append, List.length_cons] at hfuel ⊢
  have hitems : listItems .indented fuel (ts ++ closeBracket :: rest) = .ok (items, rest) := by
    obtain ⟨fuel, rfl⟩ : ∃ n, fuel = n + 1 := ⟨fuel - 1, by omega⟩
    rcases h with ⟨rfl, rfl⟩ | ⟨hts, h⟩
    · rfl
    · exact (h rest fuel (by simp at hfuel ⊢; omega)).2
  show primary .indented (fuel + 1) (⟨.leftBracket, ['[']⟩ :: (ts ++ closeBracket :: rest)) = _
  unfold primary
  dsimp only
  rw [hitems]
  rfl

theorem parsesOperand_call {name : String} {args : List Expr} (hkey : name ∉ keywords dialect)
    (h : args = [] ∧ ts = [] ∨ Opens ts ∧ ParsesAll dialect args ts) :
    ParsesOperand dialect (.call name args)
      (ofName name :: openParen :: (ts ++ [closeParen])) := by
  refine parsesOperand_of_primary
    (fun rest => unaryOp?_name (not_ne_of_not_mem_keywords hkey) _) fun rest _ fuel hfuel => ?_
  simp only [List.cons_append, List.append_assoc, List.nil_append, List.length_cons] at hfuel ⊢
  obtain ⟨fuel, rfl⟩ : ∃ n, fuel = n + 1 := ⟨fuel - 1, by omega⟩
  have hargs := arguments_parse h (show 4 * (ts ++ closeParen :: rest).length + 4 ≤ fuel by omega)
  show primary dialect (fuel + 1 + 1)
    (⟨.name, name.toList⟩ :: ⟨.leftParen, ['(']⟩ :: (ts ++ closeParen :: rest)) = _
  unfold primary
  dsimp only
  show (arguments dialect (fuel + 1) (openParen :: (ts ++ closeParen :: rest)) >>= _) = _
  rw [hargs, String.ofList_toList]
  rfl

theorem parsesOperand_index {target position : Expr} (htarget : ParsesOperand dialect target ts)
    (h : ∀ rest fuel, 4 * (us ++ closeBracket :: rest).length + 4 ≤ fuel →
      expression dialect fuel 1 (us ++ closeBracket :: rest) =
        .ok (position, closeBracket :: rest)) :
    ParsesOperand dialect (.index target position)
      (ts ++ openBracket :: (us ++ [closeBracket])) := by
  intro rest _ fuel hfuel
  have hassoc : ts ++ openBracket :: (us ++ [closeBracket]) ++ rest =
      ts ++ openBracket :: (us ++ closeBracket :: rest) := by simp
  rw [hassoc] at hfuel ⊢
  obtain ⟨fuel', hfuel', heq⟩ := htarget _ (by simp [openBracket]) fuel hfuel
  rw [List.length_cons] at hfuel'
  obtain ⟨fuel', rfl⟩ : ∃ n, fuel' = n + 1 := ⟨fuel' - 1, by omega⟩
  have hposition := h rest fuel' (by omega)
  refine ⟨fuel', by rw [List.length_append, List.length_cons] at hfuel'; omega, ?_⟩
  rw [heq]
  show suffixes dialect (fuel' + 1) target
    (⟨.leftBracket, ['[']⟩ :: (us ++ closeBracket :: rest)) = _
  rw [suffixes, hposition]
  rfl

theorem parsesOperand_method {receiver : Expr} {name : String} {args : List Expr}
    (hreceiver : ParsesOperand dialect receiver ts)
    (h : args = [] ∧ us = [] ∨ Opens us ∧ ParsesAll dialect args us) :
    ParsesOperand dialect (.method receiver name args)
      (ts ++ dot :: ofName name :: openParen :: (us ++ [closeParen])) := by
  intro rest _ fuel hfuel
  have hassoc : ts ++ dot :: ofName name :: openParen :: (us ++ [closeParen]) ++ rest =
      ts ++ dot :: ofName name :: openParen :: (us ++ closeParen :: rest) := by simp
  rw [hassoc] at hfuel ⊢
  obtain ⟨fuel', hfuel', heq⟩ := hreceiver _ (by simp [dot]) fuel hfuel
  simp only [List.length_cons] at hfuel'
  obtain ⟨fuel', rfl⟩ : ∃ n, fuel' = n + 2 := ⟨fuel' - 2, by omega⟩
  have hargs := arguments_parse h (show 4 * (us ++ closeParen :: rest).length + 4 ≤ fuel' by omega)
  refine ⟨fuel' + 1, by rw [List.length_append, List.length_cons] at hfuel'; omega, ?_⟩
  rw [heq]
  show suffixes dialect (fuel' + 1 + 1) receiver
    (⟨.dot, ['.']⟩ :: ⟨.name, name.toList⟩ :: openParen :: (us ++ closeParen :: rest)) = _
  rw [suffixes]
  show (arguments dialect (fuel' + 1) (openParen :: (us ++ closeParen :: rest)) >>= _) = _
  rw [hargs]
  show suffixes dialect (fuel' + 1) (.method receiver (String.ofList name.toList) args) rest = _
  rw [String.ofList_toList]

end Expr

section Reading

open Stepwise.Expr

variable {dialect : Dialect}

mutual

/-- Written tokens are parsed as what they write. -/
theorem Written.parses : ∀ {k : Nat} {e : Expr} {ts : List Token}, Written dialect k e ts →
    Opens ts ∧ Parses dialect k e ts
  | _, _, _, .operand h =>
    have ih := Operand.parses h
    ⟨ih.1, parses_operand ih.2⟩
  | _, _, _, .unary hop hk h =>
    ⟨⟨_, _, rfl, by unfold UnaryOp.token; split_ifs <;> simp⟩,
      parses_unary hop hk (Written.parses h).2⟩
  | _, _, _, .binary hop hk hl hr =>
    have ih := Written.parses hl
    ⟨ih.1.append _, parses_binary hop hk ih.2 (Written.parses hr).2⟩

/-- Written operands are parsed as what they write. -/
theorem Operand.parses : ∀ {e : Expr} {ts : List Token}, Operand dialect e ts →
    Opens ts ∧ ParsesOperand dialect e ts
  | _, _, .int h => ⟨⟨_, _, rfl, nofun, nofun⟩, parsesOperand_int h⟩
  | _, _, .string => ⟨⟨_, _, rfl, nofun, nofun⟩, parsesOperand_string⟩
  | _, _, .constant h => ⟨⟨_, _, rfl, nofun, nofun⟩, parsesOperand_constant h⟩
  | _, _, .var _ hkey h => ⟨⟨_, _, rfl, nofun, nofun⟩, parsesOperand_var hkey h⟩
  | _, _, .paren h => ⟨⟨_, _, rfl, nofun, nofun⟩, parsesOperand_paren (Written.parses h).2⟩
  | _, _, .list hd h => ⟨⟨_, _, rfl, nofun, nofun⟩, parsesOperand_list hd (WrittenAll.parses h)⟩
  | _, _, .call _ hkey h =>
    ⟨⟨_, _, rfl, nofun, nofun⟩, parsesOperand_call hkey (WrittenAll.parses h)⟩
  | _, _, .index h h' =>
    have ih := Operand.parses h
    ⟨ih.1.append _, parsesOperand_index ih.2 fun _ _ hfuel =>
      (Written.parses h').2.eq_mark (by simp [closeBracket]) hfuel⟩
  | _, _, .method _ h _ h' =>
    have ih := Operand.parses h
    ⟨ih.1.append _, parsesOperand_method ih.2 (WrittenAll.parses h')⟩

theorem WrittenAll.parses : ∀ {es : List Expr} {ts : List Token}, WrittenAll dialect es ts →
    es = [] ∧ ts = [] ∨ Opens ts ∧ ParsesAll dialect es ts
  | _, _, .nil => .inl ⟨rfl, rfl⟩
  | _, _, .single h =>
    have ih := Written.parses h
    .inr ⟨ih.1, parsesAll_single ih.2 ih.1⟩
  | _, _, .cons hne h hes =>
    have ih := Written.parses h
    .inr ⟨ih.1.append _, parsesAll_cons ih.2 ih.1
      ((WrittenAll.parses hes).resolve_left fun hnil => hne hnil.1).2⟩

end

theorem first?_marks : ∀ t ∈ [openParen, closeParen, openBracket, closeBracket, comma], ∀ rest,
    first? dialect (t.text ++ rest) = some (t.kind, t.text, rest) := by
  intro t ht rest
  simp only [List.mem_cons, List.not_mem_nil, or_false] at ht
  rcases ht with rfl | rfl | rfl | rfl | rfl <;>
    exact first?_mark rfl (by cases dialect <;> decide) rfl

theorem stands_marks :
    ∀ t ∈ [openParen, closeParen, openBracket, closeBracket, comma], Stands dialect t := by
  have hne : ∀ t ∈ [openParen, closeParen, openBracket, closeBracket, comma], t.text ≠ [] := by
    decide
  exact fun t ht => ⟨hne t ht, fun rest _ => first?_marks t ht rest⟩

theorem stands_parens {ts : List Token} (h : ∀ t ∈ ts, Stands dialect t) :
    ∀ t ∈ openParen :: (ts ++ [closeParen]), Stands dialect t := by
  rw [List.forall_mem_cons, List.forall_mem_append, List.forall_mem_singleton]
  exact ⟨stands_marks _ (by decide), h, stands_marks _ (by decide)⟩

theorem stands_brackets {ts : List Token} (h : ∀ t ∈ ts, Stands dialect t) :
    ∀ t ∈ openBracket :: (ts ++ [closeBracket]), Stands dialect t := by
  rw [List.forall_mem_cons, List.forall_mem_append, List.forall_mem_singleton]
  exact ⟨stands_marks _ (by decide), h, stands_marks _ (by decide)⟩

theorem stands_unary {op : UnaryOp} (h : op ∈ UnaryOp.ofDialect dialect) :
    Stands dialect op.token := by
  have hsigns : ∀ op ∈ UnaryOp.ofDialect dialect, op ≠ .not →
      op.symbol.toList ∈ (operators dialect).map String.toList := by cases dialect <;> decide
  unfold UnaryOp.token
  split_ifs with hnot
  · subst hnot
    exact stands_name (by decide)
  · exact stands_operator (hsigns op h hnot)

theorem stands_binary {op : BinaryOp} (h : op ∈ BinaryOp.ofDialect dialect) :
    ∀ t ∈ op.tokens, Stands dialect t := by
  have hsymbols : ∀ op ∈ BinaryOp.ofDialect dialect, op ∉ [BinaryOp.and, .or, .mem, .notMem] →
      op.symbol.toList ∈ (operators dialect).map String.toList := by cases dialect <;> decide
  have hwords : ∀ op ∈ [BinaryOp.and, .or, .mem], isName op.symbol.toList = true := by decide
  unfold BinaryOp.tokens
  split_ifs with hnotMem hword
  · exact List.forall_mem_cons.2
      ⟨stands_name (by decide), List.forall_mem_singleton.2 (stands_name (by decide))⟩
  · exact List.forall_mem_singleton.2 (stands_name (hwords op hword))
  · refine List.forall_mem_singleton.2 (stands_operator (hsymbols op h ?_))
    simp_all

theorem stands_constant {name : String} {v : Literal} (h : (name, v) ∈ constants dialect) :
    Stands dialect (ofName name) := by
  have hnames : ∀ p ∈ constants dialect, isName p.1.toList = true := by cases dialect <;> decide
  exact stands_name (hnames _ h)

theorem stands_digits (n : Nat) : Stands dialect ⟨.number, Nat.toDigits 10 n⟩ :=
  stands_number Nat.toDigits_ne_nil fun _ hc =>
    isDecimal_of_isDigit (Nat.isDigit_of_mem_toDigits (by decide) (by decide) hc)

mutual

theorem Written.stands : ∀ {k : Nat} {e : Expr} {ts : List Token}, Written dialect k e ts →
    ∀ t ∈ ts, Stands dialect t
  | _, _, _, .operand h => Operand.stands h
  | _, _, _, .unary hop _ h => List.forall_mem_cons.2 ⟨stands_unary hop, Written.stands h⟩
  | _, _, _, .binary hop _ hl hr =>
    List.forall_mem_append.2 ⟨Written.stands hl,
      List.forall_mem_append.2 ⟨stands_binary hop, Written.stands hr⟩⟩

/-- Every token of a written operand can stand by itself. -/
theorem Operand.stands : ∀ {e : Expr} {ts : List Token}, Operand dialect e ts →
    ∀ t ∈ ts, Stands dialect t
  | _, _, .int _ => List.forall_mem_singleton.2 (stands_digits _)
  | _, _, .string => List.forall_mem_singleton.2 (stands_string _)
  | _, _, .constant h => List.forall_mem_singleton.2 (stands_constant h)
  | _, _, .var h _ _ => List.forall_mem_singleton.2 (stands_name h)
  | _, _, .paren h => stands_parens (Written.stands h)
  | _, _, .list _ h => stands_brackets (WrittenAll.stands h)
  | _, _, .call hname _ h =>
    List.forall_mem_cons.2 ⟨stands_name hname,
      stands_parens (WrittenAll.stands h)⟩
  | _, _, .index h h' =>
    List.forall_mem_append.2 ⟨Operand.stands h,
      stands_brackets (Written.stands h')⟩
  | _, _, .method hd h hname h' =>
    List.forall_mem_append.2 ⟨Operand.stands h,
      List.forall_mem_cons.2 ⟨hd ▸ stands_dot, List.forall_mem_cons.2 ⟨stands_name hname,
        stands_parens (WrittenAll.stands h')⟩⟩⟩

theorem WrittenAll.stands : ∀ {es : List Expr} {ts : List Token}, WrittenAll dialect es ts →
    ∀ t ∈ ts, Stands dialect t
  | _, _, .nil => List.forall_mem_nil _
  | _, _, .single h => Written.stands h
  | _, _, .cons _ h hes =>
    List.forall_mem_append.2 ⟨Written.stands h,
      List.forall_mem_cons.2 ⟨stands_marks _ (by decide), WrittenAll.stands hes⟩⟩

end

end Reading

/-- A literal that a token of the dialect can be written for. -/
def Literal.Writable (dialect : Dialect) : Literal → Prop
  | .none | .bool _ => dialect = .indented
  | .int n => 0 ≤ n ∧ (Nat.toDigits 10 n.toNat).length ≤ maxDigits
  | .float _ => False
  | .str _ => True

mutual

/-- The expression belongs to the dialect, its names are names, and its numbers are not negative and
not too long. -/
def Expr.Writable (dialect : Dialect) : Expr → Prop
  | .lit v => v.Writable dialect
  | .var name =>
    isName name.toList = true ∧ name ∉ keywords dialect ∧ (constants dialect).lookup name = none
  | .list items => dialect = .indented ∧ Expr.WritableAll dialect items
  | .unary op e => op ∈ UnaryOp.ofDialect dialect ∧ e.Writable dialect
  | .binary op left right =>
    op ∈ BinaryOp.ofDialect dialect ∧ left.Writable dialect ∧ right.Writable dialect
  | .index target position => target.Writable dialect ∧ position.Writable dialect
  | .call name args =>
    isName name.toList = true ∧ name ∉ keywords dialect ∧ Expr.WritableAll dialect args
  | .method receiver name args =>
    dialect = .indented ∧ receiver.Writable dialect ∧ isName name.toList = true ∧
      Expr.WritableAll dialect args

/-- All of several expressions can be written. -/
def Expr.WritableAll (dialect : Dialect) : List Expr → Prop
  | [] => True
  | e :: es => e.Writable dialect ∧ Expr.WritableAll dialect es

end

/-- The token of a literal. -/
def Literal.token : Literal → Token
  | .none => ofName "None"
  | .bool b => ofName (if b then "True" else "False")
  | .int n => ⟨.number, Nat.toDigits 10 n.toNat⟩
  | .float _ => ⟨.number, []⟩
  | .str text => ⟨.string, quoted text.toList⟩

/-- Tokens in parentheses, where the level of their operator is too low. -/
def grouped (level least : Nat) (ts : List Token) : List Token :=
  if least ≤ level then ts else openParen :: (ts ++ [closeParen])

/-- A level that no operator has: that of the target of an index or a method. -/
def targetPrecedence : Nat := 9

mutual

/-- The tokens of an expression at a level, with no more parentheses than it needs. -/
def Expr.write (dialect : Dialect) (least : Nat) : Expr → List Token
  | .lit v => [v.token]
  | .var name => [ofName name]
  | .list items => openBracket :: (Expr.writeAll dialect items ++ [closeBracket])
  | .unary op e => grouped op.precedence least (op.token :: e.write dialect op.precedence)
  | .binary op left right =>
    grouped (op.precedence dialect) least
      (left.write dialect (op.leftPrecedence dialect) ++
        (op.tokens ++ right.write dialect (op.rightPrecedence dialect)))
  | .index target position =>
    target.write dialect targetPrecedence ++
      openBracket :: (position.write dialect 1 ++ [closeBracket])
  | .call name args =>
    ofName name :: openParen :: (Expr.writeAll dialect args ++ [closeParen])
  | .method receiver name args =>
    receiver.write dialect targetPrecedence ++
      dot :: ofName name :: openParen :: (Expr.writeAll dialect args ++ [closeParen])

/-- The tokens of several expressions, with commas between them. -/
def Expr.writeAll (dialect : Dialect) : List Expr → List Token
  | [] => []
  | [e] => e.write dialect 1
  | e :: es => e.write dialect 1 ++ comma :: Expr.writeAll dialect es

end

section Printing

variable {dialect : Dialect}

theorem operand_literal {v : Literal} (h : v.Writable dialect) :
    Operand dialect (.lit v) [v.token] := by
  cases v with
  | none =>
    cases h
    exact .constant (by decide)
  | bool b =>
    cases h
    cases b <;> exact .constant (by decide)
  | int n =>
    obtain ⟨n, rfl⟩ := Int.eq_ofNat_of_zero_le h.1
    exact .int h.2
  | float _ => exact h.elim
  | str text => exact .string

/-- Tokens that write an operation at its own level write it at any level once they are grouped. -/
theorem Written.grouped {e : Expr} {ts : List Token} {level : Nat} (hpos : 1 ≤ level)
    (h : ∀ k ≤ level, Written dialect k e ts) (least : Nat) :
    Written dialect least e (grouped level least ts) ∧
      (level < least → Operand dialect e (Stepwise.grouped level least ts)) := by
  unfold Stepwise.grouped
  split_ifs with hle
  · exact ⟨h least hle, fun hlt => by omega⟩
  · have hparen := Operand.paren (h 1 hpos)
    exact ⟨.operand hparen, fun _ => hparen⟩

theorem one_le_precedence (op : BinaryOp) :
    1 ≤ op.precedence dialect ∧ op.precedence dialect < targetPrecedence := by
  cases op <;> cases dialect <;> decide

theorem UnaryOp.one_le_precedence (op : UnaryOp) :
    1 ≤ op.precedence ∧ op.precedence < targetPrecedence := by
  cases op <;> decide

mutual

/-- The printer writes every writable expression. -/
theorem written_write : ∀ (e : Expr), e.Writable dialect → ∀ k,
    Written dialect k e (e.write dialect k) ∧
      (targetPrecedence ≤ k → Operand dialect e (e.write dialect k))
  | .lit v, h, k =>
    have h := operand_literal h
    ⟨.operand h, fun _ => h⟩
  | .var name, h, k =>
    have h := Operand.var h.1 h.2.1 h.2.2
    ⟨.operand h, fun _ => h⟩
  | .list items, h, k =>
    have h := Operand.list h.1 (writtenAll_writeAll items h.2)
    ⟨.operand h, fun _ => h⟩
  | .unary op e, h, k => by
    have hlevel := op.one_le_precedence
    have ih := (written_write e h.2 op.precedence).1
    obtain ⟨hw, ho⟩ := Written.grouped hlevel.1 (fun j hj => .unary h.1 hj ih) k
    exact ⟨hw, fun hk => ho (by omega)⟩
  | .binary op left right, h, k => by
    have hlevel := @one_le_precedence dialect op
    have ihl := (written_write left h.2.1 (op.leftPrecedence dialect)).1
    have ihr := (written_write right h.2.2 (op.rightPrecedence dialect)).1
    obtain ⟨hw, ho⟩ := Written.grouped hlevel.1 (fun j hj => .binary h.1 hj ihl ihr) k
    exact ⟨hw, fun hk => ho (by omega)⟩
  | .index target position, h, k =>
    have h := Operand.index ((written_write target h.1 targetPrecedence).2 (Nat.le_refl _))
      (written_write position h.2 1).1
    ⟨.operand h, fun _ => h⟩
  | .call name args, h, k =>
    have h := Operand.call h.1 h.2.1 (writtenAll_writeAll args h.2.2)
    ⟨.operand h, fun _ => h⟩
  | .method receiver name args, h, k =>
    have h := Operand.method h.1 ((written_write receiver h.2.1 targetPrecedence).2 (Nat.le_refl _))
      h.2.2.1 (writtenAll_writeAll args h.2.2.2)
    ⟨.operand h, fun _ => h⟩

theorem writtenAll_writeAll : ∀ (es : List Expr), Expr.WritableAll dialect es →
    WrittenAll dialect es (Expr.writeAll dialect es)
  | [], _ => .nil
  | [e], h => .single (written_write e h.1 1).1
  | e :: e' :: es, h =>
    .cons (List.cons_ne_nil _ _) (written_write e h.1 1).1 (writtenAll_writeAll (e' :: es) h.2)

end

end Printing

section Parsing

open Stepwise.Expr

variable {dialect : Dialect}

theorem Expr.Parses.ofTokens {e : Expr} {ts : List Token} (h : Parses dialect 1 e ts)
    (hts : Opens ts) : ofTokens dialect ts = .ok e := by
  obtain ⟨t, us, rfl, -⟩ := hts
  have heq : expression dialect (4 * ((t :: us).length + 2)) 1 (t :: us ++ []) = .ok (e, []) :=
    h.eq stops_nil (by simp [binaryOp?]) (by simp; omega)
  rw [List.append_nil] at heq
  unfold Expr.ofTokens
  rw [List.isEmpty_cons, if_neg Bool.false_ne_true]
  show (expression dialect (4 * ((t :: us).length + 2)) 1 (t :: us) >>= _) = _
  rw [heq]
  rfl

theorem Written.ofTokens {e : Expr} {ts : List Token} (h : Written dialect 1 e ts) :
    ofTokens dialect ts = .ok e :=
  h.parses.2.ofTokens h.parses.1

theorem Written.parse {e : Expr} {ts : List Token} {text : List Char} (h : Written dialect 1 e ts)
    (htext : tokenize dialect text = .ok ts) : parse dialect text = .ok e := by
  rw [Expr.parse, htext]
  exact h.ofTokens

/-- A number of too many digits can be written but is not read. -/
theorem parse_digits_error {n : Nat} (h : maxDigits < (Nat.toDigits 10 n).length) :
    ∃ text, Spaced ((Expr.lit (.int n)).write dialect 1) text ∧
      parse dialect text = .error .longNumeral := by
  have hspaced : Spaced [⟨.number, Nat.toDigits 10 n⟩] (Nat.toDigits 10 n ++ []) :=
    .token apart_nil .nil
  have hliteral := numberLiteral_toDigits n
  rw [if_pos h] at hliteral
  refine ⟨_, hspaced, ?_⟩
  rw [parse, tokenize_spaced hspaced (List.forall_mem_singleton.2 (stands_digits n))]
  show (operand dialect 11 [⟨.number, Nat.toDigits 10 n⟩] >>= _) >>= _ = _
  rw [operand]
  show ((primary dialect 10 [⟨.number, Nat.toDigits 10 n⟩] >>= _) >>= _) >>= _ = _
  rw [primary, hliteral]
  rfl

theorem lt_length_toDigits_pow (k : Nat) : k < (Nat.toDigits 10 (Nat.pow 10 k)).length := by
  refine Nat.lt_of_not_le fun hle => Nat.lt_irrefl (Nat.pow 10 k) ?_
  rcases Nat.eq_zero_or_pos k with rfl | hk
  · exact absurd (List.length_eq_zero_iff.1 (Nat.le_zero.1 hle)) Nat.toDigits_ne_nil
  · exact (Nat.length_toDigits_le_iff (by decide) hk).1 hle

/-- The parser does not read back a number of more digits than a numeral may have. -/
theorem parse_overlong :
    ∃ text, Spaced ((Expr.lit (.int (Nat.pow 10 maxDigits : Nat))).write .indented 1) text ∧
      parse .indented text = .error .longNumeral :=
  parse_digits_error (lt_length_toDigits_pow maxDigits)

/-- Every expression of the dialect can be written, and the parser reads it back from any way to
write it. -/
theorem parse_written (dialect : Dialect) (e : Expr) (he : e.Writable dialect) :
    Written dialect 1 e (e.write dialect 1) ∧
      ∀ ts text, Written dialect 1 e ts → Spaced ts text → parse dialect text = .ok e := by
  refine ⟨(written_write e he 1).1, fun ts text hts htext => ?_⟩
  rw [parse, tokenize_spaced htext hts.stands]
  exact hts.ofTokens

/-- The parentheses around the target are needed, those around the index are not. -/
theorem parse_written_index :
    parse .indented ['(', '\t', '-', ' ', 'x', ' ', ')', ' ', '[', ' ', '(', ' ', '"', '\\', '"',
        '"', '\n', ')', ' ', ']'] =
      .ok (.index (.unary .neg (.var "x")) (.lit (.str "\""))) := by
  have hneg : UnaryOp.neg ∈ UnaryOp.ofDialect .indented := by decide
  have hx : Operand .indented (.var "x") [ofName "x"] :=
    .var (by decide) (by decide) (by decide)
  have htarget : Operand .indented (.unary .neg (.var "x"))
      [openParen, UnaryOp.token .neg, ofName "x", closeParen] :=
    .paren (.unary hneg (by decide) (.operand hx))
  have hstring : Written .indented 1 (.lit (.str "\""))
      [openParen, ⟨.string, quoted ['"']⟩, closeParen] :=
    .operand (.paren (.operand .string))
  have hwritable : (Expr.index (.unary .neg (.var "x")) (.lit (.str "\""))).Writable .indented :=
    ⟨⟨hneg, by decide, by decide, by decide⟩, trivial⟩
  refine (parse_written .indented _ hwritable).2 _ _ (.operand (.index htarget hstring)) ?_
  refine .token (t := openParen) (apart_cons rfl) (.blank rfl ?_)
  refine .token (t := UnaryOp.token .neg) (apart_cons rfl) (.blank rfl ?_)
  refine .token (t := ofName "x") (apart_cons rfl) (.blank rfl ?_)
  refine .token (t := closeParen) (apart_cons rfl) (.blank rfl ?_)
  refine .token (t := openBracket) (apart_cons rfl) (.blank rfl ?_)
  refine .token (t := openParen) (apart_cons rfl) (.blank rfl ?_)
  refine .token (t := ⟨.string, quoted ['"']⟩) (apart_cons rfl) (.blank rfl ?_)
  refine .token (t := closeParen) (apart_cons rfl) (.blank rfl ?_)
  exact .token (t := closeBracket) apart_nil .nil

end Parsing

end Stepwise
