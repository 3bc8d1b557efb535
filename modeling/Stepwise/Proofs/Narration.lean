import Mathlib.Data.List.Infix
import Mathlib.Data.List.TakeWhile
import Stepwise.Eval.Session
import Stepwise.Proofs.Outcome
import Stepwise.Proofs.Spacing

/-!
# Narration of method calls

A method call as a statement is recorded with the text in front of its method, the name of the
method and the values of the arguments. The method is looked for in the text from the back, so what
is shown is the receiver as it is written just if nothing stands in front of it and the method is
not mentioned behind it (`simple_method_narration`).
-/

namespace Stepwise

open Text

namespace Text

variable {needle text : List Char}

theorem lastIndexOf?_eq_none_iff (hne : needle ≠ []) :
    lastIndexOf? needle text = none ↔ ¬needle <:+: text := by
  induction text with
  | nil => simp [lastIndexOf?, hne]
  | cons c text ih =>
    rw [lastIndexOf?, List.infix_cons_iff, not_or, ← ih]
    cases lastIndexOf? needle text <;> simp

theorem lastIndexOf?_append (front : List Char) {i : Nat} (h : lastIndexOf? needle text = some i) :
    lastIndexOf? needle (front ++ text) = some (front.length + i) := by
  induction front with
  | nil => simpa using h
  | cons c front ih =>
    rw [List.cons_append, lastIndexOf?, ih]
    simp only [List.length_cons, Option.some.injEq]
    omega

theorem infix_append_iff {c : Char} {front : List Char} (hc : c ∉ front) :
    c :: needle <:+: front ++ text ↔ c :: needle <:+: text := by
  induction front with
  | nil => rfl
  | cons d front ih =>
    rw [List.mem_cons, not_or] at hc
    rw [List.cons_append, List.infix_cons_iff, ih hc.2, List.cons_prefix_cons]
    simp [hc.1]

end Text

namespace Token

/-- A name holds no point. -/
theorem Lexed.not_mem_point {dialect : Dialect} {name : List Char}
    (h : Lexed dialect ⟨.name, name⟩) : '.' ∉ name := by
  intro hpoint
  have hword := isWord_of_isName h.isName '.' hpoint
  cases hword

end Token

section Names

variable {dialect : Dialect} {receiver : Expr} {name : String} {args : List Expr}

theorem Derives.not_mem_point : ∀ {e : Expr} {ts : List Token}, Derives dialect e ts →
    Expr.AllLexed dialect ts → e = .method receiver name args → '.' ∉ name.toList
  | _, _, .paren _ _ h, ht, he =>
    not_mem_point h (Expr.allLexed_append.1 (Expr.allLexed_cons.1 ht).2).1 he
  | _, _, .method _ _ _ _ _, ht, he => by
    cases he
    rw [String.toList_ofList]
    rw [Expr.allLexed_append, Expr.allLexed_cons, Expr.allLexed_cons] at ht
    exact ht.2.2.1.not_mem_point
  | _, _, .literal _, _, he | _, _, .constant _, _, he | _, _, .var _, _, he
  | _, _, .unary _ _, _, he | _, _, .binary _ _ _, _, he | _, _, .index _ _ _ _, _, he
  | _, _, .call _ _ _, _, he | _, _, .list _ _ _ _, _, he
  | _, _, .listComma _ _ _ _ _ _, _, he => by cases he

/-- The name of a method that is read from a text holds no point. -/
theorem Expr.not_mem_point_of_parse? {text : List Char}
    (h : parse? dialect text = .ok (some (.method receiver name args))) : '.' ∉ name.toList := by
  unfold parse? at h
  split at h
  · rename_i e hparse
    cases h
    obtain ⟨ts, -, hlexed, he⟩ := derives_of_parse hparse
    exact he.not_mem_point hlexed rfl
  · cases h
  · cases h

end Names

namespace Indented

/-- The explanation of a method call. -/
def narration (receiver : List Char) (name : String) (described : Text) : Text :=
  ofChars receiver ++ ("." ++ ofString name ++ "(" ++ described ++ ")" : Text)

/-- A method call as a statement, with this text for the receiver in its explanation. -/
def narratedCall (host : Host) (line : Nat) (shown : List Char) (receiver : Expr) (name : String)
    (args : List Expr) (scope : Scope) : Run Scope := do
  let values ← host.evaluateEach scope args
  let _ ← host.callMethod scope receiver name values
  let described ← host.describeAll values
  host.record line .expression (narration shown name described) scope
  pure scope

theorem narration_inj {shown written : List Char} {name : String} {described : Text} :
    narration shown name described = narration written name described ↔ shown = written := by
  rw [narration, narration, List.append_cancel_right_eq]
  exact (List.map_injective_iff.2 CodePoint.ofChar_injective).eq_iff

/-- The text that is shown for a receiver ends where the method is mentioned last. -/
theorem receiverText_eq_iff {before written rest : List Char} {name : String}
    (hname : '.' ∉ name.toList) :
    receiverText (before ++ written ++ '.' :: (name.toList ++ '(' :: rest)) name = written ↔
      before = [] ∧ ¬('.' :: name.toList) <:+: rest := by
  have hbehind : ('.' :: name.toList) <:+: name.toList ++ '(' :: rest ↔
      ('.' :: name.toList) <:+: rest := by
    rw [← List.singleton_append (l := rest), ← List.append_assoc, infix_append_iff]
    simpa using hname
  rw [← hbehind]
  cases hlast : lastIndexOf? ('.' :: name.toList) (name.toList ++ '(' :: rest) with
  | none =>
    have hhere : lastIndexOf? ('.' :: name.toList) ('.' :: (name.toList ++ '(' :: rest)) =
        some 0 := by
      rw [lastIndexOf?, hlast]
      simp
    have hnone := (lastIndexOf?_eq_none_iff (List.cons_ne_nil _ _)).1 hlast
    rw [receiverText, lastIndexOf?_append _ hhere, Nat.add_zero]
    dsimp only
    rw [List.take_left]
    simp [hnone]
  | some i =>
    have hsome : ('.' :: name.toList) <:+: name.toList ++ '(' :: rest := by
      by_contra hno
      rw [(lastIndexOf?_eq_none_iff (List.cons_ne_nil _ _)).2 hno] at hlast
      cases hlast
    have hlater := lastIndexOf?_append (before ++ written ++ ['.']) hlast
    rw [List.append_assoc, List.singleton_append] at hlater
    rw [receiverText, hlater]
    refine iff_of_false (fun hshown => ?_) fun h => h.2 hsome
    have hlength := congrArg List.length hshown
    simp only [List.length_take, List.length_append, List.length_cons, List.length_nil] at hlength
    omega

theorem narration_eq (shown : List Char) (name : String) (described : Text) :
    ofString s!"{String.ofList shown}.{name}(" ++ described ++ ofString ")" =
      narration shown name described := by
  have htext : s!"{String.ofList shown}.{name}(" = String.ofList shown ++ "." ++ name ++ "(" := rfl
  rw [htext]
  simp [narration, ofString, ofChars]

theorem callMethod_eq (host : Host) (line : Nat) (text : List Char) (receiver : Expr)
    (name : String) (args : List Expr) (scope : Scope) :
    (callMethod host line text receiver name args scope >>= fun _ => pure scope) =
      narratedCall host line (receiverText text name) receiver name args scope := by
  simp only [callMethod, narratedCall, bind_assoc, narration_eq]

/-- A method call as a statement evaluates the arguments, calls the method and is recorded with what
the explanation shows for the receiver. That is the receiver as it is written in the text, exactly
if nothing is written in front of it and the method is not mentioned behind it. -/
theorem simple_method_narration {host : Host} (hd : host.dialect = .indented) (line : Nat)
    (scope : Scope) {text before written rest : List Char} {receiver : Expr} {name : String}
    {args : List Expr} (hprint : printArguments? text = none)
    (hassign : Source.Assignment.split? text = none)
    (hparse : Expr.parse? .indented text = .ok (some (.method receiver name args)))
    (htext : text = before ++ written ++ '.' :: (name.toList ++ '(' :: rest)) :
    ∃ shown, simple host line text scope =
        narratedCall host line shown receiver name args scope ∧
      ∀ described, narration shown name described = narration written name described ↔
        before = [] ∧ ¬('.' :: name.toList) <:+: rest := by
  refine ⟨receiverText text name, ?_, fun described => ?_⟩
  · rw [← callMethod_eq]
    simp only [simple, hprint, hassign, Host.parse, hd, hparse]
    rfl
  · rw [narration_inj, htext]
    exact receiverText_eq_iff (Expr.not_mem_point_of_parse? hparse)

/-- The method that a text calls. -/
def calledMethod? (text : List Char) : Option String :=
  match Expr.parse? .indented text with
  | .ok (some (.method _ name _)) => some name
  | _ => none

theorem exists_of_calledMethod? {text : List Char} {name : String}
    (h : calledMethod? text = some name) :
    ∃ receiver args, Expr.parse? .indented text = .ok (some (.method receiver name args)) := by
  unfold calledMethod? at h
  split at h
  · rename_i receiver _ args hparse
    cases h
    exact ⟨receiver, args, hparse⟩
  · cases h

/-- A call of another method among the arguments does not change what is shown. -/
theorem simple_method_narration_nested :
    ∃ receiver args,
      Expr.parse? .indented "a[0].append(b.pop())".toList =
          .ok (some (.method receiver "append" args)) ∧
        ∃ shown, simple (Session.hostOf .indented {} []) 3 "a[0].append(b.pop())".toList .empty =
            narratedCall (Session.hostOf .indented {} []) 3 shown receiver "append" args .empty ∧
          ∀ described,
            narration shown "append" described = narration "a[0]".toList "append" described := by
  have hcalled : calledMethod? "a[0].append(b.pop())".toList = some "append" := by decide +kernel
  have htext : "a[0].append(b.pop())".toList =
      [] ++ "a[0]".toList ++ '.' :: ("append".toList ++ '(' :: "b.pop())".toList) := by
    decide +kernel
  have hd : (Session.hostOf .indented {} []).dialect = .indented := rfl
  obtain ⟨receiver, args, hparse⟩ := exists_of_calledMethod? hcalled
  obtain ⟨shown, hsimple, hshown⟩ := simple_method_narration hd 3 .empty (by decide +kernel)
    (by decide +kernel) hparse htext
  exact ⟨receiver, args, hparse, shown, hsimple,
    fun described => (hshown described).2 ⟨rfl, by decide +kernel⟩⟩

/-- A method that is mentioned again among the arguments, or a call in parentheses, is narrated with
more than the receiver. -/
theorem narration_mentions_method :
    ((Stepwise.runProgram .indented {} (Stepwise.layout .indented
      "a = [0]\na.count(a.count(1))\n(a.count(1))".toList)).outcome {}).2.recorder.steps.map
        (·.explanation) =
      [("a = [0]" : Text), ("a.count(a.count(0)" : Text), ("(a.count(1)" : Text)] := by
  decide +kernel

end Indented

end Stepwise
