/-!
# Code points and texts

A source is written in characters. A text that a program computes is a list of code points: besides
characters it can hold surrogates on their own, which a program makes from their codes.
-/

namespace Stepwise

/-- A character, or a surrogate on its own. -/
abbrev CodePoint := Fin 0x110000

namespace CodePoint

def ofChar (c : Char) : CodePoint :=
  ⟨c.toNat, by
    have h : c.toNat.isValidChar := c.valid
    simp only [Nat.isValidChar] at h
    omega⟩

instance : Coe Char CodePoint := ⟨ofChar⟩

/-- The code point with this number, if there is one. -/
def ofInt? (n : Int) : Option CodePoint :=
  if h : 0 ≤ n ∧ n < 0x110000 then some ⟨n.toNat, by omega⟩ else none

/-- The code point is half of a pair, and no character. -/
def isSurrogate (p : CodePoint) : Bool :=
  0xD800 ≤ p.val && p.val < 0xE000

/-- The character, if it is one. -/
def char? (p : CodePoint) : Option Char :=
  if p.isSurrogate then none else some (Char.ofNat p.val)

theorem isSurrogate_ofChar (c : Char) : (ofChar c).isSurrogate = false := by
  rw [Bool.eq_false_iff]
  intro h
  simp only [isSurrogate, Bool.and_eq_true, decide_eq_true_eq] at h
  have h : 0xD800 ≤ c.toNat ∧ c.toNat < 0xE000 := h
  have v : c.toNat.isValidChar := c.valid
  simp only [Nat.isValidChar] at v
  omega

theorem char?_ofChar (c : Char) : (ofChar c).char? = some c := by
  simp only [char?, isSurrogate_ofChar]
  simp [ofChar]

theorem ofChar_injective : Function.Injective ofChar := fun c d h =>
  Option.some.inj (by rw [← char?_ofChar c, h, char?_ofChar])

end CodePoint

/-- A text that a program computes. -/
abbrev Text := List CodePoint

namespace Text

def ofChars (text : List Char) : Text := text.map CodePoint.ofChar

def ofString (s : String) : Text := ofChars s.toList

instance : Coe String Text := ⟨ofString⟩

/-- The characters of a text without surrogates. -/
def chars? (t : Text) : Option (List Char) := t.mapM CodePoint.char?

/-- The characters of a text, surrogates shown as the replacement character. -/
def asString (t : Text) : String :=
  String.ofList (t.map fun p => p.char?.getD '�')

/-- The order of two texts, by their first difference. -/
def order : Text → Text → Ordering
  | [], [] => .eq
  | [], _ :: _ => .lt
  | _ :: _, [] => .gt
  | p :: s, q :: t => if p < q then .lt else if q < p then .gt else order s t

/-- The texts one after the other, with `separator` between them. -/
def joined (separator : Text) (texts : List Text) : Text :=
  separator.intercalate texts

end Text

end Stepwise
