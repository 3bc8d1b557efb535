import Mathlib.Data.List.Induction
import Stepwise.Proofs.Outcome

/-!
# Output entries

A write adds its text and its ending to the output, which is kept in entries. An ending that
finishes with a line feed closes the entry; any other leaves it open, and the next write goes on
with it. So the line feeds that close entries are not in the entries themselves, and all others are:
of what was written nothing is lost and nothing is there twice (`output_of_writes`).
-/

namespace Stepwise

open Run Text

/-- The ending finishes with a line feed. -/
def EndsLine (ending : Text) : Prop := ("\n" : Text) <:+ ending

instance : DecidablePred EndsLine := fun ending => inferInstanceAs (Decidable (_ <:+ ending))

theorem getLast?_beq_newline (ending : Text) :
    (ending.getLast? == some (CodePoint.ofChar '\n')) = decide (EndsLine ending) := by
  rw [Bool.eq_iff_iff, beq_iff_eq, List.getLast?_eq_some_iff, decide_eq_true_iff]
  exact exists_congr fun _ => eq_comm

theorem joined_cons (separator first : Text) (texts : List Text) :
    joined separator (first :: texts) = first ++ texts.flatMap (separator ++ ·) := by
  induction texts generalizing first with
  | nil => simp [joined]
  | cons t texts ih =>
    rw [joined, List.intercalate_cons_cons, ← joined, ih, List.flatMap_cons]
    simp only [List.append_assoc]

theorem joined_concat (separator last : Text) {texts : List Text} (hne : texts ≠ []) :
    joined separator (texts ++ [last]) = joined separator texts ++ (separator ++ last) := by
  obtain ⟨first, more, rfl⟩ := List.exists_cons_of_ne_nil hne
  simp [joined_cons]

theorem joined_concat_append (separator last more : Text) (texts : List Text) :
    joined separator (texts ++ [last ++ more]) = joined separator (texts ++ [last]) ++ more := by
  cases texts <;> simp [joined_cons]

namespace Recorder

/-- What a write adds to an entry: its ending without the line feed that closes the entry. -/
def added (text ending : Text) : Text := text ++ if EndsLine ending then ending.dropLast else ending

/-- The line feed that stands for a closed entry. -/
def closing (isOpen : Bool) : Text := if isOpen then [] else "\n"

/-- The output as one text: line feeds between the entries, and one behind the last unless it is
left open. -/
def transcript (r : Recorder) : Text := joined "\n" r.output ++ closing r.entryOpen

theorem added_append_closing (text ending : Text) :
    added text ending ++ closing (!decide (EndsLine ending)) = text ++ ending := by
  rw [added, List.append_assoc]
  by_cases h : EndsLine ending
  · obtain ⟨front, rfl⟩ := id h
    rw [if_pos h, decide_eq_true h]
    exact congrArg (fun kept => text ++ (kept ++ _)) List.dropLast_concat
  · rw [if_neg h, decide_eq_false h]
    exact congrArg _ (List.append_nil ending)

theorem entryOpen_write (r : Recorder) (text ending : Text) :
    (r.write text ending).entryOpen = !decide (EndsLine ending) := by
  rw [← getLast?_beq_newline]
  rfl

/-- A write to an open entry goes on with it. -/
theorem output_write_open {r : Recorder} {newest : Text} {older : List Text}
    (ho : r.entryOpen = true) (he : r.entries = newest :: older) (text ending : Text) :
    (r.write text ending).output = older.reverse ++ [newest ++ added text ending] := by
  simp only [write, output, added, ho, he, getLast?_beq_newline, decide_eq_true_eq,
    List.reverse_cons]

/-- A write to a closed entry begins another one. -/
theorem output_write_closed {r : Recorder} (ho : r.entryOpen = false) (text ending : Text) :
    (r.write text ending).output = r.output ++ [added text ending] := by
  simp only [write, output, added, ho, getLast?_beq_newline, decide_eq_true_eq, List.reverse_cons]

/-- What the output is after some writes and a last one. -/
structure Wrote (before : List (Text × Text)) (last : Text × Text) (r : Recorder) : Prop where
  transcript : r.transcript = (before ++ [last]).flatMap fun w => w.1 ++ w.2
  entryOpen : r.entryOpen = !decide (EndsLine last.2)
  length : r.output.length = 1 + before.countP fun w => EndsLine w.2

namespace Wrote

variable {before : List (Text × Text)} {last : Text × Text} {r : Recorder}

theorem first (ho : r.entryOpen = false) (he : r.entries = []) (w : Text × Text) :
    Wrote [] w (r.write w.1 w.2) where
  transcript := by
    rw [Recorder.transcript, output_write_closed ho, entryOpen_write, output, he]
    simpa [joined] using added_append_closing w.1 w.2
  entryOpen := entryOpen_write r w.1 w.2
  length := by
    rw [output_write_closed ho, output, he]
    rfl

theorem exists_entries (h : Wrote before last r) : ∃ newest older, r.entries = newest :: older := by
  refine List.exists_cons_of_ne_nil fun he => ?_
  have hlen := h.length
  rw [output, he] at hlen
  exact absurd hlen (by simp [Nat.add_comm 1])

/-- The newest entry goes on if it was left open. -/
theorem write_open (h : Wrote before last r) (ho : ¬ EndsLine last.2) (w : Text × Text) :
    Wrote (before ++ [last]) w (r.write w.1 w.2) := by
  obtain ⟨newest, older, he⟩ := h.exists_entries
  have hopen : r.entryOpen = true := by rw [h.entryOpen, decide_eq_false ho, Bool.not_false]
  have houtput : r.output = older.reverse ++ [newest] := by rw [output, he, List.reverse_cons]
  refine ⟨?_, entryOpen_write r w.1 w.2, ?_⟩
  · have htext := h.transcript
    rw [Recorder.transcript, hopen, closing, if_pos rfl, List.append_nil] at htext
    rw [Recorder.transcript, output_write_open hopen he, joined_concat_append, ← houtput, htext,
      entryOpen_write, List.append_assoc, added_append_closing]
    simp only [List.flatMap_append, List.flatMap_singleton]
  · rw [output_write_open hopen he, List.length_append, List.countP_append,
      List.countP_singleton, if_neg (by simpa using ho), Nat.add_zero, ← h.length, houtput,
      List.length_append]
    rfl

/-- A new entry begins if the newest one was ended. -/
theorem write_closed (h : Wrote before last r) (hc : EndsLine last.2) (w : Text × Text) :
    Wrote (before ++ [last]) w (r.write w.1 w.2) := by
  have hclosed : r.entryOpen = false := by rw [h.entryOpen, decide_eq_true hc, Bool.not_true]
  have hne : r.output ≠ [] := by
    obtain ⟨newest, older, he⟩ := h.exists_entries
    simp [output, he]
  refine ⟨?_, entryOpen_write r w.1 w.2, ?_⟩
  · have htext := h.transcript
    rw [Recorder.transcript, hclosed] at htext
    rw [Recorder.transcript, output_write_closed hclosed, joined_concat _ _ hne, entryOpen_write,
      List.flatMap_append, ← htext, List.flatMap_singleton, ← added_append_closing w.1 w.2]
    simp only [List.append_assoc]
    rfl
  · rw [output_write_closed hclosed, List.length_append, h.length, List.countP_append,
      List.countP_singleton, if_pos (by simpa using hc), Nat.add_assoc]
    rfl

/-- One more write keeps the account. -/
theorem write (h : Wrote before last r) (w : Text × Text) :
    Wrote (before ++ [last]) w (r.write w.1 w.2) := by
  by_cases hc : EndsLine last.2
  · exact h.write_closed hc w
  · exact h.write_open hc w

end Wrote

/-- The recorder after writes. -/
def writeAll (r : Recorder) (writes : List (Text × Text)) : Recorder :=
  writes.foldl (fun r w => r.write w.1 w.2) r

theorem wrote_writeAll {r : Recorder} (ho : r.entryOpen = false) (he : r.entries = [])
    (before : List (Text × Text)) :
    ∀ last, Wrote before last (r.writeAll (before ++ [last])) := by
  induction before using List.reverseRecOn with
  | nil => exact fun last => .first ho he last
  | append_singleton before w ih =>
    intro last
    rw [writeAll, List.foldl_append]
    exact (ih w).write last

end Recorder

theorem outcome_forM_write (writes : List (Text × Text)) (m : Machine) :
    (writes.forM fun w => Record.write w.1 w.2).outcome m =
      (.ok ⟨⟩, { m with recorder := m.recorder.writeAll writes }) := by
  induction writes generalizing m with
  | nil => rfl
  | cons w writes ih => exact ih _

/-- Writes to a fresh machine succeed. The entries, with a line feed between any two and one behind
the last unless it is left open, are what was written, in order. The last entry is left open if the
last ending does not finish with a line feed, and there is one entry more than writes before the
last whose ending does. -/
theorem output_of_writes (writes : List (Text × Text)) (hne : writes ≠ []) :
    ∃ r, (writes.forM fun w => Record.write w.1 w.2).outcome {} = (.ok ⟨⟩, { recorder := r }) ∧
      joined "\n" r.output ++ (if r.entryOpen then ([] : Text) else "\n") =
        writes.flatMap (fun w => w.1 ++ w.2) ∧
      (r.entryOpen = true ↔ ¬ EndsLine (writes.getLast hne).2) ∧
      r.output.length = 1 + writes.dropLast.countP fun w => EndsLine w.2 := by
  have h := Recorder.wrote_writeAll (r := {}) rfl rfl writes.dropLast (writes.getLast hne)
  have htext := h.transcript
  rw [List.dropLast_concat_getLast hne] at h htext
  exact ⟨_, outcome_forM_write writes {}, htext, by simp [h.entryOpen], h.length⟩

/-- The second write goes on with the entry of the first, and has line feeds in its text and its
ending. -/
def mixedWrites : List (Text × Text) := [("a", "-"), ("b\nc", "\n\n"), ("d", "")]

theorem output_of_writes_mixed :
    ∃ r, (mixedWrites.forM fun w => Record.write w.1 w.2).outcome {} = (.ok ⟨⟩, { recorder := r }) ∧
      r.output = [("a-b\nc\n" : Text), ("d" : Text)] ∧ r.entryOpen = true ∧
      joined "\n" r.output ++ (if r.entryOpen then ([] : Text) else "\n") =
        ("a-b\nc\n\nd" : Text) := by
  obtain ⟨r, hr, htext, -⟩ := output_of_writes mixedWrites (List.cons_ne_nil _ _)
  refine ⟨r, hr, ?_, ?_, htext⟩
  · cases hr
    rfl
  · cases hr
    rfl

end Stepwise
