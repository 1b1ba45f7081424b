import BoundedTuring.Description.Reading
import BoundedTuring.Proofs.Result
import BoundedTuring.Proofs.Text.Fields
import Mathlib.Data.List.DropRight
/-!
# When a line is read

A reader of lines succeeds on the lines laid out as it expects, and a text is read exactly if its lines are and it is
not too long.
-/
namespace BoundedTuring

namespace Line

variable {α : Type}

theorem check_ok_iff (line : Line) (x : Result α) (a : α) : line.check x = .ok a ↔ x = .ok a := by
  cases x <;> simp [check]

@[simp]
theorem refuse_ne_ok (line : Line) (fault : Fault) (a : α) : line.refuse fault ≠ .ok a := nofun

@[simp]
theorem refuseLayout_ne_ok (line : Line) (expectation : Expectation) (a : α) :
    line.refuseLayout expectation ≠ .ok a := nofun

theorem fields_ok_iff (line : Line) (fields : List String) :
    line.fields = .ok fields ↔ Text.HasFields line.text fields := by
  rw [← Text.fields?_eq_some_iff]
  unfold Line.fields
  cases Text.fields? line.text <;> simp

theorem fieldsOf_ok_iff (line : Line) (what : String) (count : Nat) (fields : List String) :
    line.fieldsOf what count = .ok fields ↔ Text.HasFields line.text fields ∧ fields.length = count := by
  unfold fieldsOf
  rw [Result.bind_ok_iff]
  constructor
  · rintro ⟨fields', hfields, h⟩
    split at h
    · rename_i hcount
      obtain rfl := (Result.pure_ok_iff ..).1 h
      exact ⟨(line.fields_ok_iff fields').1 hfields, hcount⟩
    · exact absurd h (line.refuseLayout_ne_ok _ fields)
  · rintro ⟨hfields, hcount⟩
    exact ⟨fields, (line.fields_ok_iff fields).2 hfields, by rw [if_pos hcount]; rfl⟩

theorem readNumber_ok_iff (line : Line) (name text : String) (n : Nat) :
    line.readNumber name text = .ok n ↔ Text.IsNumeral text n := by
  rw [← Text.numeral?_eq_some_iff]
  unfold readNumber
  cases Text.numeral? text.toList <;> simp

end Line

namespace Remaining

/-- **The next line is the first of those that remain.** -/
theorem line_ok_iff (r : Remaining) (what : String) (line : Line) (rest : Remaining) :
    r.line what = .ok (line, rest) ↔
      r.lines = line.text :: rest.lines ∧ line.number = r.next ∧ rest.next = r.next + 1 := by
  obtain ⟨next, lines⟩ := r
  obtain ⟨number, text⟩ := line
  obtain ⟨next', lines'⟩ := rest
  cases lines with
  | nil => simp [Remaining.line, line?]
  | cons first others =>
    simp only [Remaining.line, line?, Except.ok.injEq, Prod.mk.injEq, Line.mk.injEq, Remaining.mk.injEq,
      List.cons.injEq]
    constructor
    · rintro ⟨⟨rfl, rfl⟩, rfl, rfl⟩
      exact ⟨⟨rfl, rfl⟩, rfl, rfl⟩
    · rintro ⟨⟨rfl, rfl⟩, rfl, rfl⟩
      exact ⟨⟨rfl, rfl⟩, rfl, rfl⟩

/-- **A line that may be missing is read if there is one**, and what stands for it is taken if not. -/
theorem optional_ok_iff {β : Type} (r : Remaining) (read : Line → Reading β) (standard b : β)
    (rest : List (List Char)) :
    (∃ next, (match r.line? with
      | some (line, r) => do return (← read line, r)
      | none => .ok (standard, r)) = .ok (b, (⟨next, rest⟩ : Remaining))) ↔
      r.lines = [] ∧ standard = b ∧ rest = [] ∨ ∃ line, r.lines = line :: rest ∧ read ⟨r.next, line⟩ = .ok b := by
  obtain ⟨next, lines⟩ := r
  cases lines with
  | nil => simp [line?, eq_comm]
  | cons line lines =>
    simp only [line?, Result.bind_ok_iff, Result.pure_ok_iff, Prod.mk.injEq, Remaining.mk.injEq]
    constructor
    · rintro ⟨_, _, hread, rfl, -, rfl⟩
      exact .inr ⟨line, rfl, hread⟩
    · rintro (⟨hnil, -⟩ | ⟨_, hlines, hread⟩)
      · cases hnil
      · obtain ⟨rfl, rfl⟩ := List.cons.inj hlines
        exact ⟨next + 1, b, hread, rfl, rfl, rfl⟩

end Remaining

/-- The text of lines of comment: those up to the last that is not empty, with a line feed between any two. -/
def CommentText (lines : List (List Char)) (text : String) : Prop :=
  ∃ kept empties, lines = kept ++ List.replicate empties [] ∧ kept.getLast? ≠ some [] ∧
    text.toList = ['\n'].intercalate kept

theorem rdropWhile_append_replicate {kept : List (List Char)} (hkept : kept.getLast? ≠ some []) : ∀ empties : Nat,
    (kept ++ List.replicate empties []).rdropWhile List.isEmpty = kept
  | 0 => by
    rw [List.replicate_zero, List.append_nil, List.rdropWhile_eq_self_iff]
    intro hne hlast
    rw [List.getLast?_eq_some_getLast hne, List.isEmpty_iff.1 hlast] at hkept
    exact hkept rfl
  | empties + 1 => by
    rw [List.replicate_succ', ← List.append_assoc, List.rdropWhile_concat_pos _ _ _ List.isEmpty_nil]
    exact rdropWhile_append_replicate hkept empties

/-- **The comments are what is left without the empty lines at its end.** -/
theorem Remaining.comments_eq_iff (r : Remaining) (text : String) : r.comments = text ↔ CommentText r.lines text := by
  have hcomments : r.comments.toList = ['\n'].intercalate (r.lines.rdropWhile List.isEmpty) := by
    simp [Remaining.comments, List.rdropWhile]
  constructor
  · rintro rfl
    refine ⟨r.lines.rdropWhile List.isEmpty, (r.lines.rtakeWhile List.isEmpty).length, ?_, ?_, hcomments⟩
    · have hempty : r.lines.rtakeWhile List.isEmpty = List.replicate (r.lines.rtakeWhile List.isEmpty).length [] :=
        List.eq_replicate_of_mem fun line hline => List.isEmpty_iff.1 (List.mem_rtakeWhile_imp hline)
      rw [← hempty, List.rdropWhile_append_rtakeWhile]
    · intro hlast
      have hne : r.lines.rdropWhile List.isEmpty ≠ [] := fun hnil => by simp [hnil] at hlast
      rw [← List.getLast_eq_iff_getLast?_eq_some hne] at hlast
      exact List.rdropWhile_last_not _ _ hne (by rw [hlast]; rfl)
  · rintro ⟨kept, empties, hlines, hkept, htext⟩
    rw [hlines, rdropWhile_append_replicate hkept] at hcomments
    exact String.toList_inj.1 (hcomments.trans htext.symm)

/-- **A text is read if it is not too long and its lines are.** -/
theorem readDescription_ok_iff {α : Type} (reader : Remaining → Reading α) (text : String) (a : α) :
    readDescription reader text = .ok a ↔
      text.utf8ByteSize ≤ maxDescriptionSize ∧ reader ⟨1, Text.lines text.toList⟩ = .ok a := by
  unfold readDescription
  rw [Result.refuse_ok_iff, Nat.not_lt]
  refine and_congr_right fun _ => ?_
  rcases reader ⟨1, Text.lines text.toList⟩ with (⟨number, expectation⟩ | e) | b
  · simp [Result.fail]
  · simp
  · simp

end BoundedTuring
