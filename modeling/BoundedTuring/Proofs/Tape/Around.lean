import BoundedTuring.Proofs.Tape.Over
import Mathlib.Data.List.GetD
/-!
# The symbols around the head

To follow a machine over its words, a tape with a left end is read from its head: the symbols between the marker and the
head, the nearest first, and the symbols from the head on, beyond which there are blanks (`Around`).  A step moves the
symbol it writes from one side to the other.
-/
namespace BoundedTuring
namespace Tape

/-- A tape with a left end that holds some symbols from the cell after the marker up to the head, the nearest first, and
others from the head on. -/
structure Around (blank : Nat) (t : Tape) (before after : List Nat) : Prop where
  marked : t.marker ≠ none
  blank_eq : t.blank = blank
  head_eq : t.head = before.length + 1
  read_eq : ∀ i, t.read (i + 1) = (before.reverse ++ after).getD i blank

section

variable {blank : Nat} {t : Tape} {before after : List Nat}

theorem Around.current_eq (h : t.Around blank before after) : t.current = after.headD blank := by
  rw [current, h.head_eq, h.read_eq, List.getD_append_right _ _ _ _ (by simp), List.length_reverse, Nat.sub_self]
  cases after <;> rfl

/-- **After a write the symbol stands where the head is.** -/
theorem Around.read_apply (h : t.Around blank before after) (symbol : Nat) (direction : Direction) (stillAllowed : Bool)
    (i : Nat) : (t.apply symbol direction stillAllowed).read (i + 1) =
      (before.reverse ++ symbol :: after.tail).getD i blank := by
  have hlength : before.reverse.length = before.length := List.length_reverse
  rw [Tape.read_apply t h.marked, h.head_eq, h.read_eq]
  rcases Nat.lt_trichotomy i before.length with hlt | rfl | hgt
  · rw [if_neg (by omega), List.getD_append _ _ _ _ (by omega), List.getD_append _ _ _ _ (by omega)]
  · rw [if_pos rfl, List.getD_append_right _ _ _ _ (by omega), hlength, Nat.sub_self]
    rfl
  · obtain ⟨j, rfl⟩ := Nat.exists_eq_add_of_lt hgt
    rw [if_neg (by omega), List.getD_append_right _ _ _ _ (by omega), List.getD_append_right _ _ _ _ (by omega),
      hlength, show before.length + j + 1 - before.length = j + 1 by omega, List.getD_cons_succ]
    cases after <;> rfl

/-- **A step to the right** leaves what it writes behind. -/
theorem Around.apply_right (h : t.Around blank before after) (symbol : Nat) (stillAllowed : Bool) :
    (t.apply symbol .right stillAllowed).Around blank (symbol :: before) after.tail where
  marked := by cases stillAllowed <;> exact h.marked
  blank_eq := by cases stillAllowed <;> exact h.blank_eq
  head_eq := by rw [head_apply_right, h.head_eq, List.length_cons]
  read_eq i := by
    rw [h.read_apply, List.reverse_cons, List.append_assoc]
    rfl

/-- **A step to the left** puts what it writes in front of what comes next. -/
theorem Around.apply_left {symbol' : Nat} (h : t.Around blank (symbol' :: before) after) (symbol : Nat)
    (stillAllowed : Bool) :
    (t.apply symbol .left stillAllowed).Around blank before (symbol' :: symbol :: after.tail) := by
  have hpos : 0 < t.head := by
    rw [h.head_eq]
    exact Nat.succ_pos _
  have happly : t.apply symbol .left stillAllowed = { t.place t.head symbol with head := t.head - 1 } := by
    cases stillAllowed <;> exact if_pos hpos
  refine ⟨?_, ?_, ?_, fun i => ?_⟩
  · rw [happly]
    exact h.marked
  · rw [happly]
    exact h.blank_eq
  · rw [happly]
    show t.head - 1 = _
    rw [h.head_eq, List.length_cons]
    rfl
  · rw [h.read_apply, List.reverse_cons, List.append_assoc]
    rfl

/-- **A word that is loaded is all in front of the head.** -/
theorem around_ofInput {a : Alphabet} (hmode : a.mode = .leftEnd) {input : Word}
    (hload : Tape.ofInput input a = .ok t) : t.Around a.blank [] input := by
  obtain ⟨-, rfl⟩ := (ofInput_ok_iff ..).1 hload
  have hmarker := Alphabet.marker?_of_leftEnd hmode
  refine ⟨?_, rfl, ?_, fun i => ?_⟩
  · rw [hmarker]
    exact Option.some_ne_none _
  · show a.mode.initialHead = _
    rw [hmode]
    rfl
  · show (a.marker?.toList ++ input).toArray.getD (i + 1) a.blank = input.getD i a.blank
    rw [hmarker, Array.getD_eq_getD_getElem?, List.getD_eq_getElem?_getD]
    simp

end

end Tape
end BoundedTuring
