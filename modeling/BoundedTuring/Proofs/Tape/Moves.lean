import BoundedTuring.Proofs.Cells
import BoundedTuring.Tape
/-!
# Writing and moving on a tape

What a write and a move do to the reading, the length and the cells of a tape.  A write changes the reading under the
head only; a move changes it nowhere, except that a move past the left end of a two-way tape renumbers the cells.
-/
namespace BoundedTuring
namespace Tape

section

variable (t : Tape)

/-- A symbol that is not the blank is read exactly where a cell holds it. -/
theorem getElem?_eq_some_iff_read {symbol : Nat} (h : symbol ≠ t.blank) (i : Nat) :
    t.cells[i]? = some symbol ↔ t.read i = symbol := by
  unfold read
  rw [Array.getD_eq_getD_getElem?]
  cases t.cells[i]? with
  | none =>
    rw [Option.getD_none]
    exact ⟨nofun, fun hb => absurd hb.symm h⟩
  | some s => rw [Option.getD_some, Option.some.injEq]

/-! ## Padding -/

theorem size_reach (blank : Nat) (cells : Array Nat) (position : Nat) :
    (reach blank cells position).size = max cells.size (position + 1) := by
  unfold reach
  by_cases h : position < cells.size
  · rw [if_pos h]
    omega
  · rw [if_neg h, Array.size_append, Array.size_replicate]
    omega

theorem getD_reach (blank : Nat) (cells : Array Nat) (position i : Nat) :
    (reach blank cells position).getD i blank = cells.getD i blank := by
  unfold reach
  by_cases h : position < cells.size
  · rw [if_pos h]
  · rw [if_neg h, Array.getD_eq_getD_getElem?, Array.getD_eq_getD_getElem?]
    rcases Nat.lt_or_ge i cells.size with hi | hi
    · rw [Array.getElem?_append_left hi]
    · rw [Array.getElem?_append_right hi, Array.getElem?_eq_none hi, Array.getElem?_replicate]
      split <;> rfl

theorem mem_reach (blank : Nat) (cells : Array Nat) (position : Nat) {symbol : Nat}
    (h : symbol ∈ reach blank cells position) : symbol ∈ cells ∨ symbol = blank := by
  unfold reach at h
  split at h
  · exact .inl h
  · rcases Array.mem_append.1 h with hmem | hmem
    · exact .inl hmem
    · exact .inr (Array.mem_replicate.1 hmem).2

theorem read_of_length_le {i : Nat} (h : t.length ≤ i) : t.read i = t.blank := by
  unfold read
  rw [Array.getD_eq_getD_getElem?, Array.getElem?_eq_none h, Option.getD_none]

theorem read_withHead (head i : Nat) : (t.withHead head).read i = t.read i := getD_reach t.blank t.cells head i

theorem length_withHead (head : Nat) : (t.withHead head).length = max t.length (head + 1) :=
  size_reach t.blank t.cells head

/-! ## Writing -/

/-- A tape with a symbol put at a position, which becomes a cell. -/
def place (position symbol : Nat) : Tape :=
  { t with cells := (reach t.blank t.cells position).setIfInBounds position symbol }

theorem length_place (position symbol : Nat) : (t.place position symbol).length = max t.length (position + 1) :=
  Array.size_setIfInBounds.trans (size_reach t.blank t.cells position)

theorem read_place (position symbol i : Nat) :
    (t.place position symbol).read i = if position = i then symbol else t.read i := by
  have hin : position < (reach t.blank t.cells position).size := by
    rw [size_reach]
    omega
  show ((reach t.blank t.cells position).setIfInBounds position symbol).getD i t.blank = _
  rw [Cells.getD_setIfInBounds _ _ _ _ _ hin, getD_reach]
  rfl

theorem mem_place (position symbol : Nat) {s : Nat} (h : s ∈ (t.place position symbol).cells) :
    s ∈ t.cells ∨ s = t.blank ∨ s = symbol := by
  rcases Array.mem_or_eq_of_mem_setIfInBounds h with hmem | heq
  · rcases mem_reach _ _ _ hmem with hcell | hblank
    · exact .inl hcell
    · exact .inr (.inl hblank)
  · exact .inr (.inr heq)

/-! ## Moving -/

/-- A tape with a blank put in front, which renumbers the cells. -/
def extendLeft : Tape := { t with cells := #[t.blank] ++ t.cells }

theorem read_extendLeft_zero : t.extendLeft.read 0 = t.blank := by
  show (#[t.blank] ++ t.cells).getD 0 t.blank = t.blank
  rw [Array.getD_eq_getD_getElem?, Array.getElem?_append_left (show 0 < #[t.blank].size from Nat.one_pos)]
  rfl

theorem read_extendLeft_succ (i : Nat) : t.extendLeft.read (i + 1) = t.read i := by
  show (#[t.blank] ++ t.cells).getD (i + 1) t.blank = t.cells.getD i t.blank
  rw [Array.getD_eq_getD_getElem?, Array.getD_eq_getD_getElem?, Array.getElem?_append_right (by simp)]
  rfl

theorem length_extendLeft : t.extendLeft.length = t.length + 1 := by
  show (#[t.blank] ++ t.cells).size = t.cells.size + 1
  rw [Array.size_append, Nat.add_comm]
  rfl

/-- **A step of the head**, by what it does: it stays, or goes right, or goes left on the tape, or meets the left end,
where a two-way tape grows and a tape with a marker holds it back. -/
inductive Moved (direction : Direction) (stillAllowed : Bool) : Tape → Prop
  | still (hd : direction = .still) (hs : stillAllowed = true) : Moved direction stillAllowed t
  | right (hd : direction = .right ∨ direction = .still ∧ stillAllowed = false) :
    Moved direction stillAllowed (t.withHead (t.head + 1))
  | left (hd : direction = .left) (hpos : 0 < t.head) : Moved direction stillAllowed { t with head := t.head - 1 }
  | grown (hd : direction = .left) (hzero : t.head = 0) (hm : t.marker = none) :
    Moved direction stillAllowed t.extendLeft
  | held (hd : direction = .left) (hzero : t.head = 0) (hm : t.marker ≠ none) : Moved direction stillAllowed t

theorem move_left (stillAllowed : Bool) : t.move .left stillAllowed = if 0 < t.head then { t with head := t.head - 1 }
    else if t.marker.isNone then t.extendLeft else t := by cases stillAllowed <;> rfl

theorem moved_move (direction : Direction) (stillAllowed : Bool) :
    Moved t direction stillAllowed (t.move direction stillAllowed) := by
  cases direction with
  | right => cases stillAllowed <;> exact .right (.inl rfl)
  | still =>
    cases stillAllowed with
    | true => exact .still rfl rfl
    | false => exact .right (.inr ⟨rfl, rfl⟩)
  | left =>
    rw [move_left]
    by_cases hpos : 0 < t.head
    · rw [if_pos hpos]
      exact .left rfl hpos
    · have hzero : t.head = 0 := by omega
      rw [if_neg hpos]
      cases hm : t.marker with
      | none => exact .grown rfl hzero hm
      | some marker => exact .held rfl hzero (by rw [hm]; exact Option.some_ne_none marker)

variable {t} in
/-- **A move leaves the reading of a tape with a marker alone.** -/
theorem Moved.read_eq {u : Tape} {direction : Direction} {stillAllowed : Bool} (h : t.Moved direction stillAllowed u)
    (hm : t.marker ≠ none) (i : Nat) : u.read i = t.read i := by
  cases h with
  | still => rfl
  | right => exact read_withHead t _ i
  | left => rfl
  | grown _ _ hn => exact absurd hn hm
  | held => rfl

theorem apply_eq (symbol : Nat) (direction : Direction) (stillAllowed : Bool) :
    t.apply symbol direction stillAllowed = (t.place t.head symbol).move direction stillAllowed := rfl

/-- **A step on a tape with a marker changes the reading under the head only.** -/
theorem read_apply (hm : t.marker ≠ none) (symbol : Nat) (direction : Direction) (stillAllowed : Bool) (i : Nat) :
    (t.apply symbol direction stillAllowed).read i = if t.head = i then symbol else t.read i := by
  rw [apply_eq, (moved_move _ _ _).read_eq (show (t.place t.head symbol).marker ≠ none from hm), read_place]

theorem head_apply_right (symbol : Nat) (stillAllowed : Bool) :
    (t.apply symbol .right stillAllowed).head = t.head + 1 := by
  rw [apply_eq]
  cases stillAllowed <;> rfl

end

end Tape
end BoundedTuring
