import BoundedTuring.Proofs.Alphabet.Layout
import BoundedTuring.Proofs.Result
import BoundedTuring.Proofs.Tape.Moves
/-!
# Tapes over an alphabet

A tape that was loaded with a word holds symbols of its alphabet and keeps doing so, whatever is written on it and
wherever its head goes (`Over`).  How far a tape reaches, to its last cell or to its head, grows by at most one with
every move (`extent_apply_le`).
-/
namespace BoundedTuring
namespace Tape

/-- The tapes a loaded one becomes before a run, by writing on it and by putting its head somewhere. -/
inductive Prepared (loaded : Tape) : Tape → Prop
  | loaded : Prepared loaded loaded
  | write {t u : Tape} {position symbol : Nat} (h : Prepared loaded t) (hw : t.write position symbol = .ok u) :
    Prepared loaded u
  | withHead {t : Tape} (h : Prepared loaded t) (head : Nat) : Prepared loaded (t.withHead head)

theorem Prepared.elim (loaded : Tape) (head? : Option Nat) : loaded.Prepared (head?.elim loaded loaded.withHead) := by
  cases head? with
  | none => exact .loaded
  | some head => exact .withHead .loaded head

/-- A tape that belongs to an alphabet and holds symbols of it. -/
structure Over (a : Alphabet) (t : Tape) : Prop where
  alphabetSize_eq : t.alphabetSize = a.size
  blank_eq : t.blank = a.blank
  marker_eq : t.marker = a.marker?
  cells_lt : ∀ symbol ∈ t.cells, symbol < a.size

/-! ## Loading and writing -/

theorem ofInput_ok_iff (input : Word) (a : Alphabet) (t : Tape) : Tape.ofInput input a = .ok t ↔
    (∀ symbol ∈ input, symbol < a.inputSize) ∧
      ⟨(a.marker?.toList ++ input).toArray, a.mode.initialHead, a.size, a.blank, a.marker?⟩ = t := by
  unfold Tape.ofInput
  rw [Result.accept_ok_iff, InputAlphabet.containsAll_iff, Except.ok.injEq]
  rfl

/-- **A write that succeeds puts a tape symbol on a cell, and at the left end nothing but the marker.** -/
theorem write_ok_iff (t u : Tape) (position symbol : Nat) : t.write position symbol = .ok u ↔
    symbol < t.alphabetSize ∧ (position = 0 → ∀ marker, t.marker = some marker → symbol = marker) ∧
      t.place position symbol = u := by
  unfold write
  rw [Result.refuse_ok_iff, Result.refuse_ok_iff, Nat.not_le]
  refine and_congr_right fun _ => and_congr ?_ ?_
  · cases t.marker with
    | none => simp
    | some marker => simp [eq_comm]
  · rw [Except.ok.injEq]
    rfl

section

variable {a : Alphabet} {t u : Tape}

theorem over_ofInput (ha : a.Built) {input : Word} (h : Tape.ofInput input a = .ok t) : t.Over a := by
  obtain ⟨hinput, rfl⟩ := (ofInput_ok_iff ..).1 h
  refine ⟨rfl, rfl, rfl, fun symbol hmem => ?_⟩
  rcases List.mem_append.1 (List.mem_toArray.1 hmem) with hm | hi
  · rw [Option.mem_toList] at hm
    exact (ha.marker_bounds hm).2.2
  · exact ha.lt_size_of_lt_inputSize (hinput symbol hi)

theorem Over.withHead (h : t.Over a) (ha : a.Built) (head : Nat) : (t.withHead head).Over a := by
  refine ⟨h.alphabetSize_eq, h.blank_eq, h.marker_eq, fun symbol hmem => ?_⟩
  rcases mem_reach _ _ _ hmem with hcell | hblank
  · exact h.cells_lt symbol hcell
  · rw [hblank, h.blank_eq]
    exact ha.blank_lt

theorem Over.place (h : t.Over a) (ha : a.Built) {position symbol : Nat} (hs : symbol < a.size) :
    (t.place position symbol).Over a := by
  refine ⟨h.alphabetSize_eq, h.blank_eq, h.marker_eq, fun s hmem => ?_⟩
  rcases mem_place t position symbol hmem with hcell | hblank | hsymbol
  · exact h.cells_lt s hcell
  · rw [hblank, h.blank_eq]
    exact ha.blank_lt
  · rw [hsymbol]
    exact hs

theorem Over.prepared (h : t.Over a) (ha : a.Built) (hp : t.Prepared u) : u.Over a := by
  induction hp with
  | loaded => exact h
  | write _ hw ih =>
    obtain ⟨hlt, -, rfl⟩ := (write_ok_iff ..).1 hw
    rw [ih.alphabetSize_eq] at hlt
    exact ih.place ha hlt
  | withHead _ head ih => exact ih.withHead ha head

theorem Over.extendLeft (h : t.Over a) (ha : a.Built) : t.extendLeft.Over a := by
  refine ⟨h.alphabetSize_eq, h.blank_eq, h.marker_eq, fun symbol hmem => ?_⟩
  rcases Array.mem_append.1 hmem with hblank | hcell
  · rw [Array.mem_singleton.1 hblank, h.blank_eq]
    exact ha.blank_lt
  · exact h.cells_lt symbol hcell

theorem Over.moved (h : t.Over a) (ha : a.Built) {direction : Direction} {stillAllowed : Bool}
    (hm : t.Moved direction stillAllowed u) : u.Over a := by
  cases hm with
  | still => exact h
  | right => exact h.withHead ha _
  | left => exact ⟨h.alphabetSize_eq, h.blank_eq, h.marker_eq, h.cells_lt⟩
  | grown => exact h.extendLeft ha
  | held => exact h

theorem Over.apply (h : t.Over a) (ha : a.Built) {symbol : Nat} (hs : symbol < a.size) (direction : Direction)
    (stillAllowed : Bool) : (t.apply symbol direction stillAllowed).Over a :=
  (h.place ha hs).moved ha (moved_move _ _ _)

theorem Over.read_lt (h : t.Over a) (ha : a.Built) (position : Nat) : t.read position < a.size := by
  rcases Nat.lt_or_ge position t.cells.size with hlt | hge
  · rw [read, Cells.getD_eq_getElem _ _ _ hlt]
    exact h.cells_lt _ (Array.getElem_mem hlt)
  · rw [t.read_of_length_le hge, h.blank_eq]
    exact ha.blank_lt

end

/-! ## How far a tape reaches -/

section

variable {t u : Tape} {direction : Direction} {stillAllowed : Bool}

/-- How many cells there are, or would be if the head were on one. -/
def extent (t : Tape) : Nat := max t.length (t.head + 1)

theorem extent_place (t : Tape) (symbol : Nat) : (t.place t.head symbol).extent = t.extent := by
  unfold extent
  rw [length_place]
  show max _ (t.head + 1) = _
  omega

theorem Moved.extent_le (h : t.Moved direction stillAllowed u) : u.extent ≤ t.extent + 1 := by
  unfold extent
  cases h with
  | still => omega
  | right =>
    rw [length_withHead]
    show max _ (t.head + 1 + 1) ≤ _
    omega
  | left =>
    show max t.length (t.head - 1 + 1) ≤ _
    omega
  | grown =>
    rw [length_extendLeft]
    show max _ (t.head + 1) ≤ _
    omega
  | held => omega

theorem Moved.head_lt_length (h : t.Moved direction stillAllowed u) (hin : t.head < t.length) :
    u.head < u.length := by
  cases h with
  | still => exact hin
  | right =>
    rw [length_withHead]
    show t.head + 1 < _
    omega
  | left =>
    show t.head - 1 < t.length
    omega
  | grown =>
    rw [length_extendLeft]
    show t.head < _
    omega
  | held => exact hin

theorem extent_apply_le (t : Tape) (symbol : Nat) (direction : Direction) (stillAllowed : Bool) :
    (t.apply symbol direction stillAllowed).extent ≤ t.extent + 1 := by
  rw [← extent_place t symbol]
  exact (moved_move _ _ _).extent_le

/-- **After a step the head is on a cell.** -/
theorem head_lt_length_apply (t : Tape) (symbol : Nat) (direction : Direction) (stillAllowed : Bool) :
    (t.apply symbol direction stillAllowed).head < (t.apply symbol direction stillAllowed).length := by
  refine (moved_move (t.place t.head symbol) direction stillAllowed).head_lt_length ?_
  rw [length_place]
  show t.head < _
  omega

end

end Tape
end BoundedTuring
