import BoundedTuring.Execution
import BoundedTuring.Proofs.Machine.History
import BoundedTuring.Proofs.Tape.Over
import Mathlib.Logic.Function.Iterate
/-!
# Nothing goes wrong in an execution

A step looks its transition up without checking that there is one.  `Safe` says why it may: the state is one of the
machine's and the tape holds symbols of its alphabet, so that the key of a running execution is in range
(`Safe.key_inRange`) and the transition in force one that the table admits (`Safe.inForce_admits`), which makes the next
configuration safe again.
-/
namespace BoundedTuring
namespace Machine

/-- The transition that an execution makes next. -/
def inForce (m : Machine) (e : Execution) : Transition := m.table.lookup ⟨e.state, e.tape.current⟩

/-- An execution that is in a state of the machine, on a tape over its alphabet. -/
structure Safe (m : Machine) (e : Execution) : Prop where
  state_lt : e.state < m.stateCount
  tape : e.tape.Over m.alphabet

/-! ## One step -/

section

variable {m : Machine} {e : Execution}

theorem advance_eq (m : Machine) (e : Execution) : m.advance e =
    ⟨(m.inForce e).next, e.tape.apply (m.inForce e).write (m.inForce e).direction m.table.stillAllowed,
      e.stepCount + 1⟩ := rfl

theorem next_of_running (h : m.halted? e = none) : m.next e = m.advance e := by
  unfold next
  rw [h]
  rfl

theorem next_of_halted (h : m.halted? e ≠ none) : m.next e = e := by
  unfold next
  rw [if_pos (Option.isSome_iff_ne_none.2 h)]

/-- **What every step keeps, a run keeps.** -/
theorem iterate_next_induct {P : Execution → Prop} (hstep : ∀ e, P e → m.halted? e = none → P (m.advance e)) :
    ∀ (k : Nat) (e : Execution), P e → P (m.next^[k] e)
  | 0, _, h => h
  | k + 1, e, h => by
    rw [Function.iterate_succ_apply']
    have ih := iterate_next_induct hstep k e h
    by_cases hrun : m.halted? (m.next^[k] e) = none
    · rw [next_of_running hrun]
      exact hstep _ ih hrun
    · rw [next_of_halted hrun]
      exact ih

theorem halted?_eq_none_iff (m : Machine) (e : Execution) :
    m.halted? e = none ↔ e.state ≠ m.acceptState ∧ e.state ≠ m.rejectState := by
  unfold halted?
  by_cases ha : e.state = m.acceptState
  · simp [ha]
  · by_cases hr : e.state = m.rejectState
    · rw [if_neg ha, if_pos hr]
      simp [hr]
    · simp [ha, hr]

theorem halted_cases {outcome : Outcome} (h : m.halted? e = some outcome) :
    outcome = .accepted ∧ e.state = m.acceptState ∨ outcome = .rejected ∧ e.state = m.rejectState := by
  unfold halted? at h
  split at h
  · cases h
    exact .inl ⟨rfl, ‹_›⟩
  split at h
  · cases h
    exact .inr ⟨rfl, ‹_›⟩
  · cases h

theorem running_of_ordinary (h : e.state < m.acceptState) : m.halted? e = none := by
  refine (halted?_eq_none_iff m e).2 ⟨Nat.ne_of_lt h, ?_⟩
  change e.state < m.table.stateCount - 2 at h
  show e.state ≠ m.table.stateCount - 1
  omega

theorem Safe.key_inRange (h : m.Safe e) (hm : m.Reachable) (hrun : m.halted? e = none) :
    m.table.InRange ⟨e.state, e.tape.current⟩ := by
  obtain ⟨ha, hr⟩ := (halted?_eq_none_iff m e).1 hrun
  have hlt := h.state_lt
  refine ⟨?_, ?_⟩
  · change e.state ≠ m.table.stateCount - 2 at ha
    change e.state ≠ m.table.stateCount - 1 at hr
    change e.state < m.table.stateCount at hlt
    show e.state < m.table.stateCount - 2
    omega
  · rw [hm.table.alphabetSize_eq]
    exact h.tape.read_lt hm.built e.tape.head

theorem Safe.inForce_admits (h : m.Safe e) (hm : m.Reachable) (hrun : m.halted? e = none) :
    m.table.Admits ⟨e.state, e.tape.current⟩ (m.inForce e) :=
  hm.sound.lookup_admits (h.key_inRange hm hrun)

theorem Safe.advance (h : m.Safe e) (hm : m.Reachable) (hrun : m.halted? e = none) : m.Safe (m.advance e) := by
  have hadmits := h.inForce_admits hm hrun
  have hwrite := hadmits.write_lt
  rw [hm.table.alphabetSize_eq] at hwrite
  rw [advance_eq]
  exact ⟨hadmits.next_lt, h.tape.apply hm.built hwrite _ _⟩

/-! ## Runs -/

/-- **A run from a safe execution is safe throughout.** -/
theorem Safe.iterate (h : m.Safe e) (hm : m.Reachable) (k : Nat) : m.Safe (m.next^[k] e) :=
  iterate_next_induct (fun _ hsafe hrun => hsafe.advance hm hrun) k e h

theorem safe_start (hm : m.Reachable) {input : Word} {loaded tape : Tape} (hload : m.tapeFor input = .ok loaded)
    (hp : loaded.Prepared tape) {state : Nat} (hstate : state < m.acceptState) : m.Safe (.start state tape) := by
  refine ⟨?_, (Tape.over_ofInput hm.built hload).prepared hm.built hp⟩
  change state < m.table.stateCount - 2 at hstate
  show state < m.table.stateCount
  omega

theorem extent_iterate_le (m : Machine) (e : Execution) : ∀ k, (m.next^[k] e).tape.extent ≤ e.tape.extent + k
  | 0 => Nat.le_refl _
  | k + 1 => by
    rw [Function.iterate_succ_apply']
    have ih := extent_iterate_le m e k
    by_cases hrun : m.halted? (m.next^[k] e) = none
    · rw [next_of_running hrun]
      have hstep := Tape.extent_apply_le (m.next^[k] e).tape (m.inForce (m.next^[k] e)).write
        (m.inForce (m.next^[k] e)).direction m.table.stillAllowed
      exact Nat.le_trans hstep (Nat.succ_le_succ ih)
    · rw [next_of_halted hrun]
      omega

theorem head_lt_length_iterate (hrun : m.halted? e = none) (k : Nat) :
    (m.next^[k + 1] e).tape.head < (m.next^[k + 1] e).tape.length := by
  rw [Function.iterate_succ_apply, next_of_running hrun]
  have hstep : ∀ e : Execution, (m.advance e).tape.head < (m.advance e).tape.length := fun e =>
    Tape.head_lt_length_apply e.tape _ _ _
  refine iterate_next_induct (P := fun e => e.tape.head < e.tape.length) (fun e' _ _ => hstep e') k _ (hstep e)

end

/-- **Nothing goes wrong in a run of a reachable machine**, from any ordinary state and any head: the state is one of
the machine's, the cells hold symbols of its alphabet, the cell looked up is there, the head is on the tape after a
step, the tape grows by at most one cell a step, and nothing stands still that may not. -/
theorem run_never_fails {m : Machine} (hm : m.Reachable) {input : Word} {loaded tape : Tape}
    (hload : m.tapeFor input = .ok loaded) (hp : loaded.Prepared tape) {state : Nat} (hstate : state < m.acceptState)
    (k : Nat) :
    let e := m.next^[k] (.start state tape)
    e.state < m.stateCount ∧ (∀ symbol ∈ e.tape.cells, symbol < m.table.alphabetSize) ∧
      (m.halted? e = none → m.table.slot ⟨e.state, e.tape.current⟩ < m.table.cells.size) ∧
      (0 < k → e.tape.head < e.tape.length) ∧
      e.tape.length ≤ max tape.length (tape.head + 1) + k ∧
      (m.halted? e = none → (m.inForce e).direction = .still → m.table.stillAllowed = true) := by
  intro e
  have hsafe : m.Safe e := (safe_start hm hload hp hstate).iterate hm k
  refine ⟨hsafe.state_lt, ?_, ?_, ?_, ?_, ?_⟩
  · rw [hm.table.alphabetSize_eq]
    exact hsafe.tape.cells_lt
  · intro hrun
    exact hm.sound.slot_lt_size (hsafe.key_inRange hm hrun)
  · intro hk
    obtain ⟨j, rfl⟩ := Nat.exists_eq_succ_of_ne_zero (Nat.ne_of_gt hk)
    exact head_lt_length_iterate (running_of_ordinary hstate) j
  · exact Nat.le_trans (Nat.le_max_left _ _) (extent_iterate_le m _ k)
  · intro hrun
    exact (hsafe.inForce_admits hm hrun).still

/-- Twelve steps of the shuttle from the last symbol of its input, in which it passes both ends. -/
theorem shuttle_never_fails :
    let m := shuttle .twoWay
    let tape := Tape.withHead ⟨#[0, 1], 0, 3, 2, none⟩ 1
    let e := m.next^[12] (.start 0 tape)
    e.state < m.stateCount ∧ (∀ symbol ∈ e.tape.cells, symbol < m.table.alphabetSize) ∧
      (m.halted? e = none → m.table.slot ⟨e.state, e.tape.current⟩ < m.table.cells.size) ∧
      (0 < 12 → e.tape.head < e.tape.length) ∧
      e.tape.length ≤ max tape.length (tape.head + 1) + 12 ∧
      (m.halted? e = none → (m.inForce e).direction = .still → m.table.stillAllowed = true) := by
  have hload : (shuttle .twoWay).tapeFor [0, 1] = .ok ⟨#[0, 1], 0, 3, 2, none⟩ := by
    unfold tapeFor
    rw [alphabet_shuttle]
    rfl
  have hstate : 0 < (shuttle .twoWay).acceptState := by
    rw [acceptState_shuttle]
    decide
  exact run_never_fails (reachable_shuttle .twoWay) hload (.withHead .loaded 1) hstate 12

end Machine
end BoundedTuring
