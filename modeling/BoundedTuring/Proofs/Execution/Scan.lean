import BoundedTuring.Proofs.Execution.Bounded
import BoundedTuring.Proofs.Tape.Around
/-!
# Following a machine over words

On a tape with a left end, how a machine goes on depends on its state and on the symbols around its head alone.  `Ends`
says where that leads, and is built from the end backwards: from a halting state by one transition at a time
(`Follows.right`, `Follows.left`), and by the two ways to cross a word, going on over it (`Follows.scan`) and turning
round at its end to go back to its beginning (`Follows.turn`).
-/
namespace BoundedTuring
namespace Machine

variable {m : Machine}

theorem HaltsAfter.of_advance {e : Execution} {steps : Nat} {outcome : Outcome} (hrun : m.halted? e = none)
    (h : m.HaltsAfter (m.advance e) steps outcome) : m.HaltsAfter e (steps + 1) outcome := by
  have hnext : ∀ k, m.next^[k + 1] e = m.next^[k] (m.advance e) := fun k => by
    rw [Function.iterate_succ_apply, next_of_running hrun]
  refine ⟨by rw [hnext]; exact h.halted, fun k hk => ?_⟩
  cases k with
  | zero => exact hrun
  | succ k =>
    rw [hnext]
    exact h.running k (Nat.lt_of_succ_lt_succ hk)

/-- An execution in a state and with some symbols around its head. -/
structure On (m : Machine) (e : Execution) (state : Nat) (before after : List Nat) : Prop where
  state_eq : e.state = state
  around : e.tape.Around m.alphabet.blank before after

/-- Every execution in a state and with some symbols around its head halts after so many steps, in an outcome, and never
has its head on the marker. -/
def Ends (m : Machine) (state : Nat) (before after : List Nat) (steps : Nat) (outcome : Outcome) : Prop :=
  ∀ e, m.On e state before after → m.HaltsAfter e steps outcome ∧ ∀ k, (m.next^[k] e).tape.head ≠ 0

/-! ## The end -/

theorem On.head_ne_zero {e : Execution} {state : Nat} {before after : List Nat} (h : m.On e state before after) :
    e.tape.head ≠ 0 := by
  rw [h.around.head_eq]
  exact Nat.succ_ne_zero _

/-- **A halting state is the end.** -/
theorem ends_of_halted {state : Nat} {outcome : Outcome}
    (hhalted : ∀ e : Execution, e.state = state → m.halted? e = some outcome) (before after : List Nat) :
    m.Ends state before after 0 outcome := by
  intro e he
  have hend := hhalted e he.state_eq
  refine ⟨⟨hend, fun k hk => absurd hk (Nat.not_lt_zero k)⟩, fun k => ?_⟩
  have hstays : m.next e = e := next_of_halted (by rw [hend]; exact Option.some_ne_none outcome)
  rw [Function.iterate_fixed hstays]
  exact he.head_ne_zero

theorem ends_accepted {state : Nat} (h : m.acceptState = state) (before after : List Nat) :
    m.Ends state before after 0 .accepted :=
  ends_of_halted (fun _ he => if_pos (he.trans h.symm)) before after

theorem ends_rejected {state : Nat} (h : m.rejectState = state) (hne : state ≠ m.acceptState)
    (before after : List Nat) : m.Ends state before after 0 .rejected := by
  refine ends_of_halted (fun e he => ?_) before after
  have hnot : e.state ≠ m.acceptState := fun heq => hne (he.symm.trans heq)
  exact (if_neg hnot).trans (if_pos (he.trans h.symm))

/-! ## One transition -/

/-- Transitions that a machine has in force, in states that do not halt. -/
structure Follows (m : Machine) (rules : List Entry) : Prop where
  lookup : ∀ e ∈ rules, m.table.lookup e.1 = e.2
  running : ∀ e ∈ rules, e.1.state < m.acceptState

section

variable {rules : List Entry} {state next symbol written blank steps : Nat} {before after word : List Nat}
  {outcome : Outcome}

theorem Ends.of_advance {before' after' : List Nat} (hstate : state < m.acceptState)
    (hadvance : ∀ e, m.On e state before after → m.On (m.advance e) next before' after')
    (h : m.Ends next before' after' steps outcome) : m.Ends state before after (steps + 1) outcome := by
  intro e he
  have hrun : m.halted? e = none := running_of_ordinary (he.state_eq ▸ hstate)
  obtain ⟨hhalts, hoff⟩ := h (m.advance e) (hadvance e he)
  refine ⟨.of_advance hrun hhalts, fun k => ?_⟩
  cases k with
  | zero => exact he.head_ne_zero
  | succ k =>
    rw [Function.iterate_succ_apply, next_of_running hrun]
    exact hoff k

theorem On.inForce_eq {e : Execution} (he : m.On e state before after) :
    m.inForce e = m.table.lookup ⟨state, after.headD m.alphabet.blank⟩ := by
  rw [inForce, he.state_eq, he.around.current_eq]

namespace Follows

variable (hrules : m.Follows rules)

include hrules

/-- **A transition to the right.** -/
theorem right (hrule : (⟨state, symbol⟩, ⟨next, written, .right⟩) ∈ rules)
    (h : m.Ends next (written :: before) after steps outcome) :
    m.Ends state before (symbol :: after) (steps + 1) outcome := by
  refine h.of_advance (hrules.running _ hrule) fun e he => ?_
  rw [advance_eq, he.inForce_eq, List.headD_cons, hrules.lookup _ hrule]
  exact ⟨rfl, he.around.apply_right written m.table.stillAllowed⟩

/-- A transition to the right, on the blank behind everything. -/
theorem right_blank (hblank : m.alphabet.blank = blank)
    (hrule : (⟨state, blank⟩, ⟨next, written, .right⟩) ∈ rules)
    (h : m.Ends next (written :: before) [] steps outcome) : m.Ends state before [] (steps + 1) outcome := by
  refine h.of_advance (hrules.running _ hrule) fun e he => ?_
  rw [advance_eq, he.inForce_eq, List.headD_nil, hblank, hrules.lookup _ hrule]
  exact ⟨rfl, he.around.apply_right written m.table.stillAllowed⟩

/-- **A transition to the left**, off a symbol that is not the first. -/
theorem left {symbol' : Nat} (hrule : (⟨state, symbol⟩, ⟨next, written, .left⟩) ∈ rules)
    (h : m.Ends next before (symbol' :: written :: after) steps outcome) :
    m.Ends state (symbol' :: before) (symbol :: after) (steps + 1) outcome := by
  refine h.of_advance (hrules.running _ hrule) fun e he => ?_
  rw [advance_eq, he.inForce_eq, List.headD_cons, hrules.lookup _ hrule]
  exact ⟨rfl, he.around.apply_left written m.table.stillAllowed⟩

/-! ## Crossing a word -/

/-- **A machine that leaves the symbols of a word as they are and goes right** comes to what is after it. -/
theorem scan : ∀ {word before : List Nat}, (∀ s ∈ word, (⟨state, s⟩, ⟨state, s, .right⟩) ∈ rules) →
    m.Ends state (word.reverse ++ before) after steps outcome →
      m.Ends state before (word ++ after) (word.length + steps) outcome
  | [], _, _, h => by
    rw [List.length_nil, Nat.zero_add]
    exact h
  | s :: word, before, hover, h => by
    obtain ⟨hrule, hover⟩ := List.forall_mem_cons.1 hover
    rw [List.reverse_cons, List.append_assoc] at h
    rw [List.length_cons, Nat.add_right_comm]
    exact hrules.right hrule (scan hover h)

/-- To the blank behind the word, if nothing else is after it. -/
theorem scan_blank (hblank : m.alphabet.blank = blank) (hover : ∀ s ∈ word, (⟨state, s⟩, ⟨state, s, .right⟩) ∈ rules)
    (hrule : (⟨state, blank⟩, ⟨next, written, .right⟩) ∈ rules)
    (h : m.Ends next (written :: (word.reverse ++ before)) [] steps outcome) :
    m.Ends state before word (word.length + (steps + 1)) outcome := by
  have hscan := hrules.scan hover (hrules.right_blank hblank hrule h)
  rwa [List.append_nil] at hscan

/-- **A machine that turns round at the end of a word** and goes back over it comes to the symbol in front of it. -/
theorem turn {symbol' : Nat} : ∀ {word : List Nat} {state symbol written : Nat} {after : List Nat},
    (⟨state, symbol⟩, ⟨next, written, .left⟩) ∈ rules → (∀ s ∈ word, (⟨next, s⟩, ⟨next, s, .left⟩) ∈ rules) →
      m.Ends next before (symbol' :: (word.reverse ++ written :: after)) steps outcome →
        m.Ends state (word ++ symbol' :: before) (symbol :: after) (word.length + 1 + steps) outcome
  | [], _, _, _, _, hrule, _, h => by
    rw [List.length_nil, Nat.zero_add, Nat.add_comm]
    exact hrules.left hrule h
  | s :: word, _, _, _, _, hrule, hover, h => by
    obtain ⟨hback, hover⟩ := List.forall_mem_cons.1 hover
    rw [List.reverse_cons, List.append_assoc] at h
    rw [List.length_cons, Nat.add_right_comm]
    exact hrules.left hrule (turn hback hover h)

end Follows

end

/-! ## Whole runs -/

/-- A machine halts on a word after so many steps, with an outcome, if no bound stops it before, and never has its head
on the marker. -/
structure HaltsOn (m : Machine) (w : Word) (steps : Nat) (outcome : Outcome) : Prop where
  reports : ∀ bound, steps ≤ bound → Decider.runInput m w ⟨bound, none⟩ = .ok ⟨outcome, steps, none⟩
  offMarker : ∃ e, m.execution w = .ok e ∧ ∀ k, (m.next^[k] e).tape.head ≠ 0

/-- **A run on a word starts with the word around the head.** -/
theorem Ends.haltsOn {w : Word} {steps : Nat} {outcome : Outcome} (hmode : m.alphabet.mode = .leftEnd)
    (hw : Word.IsOver m.alphabet.inputSize w) (h : m.Ends 0 [] w steps outcome) : m.HaltsOn w steps outcome := by
  obtain ⟨tape, htape, hexecution⟩ := execution_ok hw
  obtain ⟨hhalts, hoff⟩ := h (.start 0 tape) ⟨rfl, Tape.around_ofInput hmode htape⟩
  refine ⟨fun bound hbound => ?_, _, hexecution, hoff⟩
  have hcount : (Execution.start 0 tape).stepCount + steps = steps := Nat.zero_add steps
  have hle : (Execution.start 0 tape).stepCount + steps ≤ bound := Nat.le_trans (Nat.le_of_eq hcount) hbound
  rw [runInput_of_execution hexecution, run_of_haltsAfter hhalts rfl hle, hcount]
  rfl

end Machine
end BoundedTuring
