import BoundedTuring.Proofs.Execution.Bounded
/-!
# Padding

A tape holds as many blanks beyond what was written as its head made it, and nobody can read how many: there are
blanks beyond them too.  Tapes that read the same are alike whatever their padding (`Tape.Alike`).  A step keeps them
so, since both of them grow to the left, or neither does, and the rest of what a step does is seen in the reading
(`Tape.Alike.apply`).  So executions on them stay in step and are reported alike (`bisimulation_alike`).
-/
namespace BoundedTuring

/-! ## Tapes -/

namespace Tape

/-- Tapes with the head at one place that read the same everywhere. -/
structure Alike (t u : Tape) : Prop where
  head_eq : t.head = u.head
  marker_eq : t.marker = u.marker
  read_eq : ∀ i, t.read i = u.read i

section

variable {t u : Tape}

theorem alike_withHead (t : Tape) (head : Nat) : (t.withHead head).Alike { t with head } :=
  ⟨rfl, rfl, read_withHead t head⟩

theorem Alike.withHead (h : t.Alike u) (head : Nat) : (t.withHead head).Alike (u.withHead head) :=
  ⟨rfl, h.marker_eq, fun i => by rw [read_withHead, read_withHead, h.read_eq]⟩

theorem Alike.current_eq (h : t.Alike u) : t.current = u.current := by
  rw [current, current, h.head_eq, h.read_eq]

/-- The blank is what both of them read beyond all their cells. -/
theorem Alike.blank_eq (h : t.Alike u) : t.blank = u.blank := by
  rw [← t.read_of_length_le (Nat.le_max_left t.length u.length), h.read_eq,
    u.read_of_length_le (Nat.le_max_right t.length u.length)]

theorem Alike.place (h : t.Alike u) (position symbol : Nat) : (t.place position symbol).Alike (u.place position symbol) :=
  ⟨h.head_eq, h.marker_eq, fun i => by rw [read_place, read_place, h.read_eq]⟩

/-- **Tapes that grow to the left stay alike**, with all positions renumbered in both. -/
theorem Alike.extendLeft (h : t.Alike u) : t.extendLeft.Alike u.extendLeft := by
  refine ⟨h.head_eq, h.marker_eq, fun i => ?_⟩
  cases i with
  | zero => rw [read_extendLeft_zero, read_extendLeft_zero, h.blank_eq]
  | succ i => rw [read_extendLeft_succ, read_extendLeft_succ, h.read_eq]

theorem Alike.move (h : t.Alike u) (direction : Direction) (stillAllowed : Bool) :
    (t.move direction stillAllowed).Alike (u.move direction stillAllowed) := by
  have hright : (t.withHead (t.head + 1)).Alike (u.withHead (u.head + 1)) := by
    rw [h.head_eq]
    exact h.withHead _
  cases direction with
  | right => cases stillAllowed <;> exact hright
  | still =>
    cases stillAllowed with
    | true => exact h
    | false => exact hright
  | left =>
    -- whether there is a cell to the left is a matter of the head, and whether the tape may grow one of the marker
    rw [move_left, move_left, h.head_eq]
    by_cases hpos : 0 < u.head
    · rw [if_pos hpos, if_pos hpos]
      exact ⟨rfl, h.marker_eq, h.read_eq⟩
    · rw [if_neg hpos, if_neg hpos, h.marker_eq]
      by_cases hmarker : u.marker.isNone = true
      · rw [if_pos hmarker, if_pos hmarker]
        exact h.extendLeft
      · rw [if_neg hmarker, if_neg hmarker]
        exact h

/-- **A step on tapes that are alike leaves them alike.** -/
theorem Alike.apply (h : t.Alike u) (symbol : Nat) (direction : Direction) (stillAllowed : Bool) :
    (t.apply symbol direction stillAllowed).Alike (u.apply symbol direction stillAllowed) := by
  have hplace := h.place t.head symbol
  rw [apply_eq, apply_eq, ← h.head_eq]
  exact hplace.move direction stillAllowed

end

end Tape

namespace Machine

/-! ## Executions on tapes that are alike -/

/-- Executions that differ in the padding of their tapes only. -/
structure Alike (e f : Execution) : Prop where
  state_eq : e.state = f.state
  tape : e.tape.Alike f.tape
  stepCount_eq : e.stepCount = f.stepCount

section

variable {m : Machine} {e f : Execution}

theorem Alike.inForce_eq (h : Alike e f) (m : Machine) : m.inForce e = m.inForce f := by
  rw [inForce, inForce, h.state_eq, h.tape.current_eq]

/-- **Padding takes no part in a step.** -/
theorem bisimulation_alike (m : Machine) : Bisimulation m m Alike where
  halted?_eq h := by rw [halted?, halted?, h.state_eq]
  stepCount_eq h := h.stepCount_eq
  advance h _ := by
    rw [advance_eq, advance_eq, h.inForce_eq, h.stepCount_eq]
    exact ⟨rfl, h.tape.apply .., rfl⟩

theorem alike_start {t u : Tape} (h : t.Alike u) (state : Nat) : Alike (.start state t) (.start state u) :=
  ⟨rfl, h, rfl⟩

end

/-! ## Fresh tapes -/

/-- A fresh tape has the head where it would be put. -/
theorem alike_withHead_ofInput {a : Alphabet} {input : Word} {t : Tape} (hload : Tape.ofInput input a = .ok t) :
    t.Alike (t.withHead a.mode.initialHead) := by
  obtain ⟨-, rfl⟩ := (Tape.ofInput_ok_iff ..).1 hload
  exact ⟨rfl, rfl, fun i => (Tape.read_withHead _ _ i).symm⟩

/-- **Putting the head where it is on a fresh tape pads an empty word with one blank, and no other.** -/
theorem cells_withHead_ofInput {a : Alphabet} {input : Word} {t : Tape} (hload : Tape.ofInput input a = .ok t) :
    (t.withHead a.mode.initialHead).cells = t.cells ++ if input = [] then #[a.blank] else #[] := by
  obtain ⟨-, rfl⟩ := (Tape.ofInput_ok_iff ..).1 hload
  have hreach : ∀ (cells : List Nat) (head : Nat), (head = cells.length ↔ input = []) → head ≤ cells.length →
      Tape.reach a.blank cells.toArray head = cells.toArray ++ if input = [] then #[a.blank] else #[] := by
    intro cells head hempty hle
    by_cases hinput : input = []
    · obtain rfl := hempty.2 hinput
      simp [Tape.reach, hinput]
    · have hlt : head < cells.length := by
        have hne : head ≠ cells.length := fun heq => hinput (hempty.1 heq)
        omega
      simp [Tape.reach, hinput, hlt]
  refine hreach _ _ ?_ ?_
  · cases hmode : a.mode with
    | leftEnd => simp [Alphabet.marker?_of_leftEnd hmode, TapeMode.initialHead]
    | twoWay => simp [Alphabet.marker?_eq_none_iff.2 hmode, TapeMode.initialHead, eq_comm]
  · cases hmode : a.mode with
    | leftEnd => simp [Alphabet.marker?_of_leftEnd hmode, TapeMode.initialHead]
    | twoWay => simp [TapeMode.initialHead]

theorem execution_eq (m : Machine) (input : Word) : m.execution input = Execution.start 0 <$> m.tapeFor input := by
  unfold execution
  cases m.tapeFor input <;> rfl

theorem executionFrom_of_ordinary {m : Machine} {state : Nat} (hstate : state < m.acceptState) (input : Word)
    (head : Nat) : m.executionFrom input state head =
      (fun tape => .start state (tape.withHead head)) <$> m.tapeFor input := by
  unfold executionFrom
  rw [if_neg (Nat.not_le.2 hstate)]
  cases m.tapeFor input <;> rfl

/-- **Runs depend on what a tape reads as, not on its padding.**  On tapes of a machine's alphabet with the head at one
place that read the same everywhere, executions from the same state stay in step, in all that can be read of them, and
are reported alike.  So a run on a word is reported as the one from the first state with the head put where it is, though
that pads the tape of the empty word with a blank; and padding a tape before its head is put somewhere is never reported. -/
theorem runs_ignore_padding {m : Machine} (hm : m.Reachable) :
    (∀ t u : Tape, t.Over m.alphabet → u.Over m.alphabet → t.head = u.head → (∀ i, t.read i = u.read i) → ∀ state,
      (∀ k, let e := m.next^[k] (.start state t)
        let f := m.next^[k] (.start state u)
        e.state = f.state ∧ e.tape.head = f.tape.head ∧ e.stepCount = f.stepCount ∧
          ∀ i, e.tape.read i = f.tape.read i) ∧
      ∀ limits, m.run limits (.start state t) = m.run limits (.start state u)) ∧
    (∀ input limits,
      Decider.runInput m input limits = m.run limits <$> m.executionFrom input 0 m.mode.initialHead) ∧
    (∀ input e, m.execution input = .ok e → ∃ f, m.executionFrom input 0 m.mode.initialHead = .ok f ∧
      f.tape.cells = e.tape.cells ++ if input = [] then #[m.alphabet.blank] else #[]) ∧
    ∀ (t : Tape) (state padding head : Nat) (limits : Limits),
      m.run limits (.start state ((t.withHead padding).withHead head)) =
          m.run limits (.start state (t.withHead head)) ∧
        m.run limits (.start state (t.withHead head)) = m.run limits (.start state { t with head }) := by
  have halike := bisimulation_alike m
  have hfrom := executionFrom_of_ordinary hm.acceptState_pos
  refine ⟨?stepwise, ?canonical, ?traced, ?padded⟩
  case stepwise =>
    intro t u ht hu hhead hread state
    have hstart : Alike (.start state t) (.start state u) :=
      alike_start ⟨hhead, ht.marker_eq.trans hu.marker_eq.symm, hread⟩ state
    refine ⟨fun k => ?_, halike.run_eq hstart⟩
    obtain ⟨hstate, htape, hcount⟩ := halike.iterate hstart k
    exact ⟨hstate, htape.head_eq, hcount, htape.read_eq⟩
  case canonical =>
    intro input limits
    rw [runInput_eq, hfrom, execution_eq]
    cases hload : m.tapeFor input with
    | error e => rfl
    | ok t => exact congrArg Except.ok (halike.run_eq (alike_start (alike_withHead_ofInput hload) 0) limits)
  case traced =>
    intro input e he
    rw [execution_eq] at he
    obtain ⟨t, hload, rfl⟩ := (Result.map_ok_iff ..).1 he
    refine ⟨.start 0 (t.withHead m.mode.initialHead), ?_, cells_withHead_ofInput hload⟩
    rw [hfrom, hload]
    rfl
  case padded =>
    intro t state padding head limits
    have hpadded : ((t.withHead padding).withHead head).Alike (t.withHead head) :=
      ⟨rfl, rfl, fun i => by rw [Tape.read_withHead, Tape.read_withHead, Tape.read_withHead]⟩
    have hplaced : (t.withHead head).Alike { t with head } := t.alike_withHead head
    exact ⟨halike.run_eq (alike_start hpadded state) limits, halike.run_eq (alike_start hplaced state) limits⟩

/-- The shuttle on a word with two blanks behind it and with none: it goes through the same states with the same symbols
under its head, in nineteen steps and when its run ends. -/
theorem shuttle_ignores_padding :
    let m := shuttle .twoWay
    let t : Tape := ⟨#[0, 1], 0, 3, 2, none⟩
    let u : Tape := ⟨#[0, 1, 2, 2], 0, 3, 2, none⟩
    m.Reachable ∧ t.Over m.alphabet ∧ u.Over m.alphabet ∧ t.head = u.head ∧ (∀ i, t.read i = u.read i) ∧
      (m.next^[19] (.start 0 t)).state = (m.next^[19] (.start 0 u)).state ∧
      (∀ i, (m.next^[19] (.start 0 t)).tape.read i = (m.next^[19] (.start 0 u)).tape.read i) ∧
      m.run ⟨19, none⟩ (.start 0 t) = m.run ⟨19, none⟩ (.start 0 u) ∧
      Decider.runInput m [] ⟨19, none⟩ = m.run ⟨19, none⟩ <$> m.executionFrom [] 0 0 := by
  intro m t u
  have hm : m.Reachable := reachable_shuttle .twoWay
  have halphabet : m.alphabet = .binary .twoWay := alphabet_shuttle .twoWay
  have ht : t.Over m.alphabet := by
    rw [halphabet]
    exact ⟨rfl, rfl, rfl, by decide⟩
  have hu : u = (t.withHead 3).withHead 0 := by decide
  have hu' : u.Over m.alphabet := by
    rw [hu]
    exact (ht.withHead hm.built 3).withHead hm.built 0
  have hread : ∀ i, t.read i = u.read i := fun i => by rw [hu, Tape.read_withHead, Tape.read_withHead]
  have hmode : m.mode.initialHead = 0 := by
    rw [Machine.mode, halphabet]
    rfl
  obtain ⟨hstepwise, hcanonical, -⟩ := runs_ignore_padding hm
  obtain ⟨hsteps, hreports⟩ := hstepwise t u ht hu' rfl hread 0
  obtain ⟨hstate, -, -, hcells⟩ := hsteps 19
  have hempty := hcanonical [] ⟨19, none⟩
  rw [hmode] at hempty
  exact ⟨hm, ht, hu', rfl, hread, hstate, hcells, hreports _, hempty⟩

end Machine
end BoundedTuring
