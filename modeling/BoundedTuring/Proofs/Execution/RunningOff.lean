import BoundedTuring.Proofs.Execution.Bounded
import BoundedTuring.Proofs.Table.View
/-!
# Running off

A transition that nobody defined rewrites what it reads and goes right in the same state.  So a machine that has only
blanks before it, in a state in which nobody said what to do on a blank, goes on for ever: each step leaves the reading
of the tape as it is and the head one cell further on (`RunsOff.advance`), where there are again only blanks.
-/
namespace BoundedTuring

namespace Table

theorem isDefined_ok_iff (t : Table) (key : Key) (mark : Bool) :
    t.isDefined key = .ok mark ↔ t.InRange key ∧ t.definedAt (t.slot key) = mark := by
  unfold isDefined
  rw [Result.check_ok_iff, checkKey_ok_iff, Result.pure_ok_iff]

/-- **What nobody defined is the identity.** -/
theorem Sound.lookup_of_undefined {t : Table} (h : t.Sound) {key : Key} (hd : t.isDefined key = .ok false) :
    t.lookup key = .identity key := by
  obtain ⟨hk, hmark⟩ := (isDefined_ok_iff ..).1 hd
  rw [h.lookup_eq hk, at?_of_inRange hk, hmark]
  rfl

end Table

theorem Tape.read_apply_right (t : Tape) (symbol : Nat) (stillAllowed : Bool) (i : Nat) :
    (t.apply symbol .right stillAllowed).read i = if t.head = i then symbol else t.read i := by
  have hmove : t.apply symbol .right stillAllowed = (t.place t.head symbol).withHead (t.head + 1) := by
    cases stillAllowed <;> rfl
  rw [hmove, read_withHead, read_place]

namespace Machine

/-- An execution in an ordinary state, with nothing but blanks from the head on, and no transition defined for the
first of them. -/
structure RunsOff (m : Machine) (e : Execution) : Prop where
  ordinary : e.state < m.acceptState
  blank : ∀ i, e.tape.head ≤ i → e.tape.read i = m.alphabet.blank
  undefined : m.table.isDefined ⟨e.state, m.alphabet.blank⟩ = .ok false

/-- An execution that is as another was, but with its head so many cells further on. -/
structure Ahead (e f : Execution) (cells : Nat) : Prop where
  state : f.state = e.state
  head : f.tape.head = e.tape.head + cells
  read : ∀ i, f.tape.read i = e.tape.read i

section

variable {m : Machine} {e f g : Execution}

theorem Ahead.trans {i j : Nat} (h : Ahead e f i) (h' : Ahead f g j) : Ahead e g (i + j) where
  state := h'.state.trans h.state
  head := by rw [h'.head, h.head, Nat.add_assoc]
  read i := (h'.read i).trans (h.read i)

theorem RunsOff.of_ahead (h : m.RunsOff e) {cells : Nat} (ha : Ahead e f cells) : m.RunsOff f where
  ordinary := ha.state ▸ h.ordinary
  blank i hi := by
    rw [ha.head] at hi
    exact (ha.read i).trans (h.blank i (by omega))
  undefined := by rw [ha.state, h.undefined]

theorem RunsOff.inForce_eq (h : m.RunsOff e) (hm : m.Reachable) :
    m.inForce e = .identity ⟨e.state, m.alphabet.blank⟩ := by
  have hcurrent : e.tape.current = m.alphabet.blank := h.blank _ (Nat.le_refl _)
  rw [inForce, hcurrent]
  exact hm.sound.lookup_of_undefined h.undefined

theorem RunsOff.advance (h : m.RunsOff e) (hm : m.Reachable) : Ahead e (m.advance e) 1 := by
  rw [advance_eq, h.inForce_eq hm]
  refine ⟨rfl, Tape.head_apply_right _ _ m.table.stillAllowed, fun i => ?_⟩
  refine (Tape.read_apply_right e.tape m.alphabet.blank m.table.stillAllowed i).trans ?_
  by_cases hi : e.tape.head = i
  · rw [if_pos hi]
    exact (h.blank i (Nat.le_of_eq hi)).symm
  · exact if_neg hi

/-- **Who runs off is each step a cell further on**, and nothing else changes. -/
theorem RunsOff.iterate (h : m.RunsOff e) (hm : m.Reachable) : ∀ j, Ahead e (m.next^[j] e) j
  | 0 => ⟨rfl, rfl, fun _ => rfl⟩
  | j + 1 => by
    have ih := h.iterate hm j
    have hoff := h.of_ahead ih
    rw [Function.iterate_succ_apply', next_of_running (running_of_ordinary hoff.ordinary)]
    exact ih.trans (hoff.advance hm)

theorem running_of_later {j k : Nat} (hjk : j ≤ k) (hk : m.halted? (m.next^[k] e) = none) :
    m.halted? (m.next^[j] e) = none := by
  obtain ⟨i, rfl⟩ := Nat.exists_eq_add_of_le hjk
  by_contra hhalted
  -- an execution that has halted stays as it is
  have hstays : m.next^[j + i] e = m.next^[j] e := by
    rw [Nat.add_comm, Function.iterate_add_apply]
    exact Function.iterate_fixed (next_of_halted hhalted) i
  rw [hstays] at hk
  exact hhalted hk

end

/-- **Running off into blanks never ends.**  Once only blanks are left before an execution, in an ordinary state for
which no transition is defined on a blank, every further step keeps the state, moves the head one cell to the right and
leaves all that is read as it was.  So it never halts, and a run makes all the steps that its bound allows. -/
theorem running_off_never_ends {m : Machine} (hm : m.Reachable) {e : Execution} {k : Nat}
    (hoff : m.RunsOff (m.next^[k] e)) :
    (∀ j, Ahead (m.next^[k] e) (m.next^[k + j] e) j) ∧ (∀ steps, m.halted? (m.next^[steps] e) = none) ∧
      ∀ bound, e.stepCount + k ≤ bound → m.run ⟨bound, none⟩ e = ⟨.stepBoundExceeded, bound, none⟩ := by
  have hahead : ∀ j, Ahead (m.next^[k] e) (m.next^[k + j] e) j := fun j => by
    rw [Nat.add_comm, Function.iterate_add_apply]
    exact hoff.iterate hm j
  have hrunning : ∀ steps, m.halted? (m.next^[steps] e) = none := fun steps =>
    running_of_later (Nat.le_add_left steps k) (running_of_ordinary (hoff.of_ahead (hahead steps)).ordinary)
  refine ⟨hahead, hrunning, fun bound hbound => ?_⟩
  have hsteps : e.stepCount + (bound - e.stepCount) = bound := by omega
  exact run_of_running (fun j _ => hrunning j) rfl hsteps

/-- The finder on two zeros, once it has passed them. -/
theorem finder_runs_off :
    let m := finder .leftEnd
    let e := Execution.start 0 ⟨#[2, 0, 0], 1, 4, 3, some 2⟩
    m.RunsOff (m.next^[2] e) ∧ (m.next^[2 + 9] e).tape.head = 12 ∧
      m.run ⟨100, none⟩ e = ⟨.stepBoundExceeded, 100, none⟩ := by
  intro m e
  have hm : m.Reachable := (reachable_blankBinary (by decide) .leftEnd).edits _
  have hhead : (m.next^[2] e).tape.head = 3 := by decide +kernel
  have hlength : (m.next^[2] e).tape.length = 4 := by decide +kernel
  have hoff : m.RunsOff (m.next^[2] e) := by
    refine ⟨by decide +kernel, fun i hi => ?_, by decide +kernel⟩
    rcases Nat.lt_or_ge 3 i with hbeyond | hle
    · exact (Tape.read_of_length_le _ (hlength ▸ hbeyond)).trans (by decide +kernel)
    · obtain rfl : i = 3 := by omega
      decide +kernel
  obtain ⟨hahead, -, hreport⟩ := running_off_never_ends hm hoff
  exact ⟨hoff, (hahead 9).head.trans (by rw [hhead]), hreport 100 (by decide)⟩

end Machine
end BoundedTuring
