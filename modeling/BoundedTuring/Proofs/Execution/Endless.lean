import BoundedTuring.Proofs.Execution.Marker
/-!
# Endless tapes

A machine as textbooks have it works on a tape with a symbol at every position, integers for a two-way tape and
naturals for one with a left end.  An execution shows the same machine: it keeps the positions that were reached, and
those of a two-way tape are renumbered each time the head leaves them to the left.  So a position of the endless tape
is found as many cells further on as there were such moves (`Shows`); the naturals need no such shift (`ShowsNat`).
-/
namespace BoundedTuring

/-- A machine on an endless tape: its state, where its head is and the symbol at every position. -/
structure Endless (Position : Type) where
  state : Nat
  head : Position
  tape : Position → Nat

/-- The integer next to one in a direction. -/
def Direction.onIntegers : Direction → Int → Int
  | .left, i => i - 1
  | .right, i => i + 1
  | .still, i => i

/-- The natural next to one in a direction; there is none to the left of 0. -/
def Direction.onNaturals : Direction → Nat → Nat
  | .left, i => i - 1
  | .right, i => i + 1
  | .still, i => i

namespace Endless

/-- One step on an endless tape, by the transitions that a machine has in force; a state that halts stays. -/
def next {Position : Type} [DecidableEq Position] (m : Machine) (shift : Direction → Position → Position)
    (c : Endless Position) : Endless Position :=
  if c.state = m.acceptState ∨ c.state = m.rejectState then c
  else
    let transition := m.table.lookup ⟨c.state, c.tape c.head⟩
    ⟨transition.next, shift transition.direction c.head, Function.update c.tape c.head transition.write⟩

/-- A word on the integers, from position 0 on. -/
def onIntegers (state : Nat) (head : Int) (input : Word) (blank : Nat) : Endless Int :=
  ⟨state, head, fun i => if 0 ≤ i then input.getD i.toNat blank else blank⟩

/-- A word on the naturals, after the marker at position 0. -/
def onNaturals (state head : Nat) (marker : Nat) (input : Word) (blank : Nat) : Endless Nat :=
  ⟨state, head, fun
    | 0 => marker
    | i + 1 => input.getD i blank⟩

end Endless

/-- The symbol at an integer position, which is the blank where there is no cell. -/
def Tape.readAt (t : Tape) (i : Int) : Nat := if 0 ≤ i then t.read i.toNat else t.blank

namespace Machine

/-- How many of the first steps of an execution were moves to the left from position 0. -/
def leftMovesAtZero (m : Machine) (e : Execution) : Nat → Nat
  | 0 => 0
  | k + 1 =>
    let before := m.next^[k] e
    leftMovesAtZero m e k +
      if m.halted? before = none ∧ before.tape.head = 0 ∧ (m.inForce before).direction = .left then 1 else 0

/-- An execution shows a machine on the integers, each position some cells further on. -/
structure Shows (e : Execution) (offset : Nat) (c : Endless Int) : Prop where
  state : e.state = c.state
  head : (e.tape.head : Int) - offset = c.head
  tape : ∀ i, e.tape.readAt (i + offset) = c.tape i

structure ShowsNat (e : Execution) (c : Endless Nat) : Prop where
  state : e.state = c.state
  head : e.tape.head = c.head
  tape : ∀ i, e.tape.read i = c.tape i

end Machine

/-! ## Reading at integers -/

namespace Tape

section

variable (t : Tape)

theorem readAt_natCast (n : Nat) : t.readAt n = t.read n := by
  unfold readAt
  rw [if_pos (Int.natCast_nonneg n), Int.toNat_natCast]

theorem readAt_place (position symbol : Nat) (i : Int) :
    (t.place position symbol).readAt i = if i = position then symbol else t.readAt i := by
  unfold readAt
  by_cases hi : 0 ≤ i
  · rw [if_pos hi, if_pos hi, read_place]
    by_cases hp : position = i.toNat
    · rw [if_pos hp, if_pos (by omega)]
    · rw [if_neg hp, if_neg (by omega)]
  · rw [if_neg hi, if_neg hi, if_neg (by omega)]
    rfl

theorem readAt_withHead (head : Nat) (i : Int) : (t.withHead head).readAt i = t.readAt i := by
  unfold readAt
  rw [read_withHead]
  rfl

theorem readAt_extendLeft (i : Int) : t.extendLeft.readAt (i + 1) = t.readAt i := by
  unfold readAt
  by_cases hi : 0 ≤ i
  · have hsucc : (i + 1).toNat = i.toNat + 1 := by omega
    rw [if_pos hi, if_pos (by omega), hsucc, read_extendLeft_succ]
  · rw [if_neg hi]
    by_cases hm : i = -1
    · rw [if_pos (by omega), hm]
      exact read_extendLeft_zero t
    · rw [if_neg (by omega)]
      rfl

end

/-! ## One move -/

section

variable {t u : Tape} {direction : Direction} {stillAllowed : Bool}

/-- **A move on a two-way tape is one on the integers**, whose positions are one cell further on if it was a move to
the left from position 0. -/
theorem Moved.onIntegers (h : t.Moved direction stillAllowed u) (hmarker : t.marker = none)
    (hstill : direction = .still → stillAllowed = true) :
    (u.head : Int) - (if t.head = 0 ∧ direction = .left then 1 else 0 : Nat) = direction.onIntegers t.head ∧
      ∀ i : Int, u.readAt (i + (if t.head = 0 ∧ direction = .left then 1 else 0 : Nat)) = t.readAt i := by
  cases h with
  | still hd =>
    have hno : ¬ (t.head = 0 ∧ direction = .left) := by simp [hd]
    rw [if_neg hno, hd]
    exact ⟨Int.sub_zero _, fun i => by rw [Int.natCast_zero, Int.add_zero]⟩
  | right hd =>
    -- standing still where that is not allowed would go right, unlike on the integers
    have hright : direction = .right := by
      rcases hd with hr | ⟨hs, hforbidden⟩
      · exact hr
      · exact absurd (hforbidden.symm.trans (hstill hs)) Bool.false_ne_true
    have hno : ¬ (t.head = 0 ∧ direction = .left) := by simp [hright]
    rw [if_neg hno, hright]
    exact ⟨Int.sub_zero _, fun i => by rw [Int.natCast_zero, Int.add_zero, readAt_withHead]⟩
  | left hd hpos =>
    have hno : ¬ (t.head = 0 ∧ direction = .left) := by omega
    rw [if_neg hno, hd]
    refine ⟨?_, fun i => ?_⟩
    · show ((t.head - 1 : Nat) : Int) - (0 : Nat) = (t.head : Int) - 1
      omega
    · rw [Int.natCast_zero, Int.add_zero]
      rfl
  | grown hd hzero =>
    rw [if_pos ⟨hzero, hd⟩, hd]
    exact ⟨rfl, readAt_extendLeft t⟩
  | held _ _ hm => exact absurd hmarker hm

/-- **A move on a tape with a marker is one on the naturals.** -/
theorem Moved.onNaturals (h : t.Moved direction stillAllowed u) (hmarker : t.marker ≠ none)
    (hstill : direction = .still → stillAllowed = true) : u.head = direction.onNaturals t.head := by
  cases h with
  | still hd => rw [hd]; rfl
  | right hd =>
    rcases hd with hr | ⟨hs, hforbidden⟩
    · rw [hr]; rfl
    · exact absurd (hforbidden.symm.trans (hstill hs)) Bool.false_ne_true
  | left hd => rw [hd]; rfl
  | grown _ _ hm => exact absurd hm hmarker
  | held hd hzero =>
    rw [hd]
    show t.head = t.head - 1
    omega

/-- **A step on a two-way tape writes under the head and moves it on the integers.** -/
theorem apply_onIntegers (t : Tape) (hmarker : t.marker = none) (hstill : direction = .still → stillAllowed = true)
    (symbol : Nat) :
    ((t.apply symbol direction stillAllowed).head : Int) - (if t.head = 0 ∧ direction = .left then 1 else 0 : Nat) =
        direction.onIntegers t.head ∧
      ∀ i : Int, (t.apply symbol direction stillAllowed).readAt
          (i + (if t.head = 0 ∧ direction = .left then 1 else 0 : Nat)) =
        if i = t.head then symbol else t.readAt i := by
  obtain ⟨hhead, htape⟩ := (moved_move (t.place t.head symbol) direction stillAllowed).onIntegers hmarker hstill
  refine ⟨hhead, fun i => ?_⟩
  rw [← readAt_place]
  exact htape i

/-- **A step on a tape with a marker moves the head on the naturals.** -/
theorem apply_onNaturals (t : Tape) (hmarker : t.marker ≠ none) (hstill : direction = .still → stillAllowed = true)
    (symbol : Nat) : (t.apply symbol direction stillAllowed).head = direction.onNaturals t.head :=
  (moved_move (t.place t.head symbol) direction stillAllowed).onNaturals hmarker hstill

end

end Tape

/-! ## One step -/

theorem Direction.onIntegers_sub (direction : Direction) (i j : Int) :
    direction.onIntegers (i - j) = direction.onIntegers i - j := by
  cases direction <;> simp only [onIntegers] <;> omega

namespace Endless

variable {Position : Type} [DecidableEq Position] {m : Machine} {shift : Direction → Position → Position}
  {c : Endless Position} {e : Execution}

/-- The transition of an execution in the same state on the same symbol is the one that is made. -/
theorem next_of_running (hstate : e.state = c.state) (hcurrent : c.tape c.head = e.tape.current)
    (hrun : m.halted? e = none) : c.next m shift =
      ⟨(m.inForce e).next, shift (m.inForce e).direction c.head,
        Function.update c.tape c.head (m.inForce e).write⟩ := by
  have hrunning : c.state ≠ m.acceptState ∧ c.state ≠ m.rejectState := by
    rw [← hstate]
    exact (m.halted?_eq_none_iff e).1 hrun
  have hforce : m.table.lookup ⟨c.state, c.tape c.head⟩ = m.inForce e := by
    rw [← hstate, hcurrent]
    rfl
  unfold next
  rw [if_neg (not_or.2 hrunning), hforce]

theorem next_of_halted (hstate : e.state = c.state) (hhalted : m.halted? e ≠ none) : c.next m shift = c := by
  unfold next
  refine if_pos (Classical.byContradiction fun hrunning => hhalted ?_)
  rw [not_or, ← hstate] at hrunning
  exact (m.halted?_eq_none_iff e).2 hrunning

end Endless

namespace Machine

section

variable {m : Machine} {e : Execution} {marker : Nat}

theorem Shows.current {offset : Nat} {c : Endless Int} (h : Shows e offset c) : c.tape c.head = e.tape.current := by
  rw [← h.tape, ← h.head, Int.sub_add_cancel]
  exact e.tape.readAt_natCast e.tape.head

theorem Shows.advance {offset : Nat} {c : Endless Int} (h : Shows e offset c) (hsafe : m.Safe e) (hm : m.Reachable)
    (hmarker : m.alphabet.marker? = none) (hrun : m.halted? e = none) :
    Shows (m.advance e) (offset + if e.tape.head = 0 ∧ (m.inForce e).direction = .left then 1 else 0)
      (c.next m Direction.onIntegers) := by
  obtain ⟨hhead, htape⟩ := e.tape.apply_onIntegers (hsafe.tape.marker_eq.trans hmarker)
    (hsafe.inForce_admits hm hrun).still (m.inForce e).write
  rw [Endless.next_of_running h.state h.current hrun, advance_eq]
  refine ⟨rfl, ?_, fun i => ?_⟩
  · rw [← h.head, Direction.onIntegers_sub, ← hhead, Int.natCast_add]
    show ((e.tape.apply _ _ _).head : Int) - (_ + _) = (e.tape.apply _ _ _).head - _ - _
    omega
  · have hposition : i + offset = e.tape.head ↔ i = c.head := by
      rw [← h.head]
      omega
    rw [Int.natCast_add, ← Int.add_assoc, htape, h.tape]
    simp only [hposition, Function.update_apply]

theorem ShowsNat.current {c : Endless Nat} (h : ShowsNat e c) : c.tape c.head = e.tape.current := by
  rw [← h.tape, ← h.head]
  rfl

theorem ShowsNat.advance {c : Endless Nat} (h : ShowsNat e c) (hsafe : m.Safe e) (hm : m.Reachable)
    (hmarker : m.alphabet.marker? ≠ none) (hrun : m.halted? e = none) :
    ShowsNat (m.advance e) (c.next m Direction.onNaturals) := by
  have htape : e.tape.marker ≠ none := hsafe.tape.marker_eq ▸ hmarker
  rw [Endless.next_of_running h.state h.current hrun, advance_eq]
  refine ⟨rfl, ?_, fun i => ?_⟩
  · rw [← h.head]
    exact e.tape.apply_onNaturals htape (hsafe.inForce_admits hm hrun).still _
  · rw [e.tape.read_apply htape, h.head, h.tape]
    simp only [Function.update_apply, eq_comm]

/-! ## Runs -/

/-- **On a two-way tape a run is one on the integers**, shifted by the moves to the left from position 0. -/
theorem Shows.iterate {c : Endless Int} (h : Shows e 0 c) (hsafe : m.Safe e) (hm : m.Reachable)
    (hmarker : m.alphabet.marker? = none) : ∀ k,
    Shows (m.next^[k] e) (m.leftMovesAtZero e k) ((Endless.next m Direction.onIntegers)^[k] c)
  | 0 => h
  | k + 1 => by
    have ih := Shows.iterate h hsafe hm hmarker k
    rw [Function.iterate_succ_apply', Function.iterate_succ_apply']
    unfold leftMovesAtZero
    by_cases hrun : m.halted? (m.next^[k] e) = none
    · rw [next_of_running hrun]
      simp only [hrun, true_and]
      exact ih.advance (hsafe.iterate hm k) hm hmarker hrun
    · rw [next_of_halted hrun, Endless.next_of_halted ih.state hrun]
      simp only [hrun, false_and, if_false]
      exact ih

/-- **On a tape with a marker a run is one on the naturals.** -/
theorem ShowsNat.iterate {c : Endless Nat} (h : ShowsNat e c) (hsafe : m.Safe e) (hm : m.Reachable)
    (hmarker : m.alphabet.marker? ≠ none) : ∀ k,
    ShowsNat (m.next^[k] e) ((Endless.next m Direction.onNaturals)^[k] c)
  | 0 => h
  | k + 1 => by
    have ih := ShowsNat.iterate h hsafe hm hmarker k
    rw [Function.iterate_succ_apply', Function.iterate_succ_apply']
    by_cases hrun : m.halted? (m.next^[k] e) = none
    · rw [next_of_running hrun]
      exact ih.advance (hsafe.iterate hm k) hm hmarker hrun
    · rw [next_of_halted hrun, Endless.next_of_halted ih.state hrun]
      exact ih

/-! ## Loaded tapes -/

theorem shows_start {input : Word} {loaded : Tape} (hload : m.tapeFor input = .ok loaded)
    (hmarker : m.alphabet.marker? = none) (state : Nat) (head? : Option Nat) :
    Shows (.start state (head?.elim loaded loaded.withHead)) 0
      (.onIntegers state (head?.getD m.mode.initialHead : Nat) input m.alphabet.blank) := by
  obtain ⟨-, rfl⟩ := (Tape.ofInput_ok_iff ..).1 hload
  have htape : ∀ i : Int, Tape.readAt ⟨(m.alphabet.marker?.toList ++ input).toArray, m.mode.initialHead,
      m.alphabet.size, m.alphabet.blank, m.alphabet.marker?⟩ i =
        if 0 ≤ i then input.getD i.toNat m.alphabet.blank else m.alphabet.blank := by
    intro i
    unfold Tape.readAt Tape.read
    rw [hmarker, Array.getD_eq_getD_getElem?, List.getElem?_toArray, List.getD_eq_getElem?_getD]
    rfl
  cases head? with
  | none => exact ⟨rfl, Int.sub_zero _, fun i => (congrArg _ (Int.add_zero i)).trans (htape i)⟩
  | some head =>
    refine ⟨rfl, Int.sub_zero _, fun i => ?_⟩
    show (Tape.withHead _ head).readAt (i + 0) = _
    rw [Int.add_zero, Tape.readAt_withHead]
    exact htape i

theorem showsNat_start {input : Word} {loaded : Tape} (hload : m.tapeFor input = .ok loaded)
    (hmarker : m.alphabet.marker? = some marker) (state : Nat) (head? : Option Nat) :
    ShowsNat (.start state (head?.elim loaded loaded.withHead))
      (.onNaturals state (head?.getD m.mode.initialHead) marker input m.alphabet.blank) := by
  obtain ⟨-, rfl⟩ := (Tape.ofInput_ok_iff ..).1 hload
  have htape : ∀ i, Tape.read ⟨(m.alphabet.marker?.toList ++ input).toArray, m.mode.initialHead,
      m.alphabet.size, m.alphabet.blank, m.alphabet.marker?⟩ i =
        (Endless.onNaturals state 0 marker input m.alphabet.blank).tape i := by
    intro i
    unfold Tape.read
    rw [hmarker, Array.getD_eq_getD_getElem?, List.getElem?_toArray]
    cases i with
    | zero => rfl
    | succ i => exact (List.getD_eq_getElem?_getD ..).symm
  cases head? with
  | none => exact ⟨rfl, rfl, htape⟩
  | some head =>
    refine ⟨rfl, rfl, fun i => ?_⟩
    show (Tape.withHead _ head).read i = _
    rw [Tape.read_withHead]
    exact htape i

end

/-- **The tape that grows is the endless one.**  Every word over the input alphabet is loaded, and from any ordinary
state and any head, after any number of steps, a run shows what the textbook machine with the same transitions is in:
on the integers, shifted by the moves to the left made at position 0, or after a marker on the naturals. -/
theorem run_shows_endless {m : Machine} (hm : m.Reachable) {input : Word}
    (hinput : ∀ symbol ∈ input, symbol < m.alphabet.inputSize) {state : Nat} (hstate : state < m.acceptState)
    (head? : Option Nat) :
    ∃ loaded, m.tapeFor input = .ok loaded ∧
      let start := Execution.start state (head?.elim loaded loaded.withHead)
      let head := head?.getD m.mode.initialHead
      (m.mode = .twoWay → ∀ k, Shows (m.next^[k] start) (m.leftMovesAtZero start k)
        ((Endless.next m Direction.onIntegers)^[k] (.onIntegers state head input m.alphabet.blank))) ∧
      (m.mode = .leftEnd → ∃ marker, m.alphabet.marker? = some marker ∧ ∀ k,
        (m.next^[k] start).tape.cells[0]? = some marker ∧
        ShowsNat (m.next^[k] start)
          ((Endless.next m Direction.onNaturals)^[k] (.onNaturals state head marker input m.alphabet.blank))) := by
  have hload := (Tape.ofInput_ok_iff input m.alphabet _).2 ⟨hinput, rfl⟩
  have hsafe := safe_start hm hload (.elim _ head?) hstate
  refine ⟨_, hload, fun hmode k => ?_, fun hmode => ?_⟩
  · have hmarker : m.alphabet.marker? = none := Alphabet.marker?_eq_none_iff.2 hmode
    exact (shows_start hload hmarker state head?).iterate hsafe hm hmarker k
  · have hmarker : m.alphabet.marker? = some (m.alphabet.size - 2) := (Alphabet.marker?_eq_some_iff _).2 ⟨hmode, rfl⟩
    have hzero := read_zero_prepared hmarker hm hload (.elim _ head?)
    refine ⟨_, hmarker, fun k => ⟨?_, ?_⟩⟩
    · rw [(hsafe.iterate hm k).cell_eq_marker_iff hm hmarker]
      exact read_zero_iterate hm hmarker hsafe hzero k
    · exact (showsNat_start hload hmarker state head?).iterate hsafe hm (hmarker ▸ Option.some_ne_none _) k

/-- The shuttle on both tapes: nineteen steps on the two-way one, in which it passes the left end three times, and
seven on the one with a marker, from the marker. -/
theorem shuttle_shows_endless :
    Shows ((shuttle .twoWay).next^[19] (.start 0 ⟨#[0, 1], 0, 3, 2, none⟩)) 3
        ((Endless.next (shuttle .twoWay) Direction.onIntegers)^[19] (.onIntegers 0 0 [0, 1] 2)) ∧
      ShowsNat ((shuttle .leftEnd).next^[7] (.start 0 (Tape.withHead ⟨#[2, 0, 1], 1, 4, 3, some 2⟩ 0)))
        ((Endless.next (shuttle .leftEnd) Direction.onNaturals)^[7] (.onNaturals 0 0 2 [0, 1] 3)) := by
  have hinput : ∀ mode, ∀ symbol ∈ [0, 1], symbol < (shuttle mode).alphabet.inputSize := by
    intro mode
    rw [alphabet_shuttle]
    show ∀ symbol ∈ [0, 1], symbol < 2
    decide
  have hstate : ∀ mode, 0 < (shuttle mode).acceptState := fun mode => by
    rw [acceptState_shuttle]
    decide
  have hload : ∀ mode, (shuttle mode).tapeFor [0, 1] = Tape.ofInput [0, 1] (.binary mode) := fun mode => by
    unfold tapeFor
    rw [alphabet_shuttle]
  constructor
  · obtain ⟨loaded, hloaded, hshows, -⟩ :=
      run_shows_endless (reachable_shuttle .twoWay) (hinput .twoWay) (hstate .twoWay) none
    rw [hload] at hloaded
    cases hloaded
    have hmoves : (shuttle .twoWay).leftMovesAtZero (.start 0 ⟨#[0, 1], 0, 3, 2, none⟩) 19 = 3 := by decide +kernel
    have hmode : (shuttle .twoWay).mode = .twoWay := congrArg Alphabet.mode (alphabet_shuttle .twoWay)
    have h := hshows hmode 19
    rw [hmode, alphabet_shuttle] at h
    change Shows _ ((shuttle .twoWay).leftMovesAtZero (.start 0 ⟨#[0, 1], 0, 3, 2, none⟩) 19) _ at h
    rw [hmoves] at h
    exact h
  · obtain ⟨loaded, hloaded, -, hshows⟩ :=
      run_shows_endless (reachable_shuttle .leftEnd) (hinput .leftEnd) (hstate .leftEnd) (some 0)
    rw [hload] at hloaded
    cases hloaded
    obtain ⟨marker, hmarker, h⟩ := hshows (congrArg Alphabet.mode (alphabet_shuttle .leftEnd))
    rw [alphabet_shuttle] at hmarker h
    cases hmarker
    exact (h 7).2

end Machine
end BoundedTuring
