import BoundedTuring.Proofs.Execution.Safety
/-!
# The marker

Nothing in a step looks after the marker of a tape with a left end: a step writes what the table says and a move to
the left of it is merely held back.  That it stays is due to the table, which admits a transition on the marker only
if it writes the marker back and moves right.  So the marker stays at position 0 (`read_zero_iterate`), a step from
there goes right, and it is nowhere else unless a transition puts it there (`read_eq_marker_iterate`).
-/
namespace BoundedTuring
namespace Machine

section

variable {m : Machine} {e : Execution} {marker : Nat}

theorem Safe.inForce_marker (h : m.Safe e) (hm : m.Reachable) (hrun : m.halted? e = none)
    (hmarker : m.alphabet.marker? = some marker) (hcurrent : e.tape.current = marker) :
    (m.inForce e).write = marker ∧ (m.inForce e).direction = .right := by
  have hadmits := (h.inForce_admits hm hrun).marker
  rw [hm.table.marker_eq, hmarker, hcurrent] at hadmits
  exact hadmits rfl

theorem Safe.read_advance (h : m.Safe e) (hmarker : m.alphabet.marker? = some marker) (i : Nat) :
    (m.advance e).tape.read i = if e.tape.head = i then (m.inForce e).write else e.tape.read i := by
  have htape : e.tape.marker ≠ none := by
    rw [h.tape.marker_eq, hmarker]
    exact Option.some_ne_none marker
  rw [advance_eq]
  exact Tape.read_apply e.tape htape _ _ _ i

/-- **The marker is written back by whoever reads it.** -/
theorem Safe.read_zero_advance (h : m.Safe e) (hm : m.Reachable) (hrun : m.halted? e = none)
    (hmarker : m.alphabet.marker? = some marker) (hzero : e.tape.read 0 = marker) :
    (m.advance e).tape.read 0 = marker := by
  rw [h.read_advance hmarker]
  by_cases hhead : e.tape.head = 0
  · rw [if_pos hhead]
    refine (h.inForce_marker hm hrun hmarker ?_).1
    rw [Tape.current, hhead]
    exact hzero
  · rw [if_neg hhead]
    exact hzero

/-- **A step from the left end goes right.** -/
theorem Safe.advance_from_zero (h : m.Safe e) (hm : m.Reachable) (hrun : m.halted? e = none)
    (hmarker : m.alphabet.marker? = some marker) (hzero : e.tape.read 0 = marker) (hhead : e.tape.head = 0) :
    (m.inForce e).direction ≠ .left ∧ (m.next e).tape.head = 1 := by
  have hcurrent : e.tape.current = marker := by
    rw [Tape.current, hhead]
    exact hzero
  have hright := (h.inForce_marker hm hrun hmarker hcurrent).2
  constructor
  · rw [hright]
    exact nofun
  · rw [next_of_running hrun, advance_eq]
    show (e.tape.apply _ (m.inForce e).direction _).head = 1
    rw [hright, Tape.head_apply_right, hhead]

/-- **No marker is put anywhere else by transitions that do not write it on other symbols.** -/
theorem Safe.read_eq_marker_advance (h : m.Safe e) (hm : m.Reachable) (hrun : m.halted? e = none)
    (hmarker : m.alphabet.marker? = some marker)
    (hwrite : ∀ key transition, m.table.get key = .ok transition → key.symbol ≠ marker → transition.write ≠ marker)
    (honly : ∀ i, e.tape.read i = marker → i = 0) (i : Nat) (hi : (m.advance e).tape.read i = marker) : i = 0 := by
  rw [h.read_advance hmarker] at hi
  by_cases hhead : e.tape.head = i
  · rw [if_pos hhead] at hi
    -- the marker was written, but not on itself, since that stands at 0 only
    refine Classical.byContradiction fun hne => hwrite ⟨e.state, e.tape.current⟩ (m.inForce e) ?_ ?_ hi
    · exact (Table.get_ok_iff ..).2 ⟨h.key_inRange hm hrun, rfl⟩
    · intro hcurrent
      refine hne (honly i ?_)
      rw [← hhead]
      exact hcurrent
  · rw [if_neg hhead] at hi
    exact honly i hi

/-- A cell holds the marker where it is read, since it is not the blank. -/
theorem Safe.cell_eq_marker_iff (h : m.Safe e) (hm : m.Reachable) (hmarker : m.alphabet.marker? = some marker)
    (i : Nat) : e.tape.cells[i]? = some marker ↔ e.tape.read i = marker := by
  refine e.tape.getElem?_eq_some_iff_read ?_ i
  rw [h.tape.blank_eq]
  exact Nat.ne_of_lt (hm.built.marker_bounds hmarker).2.1

/-! ## Runs -/

theorem read_zero_iterate (hm : m.Reachable) (hmarker : m.alphabet.marker? = some marker) (h : m.Safe e)
    (hzero : e.tape.read 0 = marker) (k : Nat) : (m.next^[k] e).tape.read 0 = marker := by
  refine (iterate_next_induct (P := fun e => m.Safe e ∧ e.tape.read 0 = marker) ?_ k e ⟨h, hzero⟩).2
  rintro e ⟨hsafe, hz⟩ hrun
  exact ⟨hsafe.advance hm hrun, hsafe.read_zero_advance hm hrun hmarker hz⟩

theorem read_eq_marker_iterate (hm : m.Reachable) (hmarker : m.alphabet.marker? = some marker)
    (hwrite : ∀ key transition, m.table.get key = .ok transition → key.symbol ≠ marker → transition.write ≠ marker)
    (h : m.Safe e) (honly : ∀ i, e.tape.read i = marker → i = 0) (k i : Nat)
    (hi : (m.next^[k] e).tape.read i = marker) : i = 0 := by
  refine (iterate_next_induct (P := fun e => m.Safe e ∧ ∀ i, e.tape.read i = marker → i = 0) ?_ k e ⟨h, honly⟩).2 i hi
  rintro e ⟨hsafe, ho⟩ hrun
  exact ⟨hsafe.advance hm hrun, hsafe.read_eq_marker_advance hm hrun hmarker hwrite ho⟩

/-- **The marker is at the left end of a tape however it was prepared.** -/
theorem read_zero_prepared (hmarker : m.alphabet.marker? = some marker) (hm : m.Reachable) {input : Word}
    {loaded tape : Tape} (hload : m.tapeFor input = .ok loaded) (hp : loaded.Prepared tape) : tape.read 0 = marker := by
  have hover : loaded.Over m.alphabet := Tape.over_ofInput hm.built hload
  induction hp with
  | loaded =>
    obtain ⟨-, rfl⟩ := (Tape.ofInput_ok_iff ..).1 hload
    rw [hmarker]
    rfl
  | @write t u position symbol hp hw ih =>
    obtain ⟨-, hleft, rfl⟩ := (Tape.write_ok_iff ..).1 hw
    rw [Tape.read_place]
    by_cases hposition : position = 0
    · rw [if_pos hposition]
      exact hleft hposition marker ((hover.prepared hm.built hp).marker_eq.trans hmarker)
    · rw [if_neg hposition]
      exact ih
  | withHead hp head ih =>
    rw [Tape.read_withHead]
    exact ih

end

/-- **The marker is inviolable.**  On a tape with a left end, whatever was written on it before the run and wherever
its head was put, position 0 holds the marker in every configuration and a step from there goes right.  If the marker
is nowhere else at first and no transition in force on another symbol writes it, it is nowhere else ever. -/
theorem marker_inviolable {m : Machine} (hm : m.Reachable) {marker : Nat} (hmarker : m.alphabet.marker? = some marker)
    {input : Word} {loaded tape : Tape} (hload : m.tapeFor input = .ok loaded) (hp : loaded.Prepared tape)
    {state : Nat} (hstate : state < m.acceptState) :
    (∀ k, let e := m.next^[k] (.start state tape)
      e.tape.cells[0]? = some marker ∧
        (m.halted? e = none → e.tape.head = 0 → (m.inForce e).direction ≠ .left ∧ (m.next e).tape.head = 1)) ∧
    ((∀ i, tape.cells[i]? = some marker → i = 0) →
      (∀ key transition, m.table.get key = .ok transition → key.symbol ≠ marker → transition.write ≠ marker) →
      ∀ k i, (m.next^[k] (.start state tape)).tape.cells[i]? = some marker ↔ i = 0) := by
  have hstart : m.Safe (.start state tape) := safe_start hm hload hp hstate
  have hzero : tape.read 0 = marker := read_zero_prepared hmarker hm hload hp
  constructor
  · intro k e
    have hsafe : m.Safe e := hstart.iterate hm k
    have hz : e.tape.read 0 = marker := read_zero_iterate hm hmarker hstart hzero k
    refine ⟨(hsafe.cell_eq_marker_iff hm hmarker 0).2 hz, fun hrun hhead => ?_⟩
    exact hsafe.advance_from_zero hm hrun hmarker hz hhead
  · intro honly hwrite k i
    rw [(hstart.iterate hm k).cell_eq_marker_iff hm hmarker]
    constructor
    · refine read_eq_marker_iterate hm hmarker hwrite hstart (fun j hj => honly j ?_) k i
      exact (hstart.cell_eq_marker_iff hm hmarker j).2 hj
    · rintro rfl
      exact read_zero_iterate hm hmarker hstart hzero k

/-- The shuttle starting on the marker, after a symbol was written past the end of its input; after six steps it is
on the marker again. -/
theorem shuttle_marker :
    let m := shuttle .leftEnd
    let tape := (Tape.place ⟨#[2, 0, 1], 1, 4, 3, some 2⟩ 4 1).withHead 0
    let e := m.next^[6] (.start 0 tape)
    (e.tape.cells[0]? = some 2 ∧
        (m.halted? e = none → e.tape.head = 0 → (m.inForce e).direction ≠ .left ∧ (m.next e).tape.head = 1)) ∧
      ∀ i, e.tape.cells[i]? = some 2 ↔ i = 0 := by
  have hload : (shuttle .leftEnd).tapeFor [0, 1] = .ok ⟨#[2, 0, 1], 1, 4, 3, some 2⟩ := by
    unfold tapeFor
    rw [alphabet_shuttle]
    rfl
  have hmarker : (shuttle .leftEnd).alphabet.marker? = some 2 := by
    rw [alphabet_shuttle]
    rfl
  have hp : Tape.Prepared ⟨#[2, 0, 1], 1, 4, 3, some 2⟩ (Tape.place ⟨#[2, 0, 1], 1, 4, 3, some 2⟩ 4 1) :=
    .write .loaded ((Tape.write_ok_iff ..).2 ⟨by decide, by decide, rfl⟩)
  have hstate : 0 < (shuttle .leftEnd).acceptState := by
    rw [acceptState_shuttle]
    decide
  have honly : ∀ i, ((Tape.place ⟨#[2, 0, 1], 1, 4, 3, some 2⟩ 4 1).withHead 0).cells[i]? = some 2 → i = 0 := by
    intro i hi
    obtain ⟨hlt, -⟩ := Array.getElem?_eq_some_iff.1 hi
    have hcells : ∀ i < 5, (#[2, 0, 1, 3, 1] : Array Nat)[i]? = some 2 → i = 0 := by decide
    exact hcells i hlt hi
  have hwrites : ∀ state < 2, ∀ symbol < 4, symbol ≠ 2 →
      ((shuttle .leftEnd).table.lookup ⟨state, symbol⟩).write ≠ 2 := by
    decide +kernel
  have hall := marker_inviolable (reachable_shuttle .leftEnd) hmarker hload (hp.withHead 0) hstate
  refine ⟨hall.1 6, hall.2 honly (fun key transition hget hne => ?_) 6⟩
  obtain ⟨hkey, rfl⟩ := (Table.get_ok_iff ..).1 hget
  have hsymbol := hkey.symbol_lt
  rw [(reachable_shuttle .leftEnd).table.alphabetSize_eq, alphabet_shuttle] at hsymbol
  exact hwrites key.state (acceptState_shuttle .leftEnd ▸ hkey.state_lt) key.symbol hsymbol hne

end Machine
end BoundedTuring
