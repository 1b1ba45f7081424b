import BoundedTuring.Machine
import BoundedTuring.Proofs.Alphabet.Layout
import BoundedTuring.Proofs.Table.History
/-!
# Histories of a machine

A machine is built with an empty table and then changed by operations, each of which may fail and then changes
nothing.  The alphabet stays, and every operation is at most one operation of the table (`edit_eq`), so that the table
of a machine that a history leads to is one that a history of tables leads to (`Reachable.table`).
-/
namespace BoundedTuring
namespace Machine

/-- What can be done to a machine. -/
inductive Edit where
  | put (key : Key) (transition : Transition) (replace : Bool)
  | putByName (state : Nat) (read : String) (next : Nat) (write direction : String) (replace : Bool)
  | reset (key : Key)
  | resetState (state : Nat)
  | resetAll
  | resize (states : Nat) (preserve : Bool)
  | setStillAllowed (allowed : Bool)
  deriving DecidableEq, Repr

/-- The machine after an operation, which is as it was if the operation fails. -/
def edit (m : Machine) : Edit → Machine
  | .put key transition replace => (m.put key transition replace).getD m
  | .putByName state read next write direction replace =>
    (Prod.snd <$> m.putByName state read next write direction replace).getD m
  | .reset key => (Prod.snd <$> m.reset key).getD m
  | .resetState state => (Prod.snd <$> m.resetState state).getD m
  | .resetAll => m.resetAll.2
  | .resize states preserve => (m.resize states preserve).getD m
  | .setStillAllowed allowed => (m.setStillAllowed allowed).2

inductive Reachable : Machine → Prop
  | empty {states : Nat} {userSymbols : List String} {inputSize : Nat} {mode : TapeMode} {m : Machine}
      (h : Machine.empty states userSymbols inputSize mode = .ok m) : Reachable m
  | edit {m : Machine} (h : Reachable m) (e : Edit) : Reachable (m.edit e)

/-! ## Operations of the table -/

theorem bind_table_getD (m : Machine) (x : Result Table) :
    (x >>= fun t => pure { m with table := t } : Result Machine).getD m = { m with table := x.getD m.table } := by
  cases x <;> rfl

theorem put_getD (m : Machine) (key : Key) (transition : Transition) (replace : Bool) :
    (m.put key transition replace).getD m = { m with table := m.table.edit (.put key transition replace) } := by
  obtain ⟨alphabet, table⟩ := m
  exact bind_table_getD ⟨alphabet, table⟩ (table.put key transition replace)

theorem map_withTable_getD {α : Type} (m : Machine) (x : Result (α × Table)) :
    (Prod.snd <$> (m.withTable <$> x)).getD m = { m with table := (Prod.snd <$> x).getD m.table } := by
  cases x <;> rfl

/-- A registration by name is one by index, or fails. -/
theorem putByName_getD (m : Machine) (state : Nat) (read : String) (next : Nat) (write direction : String)
    (replace : Bool) :
    (Prod.snd <$> m.putByName state read next write direction replace).getD m = m ∨
      ∃ key transition, (Prod.snd <$> m.putByName state read next write direction replace).getD m =
        (m.put key transition replace).getD m := by
  unfold putByName
  cases m.symbolIndex read with
  | error e => exact .inl rfl
  | ok readIndex =>
    cases m.symbolIndex write with
    | error e => exact .inl rfl
    | ok writeIndex =>
      cases hd : Direction.ofLetter? direction with
      | none => exact .inl rfl
      | some d =>
        refine .inr ⟨⟨state, readIndex⟩, ⟨next, writeIndex, d⟩, ?_⟩
        show (Prod.snd <$> (m.put ⟨state, readIndex⟩ ⟨next, writeIndex, d⟩ replace >>= fun m' =>
          pure (⟨state, readIndex⟩, m') : Result (Key × Machine))).getD m = _
        cases m.put ⟨state, readIndex⟩ ⟨next, writeIndex, d⟩ replace <;> rfl

/-- **An operation changes nothing or does one operation of the table.** -/
theorem edit_eq (m : Machine) (e : Edit) : m.edit e = m ∨ ∃ te, m.edit e = { m with table := m.table.edit te } := by
  cases e with
  | put key transition replace => exact .inr ⟨.put key transition replace, put_getD m key transition replace⟩
  | putByName state read next write direction replace =>
    rcases putByName_getD m state read next write direction replace with h | ⟨key, transition, h⟩
    · exact .inl h
    · exact .inr ⟨.put key transition replace, h.trans (put_getD m key transition replace)⟩
  | reset key => exact .inr ⟨.reset key, map_withTable_getD m (m.table.reset key)⟩
  | resetState state => exact .inr ⟨.resetState state, map_withTable_getD m (m.table.resetState state)⟩
  | resetAll => exact .inr ⟨.resetAll, rfl⟩
  | resize states preserve => exact .inr ⟨.resize states preserve, bind_table_getD m (m.table.resize states preserve)⟩
  | setStillAllowed allowed => exact .inr ⟨.setStillAllowed allowed, rfl⟩

/-! ## Reachable machines -/

section Reachable

variable {m : Machine}

theorem empty_ok_iff (states : Nat) (userSymbols : List String) (inputSize : Nat) (mode : TapeMode) (m : Machine) :
    Machine.empty states userSymbols inputSize mode = .ok m ↔
      Alphabet.ofList userSymbols inputSize mode = .ok m.alphabet ∧
        Table.empty states m.alphabet true = .ok m.table := by
  unfold Machine.empty
  simp only [Result.bind_ok_iff, Result.pure_ok_iff]
  constructor
  · rintro ⟨a, ha, t, ht, rfl⟩
    exact ⟨ha, ht⟩
  · rintro ⟨ha, ht⟩
    exact ⟨m.alphabet, ha, m.table, ht, rfl⟩

theorem edit_alphabet (m : Machine) (e : Edit) : (m.edit e).alphabet = m.alphabet := by
  rcases edit_eq m e with h | ⟨te, h⟩
  · rw [h]
  · rw [h]

theorem edits_alphabet : ∀ (es : List Edit) (m : Machine), (es.foldl Machine.edit m).alphabet = m.alphabet
  | [], _ => rfl
  | e :: es, m => (edits_alphabet es (m.edit e)).trans (edit_alphabet m e)

theorem Reachable.built (h : m.Reachable) : m.alphabet.Built := by
  induction h with
  | empty h => exact ⟨_, _, _, ((empty_ok_iff ..).1 h).1⟩
  | edit _ e ih => rw [edit_alphabet]; exact ih

/-- **The table of a reachable machine is reachable over the machine's alphabet.** -/
theorem Reachable.table (h : m.Reachable) : Table.Reachable m.alphabet m.table := by
  induction h with
  | empty h => exact .empty ((empty_ok_iff ..).1 h).2
  | @edit m _ e ih =>
    rw [edit_alphabet]
    rcases edit_eq m e with heq | ⟨te, heq⟩
    · rw [heq]
      exact ih
    · rw [heq]
      exact ih.edit te

theorem Reachable.sound (h : m.Reachable) : m.table.Sound := h.table.sound

/-- There is an ordinary state. -/
theorem Reachable.acceptState_pos (h : m.Reachable) : 0 < m.acceptState := by
  have hstates := h.sound.states
  show 0 < m.table.stateCount - 2
  unfold minStateCount at hstates
  omega

theorem Reachable.edits : ∀ (es : List Edit) {m : Machine}, m.Reachable → (es.foldl Machine.edit m).Reachable
  | [], _, h => h
  | e :: es, _, h => Reachable.edits es (h.edit e)

end Reachable

/-! ## A machine that goes back and forth -/

/-- The machine over 0 and 1 with no transition defined. -/
def blankBinary (states : Nat) (mode : TapeMode) : Machine :=
  let a := Alphabet.binary mode
  ⟨a, Table.blankSlate states a.size a.marker? true⟩

theorem reachable_blankBinary {states : Nat} (h : minStateCount ≤ states ∧ states ≤ maxStateCount) (mode : TapeMode) :
    (blankBinary states mode).Reachable :=
  .empty ((empty_ok_iff ..).2 ⟨Alphabet.ofList_binary mode, (Table.empty_ok_iff ..).2 ⟨h, rfl⟩⟩)

/-- Goes to the left end of what is written and back to the right end, and adds a symbol at each end that has no
marker.  On its way there a still transition was defined and forbidden, and states were added; the transitions out of
state 0 on symbol 2 are written for a blank and for a marker, and one of them is refused in each mode. -/
def shuttle (mode : TapeMode) : Machine :=
  [.put ⟨0, 0⟩ ⟨0, 0, .still⟩ false, .setStillAllowed false, .resize 4 true, .put ⟨0, 0⟩ ⟨0, 1, .left⟩ false,
    .put ⟨0, 1⟩ ⟨0, 0, .left⟩ false, .put ⟨0, 2⟩ ⟨1, 0, .right⟩ false, .put ⟨0, 2⟩ ⟨1, 2, .right⟩ false,
    .putByName 1 blankName 0 "1" "L" false].foldl Machine.edit (blankBinary 3 mode)

theorem reachable_shuttle (mode : TapeMode) : (shuttle mode).Reachable :=
  (reachable_blankBinary (by decide) mode).edits _

theorem alphabet_shuttle (mode : TapeMode) : (shuttle mode).alphabet = Alphabet.binary mode := edits_alphabet _ _

theorem acceptState_shuttle (mode : TapeMode) : (shuttle mode).acceptState = 2 := by
  cases mode <;> decide +kernel

end Machine
end BoundedTuring
