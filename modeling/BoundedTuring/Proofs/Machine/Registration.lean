import BoundedTuring.Proofs.Alphabet.Symbols
import BoundedTuring.Proofs.Machine.History
import BoundedTuring.Proofs.Table.Refinement
/-!
# Registering transitions one after the other

A registration by name succeeds exactly if both names are of tape symbols, the direction has that letter, and the
registration by index succeeds.  Registering a list of entries is registering each of them; when none is refused, the
machine has what it had before and those.
-/
namespace BoundedTuring

theorem Direction.ofLetter?_eq_some_iff (text : String) (d : Direction) :
    ofLetter? text = some d ↔ d.letter = text := by
  constructor
  · intro h
    simpa using List.find?_some h
  · rintro rfl
    exact ofLetter?_letter d

namespace Machine

theorem put_ok_iff_table (m m' : Machine) (key : Key) (transition : Transition) (replace : Bool) :
    m.put key transition replace = .ok m' ↔
      ∃ u, m.table.put key transition replace = .ok u ∧ { m with table := u } = m' := by
  obtain ⟨alphabet, table⟩ := m
  unfold Machine.put
  simp only [Result.bind_ok_iff, Result.pure_ok_iff]

theorem symbolIndex_ok_iff (m : Machine) (name : String) (index : Nat) :
    m.symbolIndex name = .ok index ↔ m.alphabet.indexOf? name = some index := by
  unfold symbolIndex
  cases m.alphabet.indexOf? name <;> simp [Result.fail]

theorem putByName_ok_iff (m m' : Machine) (state : Nat) (read : String) (next : Nat) (write direction : String)
    (replace : Bool) (key : Key) : m.putByName state read next write direction replace = .ok (key, m') ↔
      ∃ readIndex writeIndex d, m.alphabet.indexOf? read = some readIndex ∧
        m.alphabet.indexOf? write = some writeIndex ∧ d.letter = direction ∧ ⟨state, readIndex⟩ = key ∧
        m.put ⟨state, readIndex⟩ ⟨next, writeIndex, d⟩ replace = .ok m' := by
  unfold putByName
  simp only [Result.bind_ok_iff, symbolIndex_ok_iff]
  constructor
  · rintro ⟨readIndex, hread, writeIndex, hwrite, h⟩
    cases hd : Direction.ofLetter? direction with
    | none => simp [hd, Result.fail] at h
    | some d =>
      simp only [hd, Result.bind_ok_iff, Result.pure_ok_iff, Prod.mk.injEq] at h
      obtain ⟨m'', hput, hkey, rfl⟩ := h
      exact ⟨readIndex, writeIndex, d, hread, hwrite, (Direction.ofLetter?_eq_some_iff ..).1 hd, hkey, hput⟩
  · rintro ⟨readIndex, writeIndex, d, hread, hwrite, hd, hkey, hput⟩
    refine ⟨readIndex, hread, writeIndex, hwrite, ?_⟩
    rw [(Direction.ofLetter?_eq_some_iff ..).2 hd]
    simp only [Result.bind_ok_iff, Result.pure_ok_iff, Prod.mk.injEq]
    exact ⟨m', hput, hkey, rfl⟩

/-! ## Lists of entries -/

def putAll (m : Machine) (entries : List Entry) : Machine :=
  entries.foldl (fun m e => m.edit (.put e.1 e.2 false)) m

theorem putAll_eq : ∀ (entries : List Entry) (m : Machine),
    m.putAll entries = { m with table := m.table.putValid entries }
  | [], _ => rfl
  | e :: rest, m => by
    have hput : m.edit (.put e.1 e.2 false) = { m with table := (m.table.put e.1 e.2 false).getD m.table } :=
      put_getD m e.1 e.2 false
    show (m.edit (.put e.1 e.2 false)).putAll rest = _
    rw [putAll_eq rest, hput, Table.putValid_cons]

theorem alphabet_putAll (m : Machine) (entries : List Entry) : (m.putAll entries).alphabet = m.alphabet := by
  rw [putAll_eq]

/-- Registrations leave the number of states as it is, and with it the two halting states. -/
theorem stateCount_putAll (m : Machine) (entries : List Entry) :
    (m.putAll entries).table.stateCount = m.table.stateCount := by
  rw [putAll_eq]
  exact (Table.sameBounds_putValid entries m.table).stateCount

theorem acceptState_putAll (m : Machine) (entries : List Entry) : (m.putAll entries).acceptState = m.acceptState :=
  congrArg (· - 2) (m.stateCount_putAll entries)

theorem rejectState_putAll (m : Machine) (entries : List Entry) : (m.putAll entries).rejectState = m.rejectState :=
  congrArg (· - 1) (m.stateCount_putAll entries)

theorem Reachable.putAll {m : Machine} (h : m.Reachable) (entries : List Entry) : (m.putAll entries).Reachable := by
  have hedits := h.edits (entries.map (fun e => .put e.1 e.2 false))
  rwa [List.foldl_map] at hedits

end Machine
end BoundedTuring
