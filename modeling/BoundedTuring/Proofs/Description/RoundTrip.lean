import BoundedTuring.Description.Printer
import BoundedTuring.Proofs.Description.Acceptance
/-!
# Reading what was written

The lines that are written for a machine are in the format, with the machine's own alphabet and transitions for
contents: symbols are clean, so that they stand as fields, a symbol's name gives its index back, and the transitions of
a reachable machine are valid.  So the text is read as a description of the same contents, and there is only one.
That standing still was forbidden is not written, and so not read; a machine is written as the one that is allowed to.
-/
namespace BoundedTuring

open Text (IsField WithinLine)
open MachineDescription (TransitionLine Written)

theorem Direction.isField_letter (d : Direction) : IsField d.letter ∧ WithinLine d.letter.toList := by
  cases d <;> exact ⟨by decide, by decide⟩

namespace Machine

/-! ## The lines -/

section Lines

variable {m : Machine}

/-! The numbers on the lines of a machine's description have numerals. -/

theorem Reachable.stateCount_lt (h : m.Reachable) : m.stateCount < Text.numeralBound := by
  have hlimit : m.stateCount ≤ maxStateCount := h.table.withinLimit
  exact Nat.lt_of_le_of_lt hlimit (by decide)

theorem Reachable.alphabetSize_lt (h : m.Reachable) : m.alphabet.size < Text.numeralBound := by
  obtain ⟨work, hparts⟩ := h.built.parts
  exact Nat.lt_of_le_of_lt hparts.size_le (by decide)

theorem Reachable.definedCount_lt (h : m.Reachable) : m.table.definedCount < Text.numeralBound := by
  have hcount : m.table.definedCount ≤ m.table.defined.size := by
    rw [h.sound.definedCount_eq]
    exact Array.count_le_size
  have hstates : m.table.acceptState ≤ maxStateCount := Nat.le_trans (Nat.sub_le ..) h.table.withinLimit
  obtain ⟨work, hparts⟩ := h.built.parts
  have hsize : m.table.alphabetSize ≤ maxTapeAlphabetSize := h.table.alphabetSize_eq ▸ hparts.size_le
  have hproduct := Nat.mul_le_mul hstates hsize
  rw [← h.sound.size_defined] at hproduct
  exact Nat.lt_of_le_of_lt (Nat.le_trans hcount hproduct) (by decide)

/-- **A defined transition has a line, which says what the transition is.** -/
theorem Reachable.describe_ok (h : m.Reachable) (hstill : m.table.stillAllowed = true) {e : Entry}
    (he : e ∈ m.table.entries) : ∃ line, m.describe e.1 e.2 = .ok line ∧
      WithinLine line.toList ∧ TransitionLine m.alphabet m.stateCount line.toList e := by
  have hat := (h.sound.mem_entries_iff_at? e.1 e.2).1 he
  have hin := h.sound.inRange_of_at? hat
  have hadmits := h.sound.admits_of_at? hat
  have hreadLt : e.1.symbol < m.alphabet.size := h.table.alphabetSize_eq ▸ hin.symbol_lt
  have hwriteLt : e.2.write < m.alphabet.size := h.table.alphabetSize_eq ▸ hadmits.write_lt
  have hstates := h.stateCount_lt
  have hstate : e.1.state < m.stateCount - 2 := hin.state_lt
  have hnext : e.2.next < m.stateCount := hadmits.next_lt
  obtain ⟨read, hread⟩ : ∃ read, m.alphabet.symbols[e.1.symbol]? = some read :=
    ⟨_, Array.getElem?_eq_getElem hreadLt⟩
  obtain ⟨write, hwrite⟩ : ∃ write, m.alphabet.symbols[e.2.write]? = some write :=
    ⟨_, Array.getElem?_eq_getElem hwriteLt⟩
  have hnamed := (MachineDescription.admitted_iff_named h hstill hread hwrite).1 ⟨hin, hadmits⟩
  have hname : ∀ {index name}, m.alphabet.symbols[index]? = some name → IsField name ∧ WithinLine name.toList :=
    fun hsymbol => h.built.isField (Array.mem_toList_iff.2 (Array.mem_of_getElem? hsymbol))
  let fields := [toString e.1.state, read, toString e.2.next, write, e.2.direction.letter]
  have hfields : ∀ field ∈ fields, IsField field ∧ WithinLine field.toList := by
    simp only [fields, List.forall_mem_cons]
    exact ⟨Text.isField_toString _, hname hread, Text.isField_toString _, hname hwrite, e.2.direction.isField_letter,
      nofun⟩
  obtain ⟨hline, hwithin⟩ := Text.hasFields_intercalate (List.cons_ne_nil _ _) hfields
  refine ⟨" ".intercalate fields, ?_, hwithin,
    ⟨⟨_, _, _, _, _, hline, ?_, hread, ?_, hwrite, rfl, hnamed.2.2⟩, hstate, hnext⟩⟩
  · unfold describe
    rw [(Alphabet.symbol_ok_iff ..).2 hread, (Alphabet.symbol_ok_iff ..).2 hwrite]
    rfl
  · exact Text.isNumeral_toString _ (by omega)
  · exact Text.isNumeral_toString _ (by omega)

/-- **The lines that are written are in the format.** -/
theorem Reachable.descriptionLines_ok (h : m.Reachable) (hstill : m.table.stillAllowed = true) :
    ∃ lines, m.descriptionLines = .ok lines ∧ (∀ line ∈ lines, WithinLine line.toList) ∧
      Written m.mode (lines.map String.toList ++ [[]]) ⟨m.stateCount, m.alphabet, m.table.entries, .standard, []⟩ := by
  have hroom := h.built.inputSize_add_specials_le
  have hspecials : m.mode.specialSymbols.length ≤ m.alphabet.size := Nat.le_trans (Nat.le_add_left ..) hroom
  have hsize := h.alphabetSize_lt
  have hnumbers : ∀ numbers : List Nat, ∀ field ∈ numbers.map toString, IsField field ∧ WithinLine field.toList := by
    intro numbers field hfield
    obtain ⟨n, -, rfl⟩ := List.mem_map.1 hfield
    exact Text.isField_toString n
  obtain ⟨hheader, hheaderWithin⟩ := Text.hasFields_intercalate (List.cons_ne_nil _ _)
    (hnumbers [m.stateCount, m.alphabet.size, m.alphabet.inputSize])
  obtain ⟨hsymbols, hsymbolsWithin⟩ := Text.hasFields_intercalate h.built.userSymbols_ne_nil
    (fun symbol hsymbol => h.built.isField (List.mem_of_mem_take hsymbol))
  obtain ⟨hcount, hcountWithin⟩ := Text.hasFields_intercalate (List.cons_ne_nil _ _) (hnumbers [m.table.definedCount])
  obtain ⟨transitions, hdescribe, hall⟩ :=
    Result.mapM_ok_of_forall m.table.entries (fun e he => h.describe_ok hstill he)
  obtain ⟨hwithin, hall⟩ := (List.forall₂_and_left ..).1 hall
  refine ⟨_, by rw [descriptionLines, describeAll, hdescribe]; rfl, ?_, ?_⟩
  · simp only [List.forall_mem_cons]
    exact ⟨hheaderWithin, hsymbolsWithin, hcountWithin, hwithin⟩
  · refine ⟨_, _, _, transitions.map String.toList, [[]], m.alphabet.size, m.alphabet.inputSize, rfl, ?_, ?_, ?_, ?_,
      ?_, .empty []⟩
    · exact ⟨⟨_, _, _, hheader, Text.isNumeral_toString _ h.stateCount_lt, Text.isNumeral_toString _ hsize,
        Text.isNumeral_toString _ (by omega)⟩, ⟨h.sound.states, h.table.withinLimit⟩, hspecials⟩
    · exact ⟨m.alphabet.userSymbols, hsymbols, m.alphabet.length_userSymbols, h.built.ofList_userSymbols⟩
    · rw [List.length_map, hall.length_eq, h.sound.length_entries]
      exact ⟨_, hcount, Text.isNumeral_toString _ h.definedCount_lt⟩
    · exact List.forall₂_map_left_iff.2 hall
    · exact Table.nodup_keys_of_ordered (Table.entries_ordered _)

end Lines

/-! ## The text -/

/-- A machine that may stand still, with the transitions of another. -/
def withStill (m : Machine) : Machine := { m with table := m.table.allowStill true }

theorem Reachable.withStill {m : Machine} (h : m.Reachable) : m.withStill.Reachable := h.edit (.setStillAllowed true)

theorem description_withStill (m : Machine) : m.withStill.description = m.description := by
  unfold description descriptionLines describeAll
  rw [show m.withStill.table.entries = m.table.entries from Table.entries_allowStill m.table true]
  rfl

/-- **A machine that may stand still is read from the text that is written for it.** -/
theorem Reachable.description_ok {m : Machine} (h : m.Reachable) (hstill : m.table.stillAllowed = true) :
    ∃ text, m.description = .ok text ∧ (text.utf8ByteSize ≤ maxDescriptionSize →
      MachineDescription.parse m.mode text = .ok ⟨m, .standard, false, ""⟩) := by
  obtain ⟨lines, hlines, hwithin, hwritten⟩ := h.descriptionLines_ok hstill
  refine ⟨String.join (lines.map (· ++ "\n")), by rw [description, hlines]; rfl, fun hsize => ?_⟩
  refine (MachineDescription.parse_ok_iff ..).2 ⟨hsize, _, _, Text.lines_join hwithin, hwritten, ?_⟩
  exact ⟨h, rfl, rfl, hstill, .refl _, h.sound.length_entries.symm, rfl, rfl, ⟨[], 0, rfl, by simp, rfl⟩⟩

/-- **Reading a machine's description gives the machine back**, with its settings at their defaults, no comments, and
standing still allowed. -/
theorem parse_description (m : Machine) (h : m.Reachable) :
    ∃ text, m.description = .ok text ∧ (text.utf8ByteSize ≤ maxDescriptionSize →
      MachineDescription.parse m.mode text =
        .ok ⟨{ m with table := { m.table with stillAllowed := true } }, .standard, false, ""⟩) := by
  obtain ⟨text, htext, hparse⟩ := h.withStill.description_ok rfl
  exact ⟨text, (description_withStill m).symm.trans htext, hparse⟩

/-- The shuttle was forbidden to stand still, and is read back as one that may. -/
theorem shuttle_read_back :
    let text := "4 4 2\n0 1\n4\n0 0 0 1 L\n0 1 0 0 L\n0 leftend 1 leftend R\n1 blank 0 1 L\n"
    (shuttle .leftEnd).description = .ok text ∧ MachineDescription.parse .leftEnd text =
      .ok ⟨{ shuttle .leftEnd with table := { (shuttle .leftEnd).table with stillAllowed := true } },
        .standard, false, ""⟩ := by
  intro text
  have hwritten : (shuttle .leftEnd).description = .ok text := by decide +kernel
  have hsize : text.utf8ByteSize ≤ maxDescriptionSize := by decide +kernel
  obtain ⟨text', htext, hparse⟩ := parse_description (shuttle .leftEnd) (reachable_shuttle .leftEnd)
  obtain rfl := Except.ok.inj (hwritten.symm.trans htext)
  refine ⟨hwritten, ?_⟩
  have hmode : (shuttle .leftEnd).mode = .leftEnd := congrArg Alphabet.mode (alphabet_shuttle .leftEnd)
  rw [hmode] at hparse
  exact hparse hsize

end Machine
end BoundedTuring
