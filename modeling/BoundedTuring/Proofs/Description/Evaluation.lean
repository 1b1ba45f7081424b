import BoundedTuring.Proofs.Description.Format
/-!
# Evaluating descriptions

The symbols of a description are sorted to make its alphabet, by halves and so by a recursion that a proof does not
evaluate.  Where the alphabet is known to be made of the symbols, `readOver` reads the description without making it
again, and does evaluate (`parse_ok_of_readOver`).
-/
namespace BoundedTuring
namespace MachineDescription

/-- Reads a description over an alphabet that is known to be made of certain symbols. -/
def readOver (mode : TapeMode) (names : List String) (inputSize : Nat) (a : Alphabet) (rest : Remaining) :
    Reading MachineDescription := do
  let (line, rest) ← rest.line "header"
  let header ← readHeader mode line
  let (line, rest) ← rest.line "tape symbols"
  let symbols ← line.fieldsOf "tape symbols" header.userSize
  if symbols = names ∧ header.inputSize = inputSize then
    let (line, rest) ← rest.line "transition count"
    let count ← readCount line
    let (m, rest) ← readTransitions count (blankMachine header.states a) rest
    let (settings, rest) ← readSettings m.alphabet.input rest
    return ⟨m, settings.config, settings.trace, rest.comments⟩
  else line.refuseLayout .fields

section

variable {mode : TapeMode} {names : List String} {inputSize : Nat} {a : Alphabet} {d : MachineDescription}

/-- **What is read over the alphabet that the symbols make is what is read.** -/
theorem read_ok_of_readOver (ha : Alphabet.ofList names inputSize mode = .ok a) {rest : Remaining}
    (h : readOver mode names inputSize a rest = .ok d) : read mode rest = .ok d := by
  unfold readOver at h
  simp only [Result.bind_ok_iff] at h
  obtain ⟨first, hfirst, header, hheader, second, hsecond, symbols, hsymbols, h⟩ := h
  split at h
  · rename_i hknown
    obtain ⟨rfl, rfl⟩ := hknown
    obtain ⟨tapeSize, hline, -⟩ := (readHeader_ok_iff ..).1 hheader
    have hempty : Machine.empty header.states symbols header.inputSize mode = .ok (blankMachine header.states a) :=
      (Machine.empty_ok_iff ..).2 ⟨ha, (Table.empty_ok_iff ..).2 ⟨hline.states_range, rfl⟩⟩
    simp only [Result.bind_ok_iff] at h
    unfold read readSymbols
    simp only [Result.bind_ok_iff, Line.check_ok_iff]
    exact ⟨first, hfirst, header, hheader, second, hsecond, _, ⟨symbols, hsymbols, hempty⟩, h⟩
  · simp at h

/-- A text of lines is read over the alphabet of its symbols without taking it to pieces again. -/
theorem parse_ok_of_readOver (ha : Alphabet.ofList names inputSize mode = .ok a) {lines : List String}
    (hlines : lines ≠ [] ∧ ∀ line ∈ lines, Text.WithinLine line.toList)
    (hsize : ("\n".intercalate lines).utf8ByteSize ≤ maxDescriptionSize)
    (h : readOver mode names inputSize a ⟨1, lines.map String.toList⟩ = .ok d) :
    parse mode ("\n".intercalate lines) = .ok d := by
  rw [parse, readDescription_ok_iff, (Text.lines_iff ..).1 (Text.lines_intercalate hlines.1 hlines.2)]
  exact ⟨hsize, read_ok_of_readOver ha h⟩

end

end MachineDescription
end BoundedTuring
