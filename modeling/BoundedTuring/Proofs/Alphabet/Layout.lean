import BoundedTuring.Alphabet.Tape
import BoundedTuring.Proofs.Result
/-!
# The layout of a tape alphabet

An alphabet that is built has its input symbols in front and the special symbols of its mode at the end
(`Built.layout`), so that the blank and the marker are tape symbols, are two, and are no input symbols.
-/
namespace BoundedTuring
namespace InputAlphabet

theorem containsAll_iff (a : InputAlphabet) (w : Word) : a.containsAll w = true ↔ ∀ s ∈ w, s < a.size := by
  simp [containsAll]

theorem containsAll_eq_false_iff (a : InputAlphabet) (w : Word) :
    a.containsAll w = false ↔ ∃ s ∈ w, a.size ≤ s := by
  simp [containsAll]

end InputAlphabet

namespace Alphabet

/-- The alphabets that symbols make. -/
def Built (a : Alphabet) : Prop := ∃ userSymbols inputSize mode, Alphabet.ofList userSymbols inputSize mode = .ok a

theorem ofListAvoiding_ok_iff (reserved symbols : List String) (a : InputAlphabet) :
    InputAlphabet.ofListAvoiding reserved symbols = .ok a ↔ symbols.isEmpty = false ∧
      checkSymbols reserved [] symbols = .ok () ∧ leadingPair? (sortSymbols symbols) = none ∧
      ⟨(sortSymbols symbols).toArray⟩ = a := by
  unfold InputAlphabet.ofListAvoiding
  simp only [Result.guard_ok_iff, Result.check_ok_iff, Bool.not_eq_true]
  refine and_congr_right fun _ => and_congr_right fun _ => ?_
  cases leadingPair? (sortSymbols symbols) with
  | none => simp [Result.pure_ok_iff]
  | some pair => simp [Result.fail]

/-- Symbols that are in order and have no flaw make the alphabet of themselves. -/
theorem ofListAvoiding_of_ordered (reserved : List String) {symbols : List String} (hsome : symbols.isEmpty = false)
    (hordered : symbols.Pairwise (fun a b => !decide (b < a))) (hcheck : checkSymbols reserved [] symbols = .ok ())
    (hleading : leadingPair? symbols = none) :
    InputAlphabet.ofListAvoiding reserved symbols = .ok ⟨symbols.toArray⟩ := by
  have hsorted : sortSymbols symbols = symbols := List.mergeSort_of_pairwise hordered
  refine (ofListAvoiding_ok_iff ..).2 ⟨hsome, hcheck, ?_, ?_⟩
  · rwa [hsorted]
  · rw [hsorted]

theorem ofList_ok_iff (userSymbols : List String) (inputSize : Nat) (mode : TapeMode) (a : Alphabet) :
    Alphabet.ofList userSymbols inputSize mode = .ok a ↔ ¬ (inputSize < 1 ∨ userSymbols.length < inputSize) ∧
      userSymbols.length + mode.specialSymbols.length ≤ maxTapeAlphabetSize ∧
      checkSymbols mode.specialSymbols [] userSymbols = .ok () ∧
      ∃ input, InputAlphabet.ofListAvoiding mode.specialSymbols (userSymbols.take inputSize) = .ok input ∧
        ⟨mode, input, input.symbols ++ (sortSymbols (userSymbols.drop inputSize)).toArray ++
          mode.specialSymbols.toArray⟩ = a := by
  unfold Alphabet.ofList
  simp only [Result.guard_ok_iff, Result.check_ok_iff, Nat.not_lt]
  simp only [Result.bind_ok_iff, Result.pure_ok_iff]

/-- User symbols that are in order, those for input and the others, make the alphabet of themselves. -/
theorem ofList_of_ordered {userSymbols : List String} {inputSize : Nat} {mode : TapeMode}
    (hsize : ¬ (inputSize < 1 ∨ userSymbols.length < inputSize))
    (hroom : userSymbols.length + mode.specialSymbols.length ≤ maxTapeAlphabetSize)
    (hcheck : checkSymbols mode.specialSymbols [] userSymbols = .ok ())
    (hinput : InputAlphabet.ofListAvoiding mode.specialSymbols (userSymbols.take inputSize) =
      .ok ⟨(userSymbols.take inputSize).toArray⟩)
    (hwork : (userSymbols.drop inputSize).Pairwise (fun a b => !decide (b < a))) :
    Alphabet.ofList userSymbols inputSize mode =
      .ok ⟨mode, ⟨(userSymbols.take inputSize).toArray⟩, userSymbols.toArray ++ mode.specialSymbols.toArray⟩ := by
  have hsorted : sortSymbols (userSymbols.drop inputSize) = userSymbols.drop inputSize :=
    List.mergeSort_of_pairwise hwork
  refine (ofList_ok_iff ..).2 ⟨hsize, hroom, hcheck, _, hinput, ?_⟩
  have hsymbols :
      (userSymbols.take inputSize).toArray ++ (userSymbols.drop inputSize).toArray = userSymbols.toArray := by
    rw [List.append_toArray, List.take_append_drop]
  rw [hsorted, hsymbols]

section

variable {a : Alphabet}

theorem Built.layout (h : a.Built) :
    ∃ work, a.symbols = a.input.symbols ++ work ++ a.mode.specialSymbols.toArray := by
  obtain ⟨userSymbols, inputSize, mode, h⟩ := h
  obtain ⟨-, -, -, input, -, rfl⟩ := (ofList_ok_iff ..).1 h
  exact ⟨_, rfl⟩

/-- **There is room for the input symbols and the special ones.** -/
theorem Built.inputSize_add_specials_le (h : a.Built) : a.inputSize + a.mode.specialSymbols.length ≤ a.size := by
  obtain ⟨work, hsymbols⟩ := h.layout
  have hspecials : a.mode.specialSymbols.toArray.size = a.mode.specialSymbols.length := rfl
  unfold size inputSize InputAlphabet.size
  rw [hsymbols, Array.size_append, Array.size_append, hspecials]
  omega

theorem specialSymbols_length_pos (mode : TapeMode) : 0 < mode.specialSymbols.length := by
  cases mode <;> decide

theorem Built.blank_lt (h : a.Built) : a.blank < a.size := by
  have hroom := h.inputSize_add_specials_le
  have hpos := specialSymbols_length_pos a.mode
  unfold blank
  omega

theorem Built.lt_size_of_lt_inputSize (h : a.Built) {symbol : Nat} (hs : symbol < a.inputSize) : symbol < a.size := by
  have hroom := h.inputSize_add_specials_le
  omega

theorem marker?_eq_some_iff (marker : Nat) : a.marker? = some marker ↔ a.mode = .leftEnd ∧ a.size - 2 = marker := by
  unfold marker?
  cases a.mode with
  | leftEnd => simp
  | twoWay => simp

theorem marker?_of_leftEnd (hmode : a.mode = .leftEnd) : a.marker? = some (a.size - 2) :=
  (marker?_eq_some_iff _).2 ⟨hmode, rfl⟩

theorem marker?_eq_none_iff : a.marker? = none ↔ a.mode = .twoWay := by
  unfold marker?
  cases a.mode <;> simp

/-- **The marker is a tape symbol, and neither an input symbol nor the blank.** -/
theorem Built.marker_bounds (h : a.Built) {marker : Nat} (hm : a.marker? = some marker) :
    a.inputSize ≤ marker ∧ marker < a.blank ∧ marker < a.size := by
  have hroom := h.inputSize_add_specials_le
  obtain ⟨hmode, hsize⟩ := (marker?_eq_some_iff marker).1 hm
  rw [hmode] at hroom
  change a.inputSize + 2 ≤ a.size at hroom
  unfold blank
  omega

end

/-! ## Two symbols -/

def binary (mode : TapeMode) : Alphabet := ⟨mode, ⟨#["0", "1"]⟩, #["0", "1"] ++ mode.specialSymbols.toArray⟩

theorem ofList_binary (mode : TapeMode) : Alphabet.ofList ["0", "1"] 2 mode = .ok (binary mode) := by
  refine ofList_of_ordered (by decide) (by cases mode <;> decide) (by cases mode <;> rfl) ?_ (by decide)
  exact ofListAvoiding_of_ordered _ rfl (by decide) (by cases mode <;> rfl) (by decide)

end Alphabet
end BoundedTuring
