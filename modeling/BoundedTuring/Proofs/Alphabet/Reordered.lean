import BoundedTuring.Proofs.Alphabet.Symbols
/-!
# Symbols in another order

An alphabet sorts its symbols, those for input and the others apart, and what it checks of them does not look at their
order.  So the same symbols in another order, each kind among themselves, make the same alphabet.
-/
namespace BoundedTuring

/-- User symbols in another order: those for input, which come first, among themselves, and so the others. -/
structure Reordered (inputSize : Nat) (symbols symbols' : List String) : Prop where
  input : (symbols.take inputSize).Perm (symbols'.take inputSize)
  work : (symbols.drop inputSize).Perm (symbols'.drop inputSize)

variable {reserved symbols symbols' : List String} {inputSize : Nat}

theorem Reordered.perm (h : Reordered inputSize symbols symbols') : symbols.Perm symbols' := by
  have happend := h.input.append h.work
  rwa [List.take_append_drop, List.take_append_drop] at happend

theorem sortSymbols_eq_of_perm (h : symbols.Perm symbols') : sortSymbols symbols = sortSymbols symbols' := by
  have hperm := (sortSymbols_perm symbols).trans (h.trans (sortSymbols_perm symbols').symm)
  exact hperm.eq_of_pairwise (fun _ _ _ _ => String.le_antisymm) (pairwise_sortSymbols _) (pairwise_sortSymbols _)

/-- **The order of its symbols is nothing to an input alphabet.** -/
theorem InputAlphabet.ofListAvoiding_of_perm (h : symbols.Perm symbols') {a : InputAlphabet}
    (ha : ofListAvoiding reserved symbols = .ok a) : ofListAvoiding reserved symbols' = .ok a := by
  rw [Alphabet.ofListAvoiding_ok_iff] at ha ⊢
  obtain ⟨hsome, hcheck, hleading, hsorted⟩ := ha
  rw [sortSymbols_eq_of_perm h] at hleading hsorted
  refine ⟨?_, checkSymbols_mono (List.Subset.refl _) h.symm.subperm hcheck, hleading, hsorted⟩
  rw [List.isEmpty_eq_false_iff] at hsome ⊢
  exact fun hnil => hsome (hnil ▸ h).eq_nil

namespace Alphabet

/-- **Nor to a tape alphabet**, if those for input stay in front of the others. -/
theorem ofList_of_reordered (h : Reordered inputSize symbols symbols') {mode : TapeMode} {a : Alphabet}
    (ha : ofList symbols inputSize mode = .ok a) : ofList symbols' inputSize mode = .ok a := by
  obtain ⟨hsize, hroom, hcheck, input, hinput, rfl⟩ := (ofList_ok_iff ..).1 ha
  rw [sortSymbols_eq_of_perm h.work]
  rw [h.perm.length_eq] at hsize hroom
  exact (ofList_ok_iff ..).2 ⟨hsize, hroom, checkSymbols_mono (List.Subset.refl _) h.perm.symm.subperm hcheck, input,
    InputAlphabet.ofListAvoiding_of_perm h.input hinput, rfl⟩

theorem inputSize_of_ofList {mode : TapeMode} {a : Alphabet} (ha : ofList symbols inputSize mode = .ok a) :
    a.inputSize = inputSize := by
  obtain ⟨hsize, -, -, input, hinput, rfl⟩ := (ofList_ok_iff ..).1 ha
  obtain ⟨-, -, -, rfl⟩ := (ofListAvoiding_ok_iff ..).1 hinput
  show (sortSymbols (symbols.take inputSize)).toArray.size = inputSize
  rw [List.size_toArray, (sortSymbols_perm _).length_eq, List.length_take]
  omega

end Alphabet
end BoundedTuring
