import BoundedTuring.Proofs.Alphabet.Unambiguous
import BoundedTuring.Proofs.Faults
import BoundedTuring.Proofs.Text.Bytes
/-!
# Which symbols make an alphabet

Symbols make an alphabet exactly if each is clean, no two are the same and none of those for input begins another
(`alphabets_accepted`).  That only neighbours are compared lets nothing else through: in a list of distinct symbols none
of which begins another no neighbour does (`leadingPair?_eq_none_iff`), and in a sorted one the neighbours are enough.
-/
namespace BoundedTuring

open Result (FailsOnly)

/-! ## Beginnings -/

/-- No symbol begins another. -/
def PrefixFree (symbols : List String) : Prop :=
  ∀ first ∈ symbols, ∀ second ∈ symbols, first ≠ second → ¬ first.toList <+: second.toList

theorem PrefixFree.perm {symbols symbols' : List String} (h : symbols.Perm symbols') :
    PrefixFree symbols ↔ PrefixFree symbols' := by
  unfold PrefixFree
  simp only [h.mem_iff]

theorem PrefixFree.tail {symbol : String} {symbols : List String} (h : PrefixFree (symbol :: symbols)) :
    PrefixFree symbols := fun first hfirst second hsecond =>
  h first (List.mem_cons_of_mem _ hfirst) second (List.mem_cons_of_mem _ hsecond)

theorem PrefixFree.leadingPair?_eq_none : ∀ symbols : List String, symbols.Nodup → PrefixFree symbols →
    leadingPair? symbols = none
  | [], _, _ => rfl
  | [_], _, _ => rfl
  | first :: second :: rest, hnodup, hfree => by
    obtain ⟨hnot, hrest⟩ := List.nodup_cons.1 hnodup
    have hne : first ≠ second := fun heq => hnot (heq ▸ List.mem_cons_self)
    have hlead : ¬ beginsWith first second = true := by
      rw [beginsWith_iff]
      exact hfree first List.mem_cons_self second (List.mem_cons_of_mem _ List.mem_cons_self) hne
    rw [leadingPair?, if_neg hlead]
    exact PrefixFree.leadingPair?_eq_none (second :: rest) hrest hfree.tail

/-- **Neighbours in order tell whether any symbol begins another.** -/
theorem leadingPair?_eq_none_iff {symbols : List String} (hnodup : symbols.Nodup) :
    leadingPair? (sortSymbols symbols) = none ↔ PrefixFree symbols := by
  have hperm := sortSymbols_perm symbols
  have hnodup' := hperm.nodup_iff.2 hnodup
  rw [← PrefixFree.perm hperm]
  refine ⟨fun h first hfirst second hsecond hne hprefix => hne ?_, PrefixFree.leadingPair?_eq_none _ hnodup'⟩
  exact eq_of_isPrefix_of_leadingPair? h hfirst hsecond hprefix

/-! ## Order -/

/-- **Distinct symbols are sorted by their bytes.** -/
theorem pairwise_bytes_sortSymbols {symbols : List String} (h : symbols.Nodup) :
    (sortSymbols symbols).Pairwise (fun first second => Text.bytes first < Text.bytes second) := by
  have hne : (sortSymbols symbols).Pairwise (· ≠ ·) := (sortSymbols_perm symbols).nodup_iff.2 h
  refine (pairwise_sortSymbols symbols).imp₂ (fun first second hle hne => ?_) hne
  refine Text.bytes_lt_of_lt (Classical.byContradiction fun hlt => hne ?_)
  exact String.le_antisymm hle (String.not_lt.1 hlt)

/-! ## Acceptance -/

/-- The symbols an input alphabet can have. -/
structure InputAlphabet.Acceptable (symbols : List String) : Prop where
  some_symbol : symbols ≠ []
  nonempty : ∀ symbol ∈ symbols, symbol ≠ ""
  no_blank : ∀ symbol ∈ symbols, ∀ c ∈ symbol.toList, Text.isBlank c = false
  distinct : symbols.Nodup
  prefixFree : PrefixFree symbols

/-- The user symbols a tape alphabet can have, of which some are for input. -/
structure Alphabet.Acceptable (userSymbols : List String) (inputSize : Nat) (mode : TapeMode) : Prop where
  inputSize_pos : 1 ≤ inputSize
  inputSize_le : inputSize ≤ userSymbols.length
  room : userSymbols.length + mode.specialSymbols.length ≤ maxTapeAlphabetSize
  nonempty : ∀ symbol ∈ userSymbols, symbol ≠ ""
  no_blank : ∀ symbol ∈ userSymbols, ∀ c ∈ symbol.toList, Text.isBlank c = false
  /-- no name of a special symbol occurs in the lower case of a symbol -/
  no_reserved : ∀ symbol ∈ userSymbols, ∀ name ∈ mode.specialSymbols, ¬ name.toList <:+: Text.lowercase symbol
  distinct : userSymbols.Nodup
  prefixFree : PrefixFree (userSymbols.take inputSize)

/-- What a list of symbols passes that is checked against reserved names. -/
theorem checkSymbols_iff (reserved symbols : List String) : checkSymbols reserved [] symbols = .ok () ↔
    (∀ symbol ∈ symbols, symbol ≠ "") ∧ (∀ symbol ∈ symbols, ∀ c ∈ symbol.toList, Text.isBlank c = false) ∧
      (∀ symbol ∈ symbols, ∀ name ∈ reserved, ¬ name.toList <:+: Text.lowercase symbol) ∧ symbols.Nodup := by
  simp only [checkSymbols_nil_ok_iff, ← Text.occursIn_iff, Bool.not_eq_true]
  constructor
  · rintro ⟨hclean, hdistinct⟩
    exact ⟨fun symbol h => (hclean symbol h).nonempty, fun symbol h => (hclean symbol h).no_blank,
      fun symbol h => (hclean symbol h).no_reserved, hdistinct⟩
  · rintro ⟨hnonempty, hblank, hreserved, hdistinct⟩
    exact ⟨fun symbol h => ⟨hnonempty symbol h, hblank symbol h, hreserved symbol h⟩, hdistinct⟩

namespace InputAlphabet

theorem ofListAvoiding_ok_iff_prefixFree (reserved symbols : List String) (a : InputAlphabet) :
    ofListAvoiding reserved symbols = .ok a ↔
      (symbols ≠ [] ∧ checkSymbols reserved [] symbols = .ok () ∧ PrefixFree symbols) ∧
        ⟨(sortSymbols symbols).toArray⟩ = a := by
  rw [Alphabet.ofListAvoiding_ok_iff, List.isEmpty_eq_false_iff, and_assoc, and_assoc]
  refine and_congr_right fun _ => and_congr_right fun hcheck => ?_
  rw [leadingPair?_eq_none_iff ((checkSymbols_nil_ok_iff ..).1 hcheck).2]

theorem ofList_ok_iff_acceptable (symbols : List String) (a : InputAlphabet) :
    ofList symbols = .ok a ↔ Acceptable symbols ∧ ⟨(sortSymbols symbols).toArray⟩ = a := by
  rw [ofList, ofListAvoiding_ok_iff_prefixFree, checkSymbols_iff]
  refine and_congr_left fun _ => ?_
  constructor
  · rintro ⟨hsome, ⟨hnonempty, hblank, -, hdistinct⟩, hfree⟩
    exact ⟨hsome, hnonempty, hblank, hdistinct, hfree⟩
  · rintro ⟨hsome, hnonempty, hblank, hdistinct, hfree⟩
    exact ⟨hsome, ⟨hnonempty, hblank, fun _ _ _ hname => absurd hname (List.not_mem_nil), hdistinct⟩, hfree⟩

end InputAlphabet

namespace Alphabet

theorem exists_ofList_iff (userSymbols : List String) (inputSize : Nat) (mode : TapeMode) :
    (∃ a, ofList userSymbols inputSize mode = .ok a) ↔ Acceptable userSymbols inputSize mode := by
  constructor
  · rintro ⟨a, ha⟩
    obtain ⟨hsize, hroom, hcheck, input, hinput, -⟩ := (ofList_ok_iff ..).1 ha
    obtain ⟨⟨-, -, hfree⟩, -⟩ := (InputAlphabet.ofListAvoiding_ok_iff_prefixFree ..).1 hinput
    obtain ⟨hnonempty, hblank, hreserved, hdistinct⟩ := (checkSymbols_iff ..).1 hcheck
    exact ⟨by omega, by omega, hroom, hnonempty, hblank, hreserved, hdistinct, hfree⟩
  · intro h
    have hpos := h.inputSize_pos
    have hle := h.inputSize_le
    have hcheck := (checkSymbols_iff ..).2 ⟨h.nonempty, h.no_blank, h.no_reserved, h.distinct⟩
    have hsome : userSymbols.take inputSize ≠ [] := by
      rw [← List.length_pos_iff, List.length_take]
      omega
    have hinput := (InputAlphabet.ofListAvoiding_ok_iff_prefixFree ..).2
      ⟨⟨hsome, checkSymbols_mono (List.Subset.refl _) (List.take_sublist ..).subperm hcheck, h.prefixFree⟩, rfl⟩
    exact ⟨_, (ofList_ok_iff ..).2 ⟨by omega, h.room, hcheck, _, hinput, rfl⟩⟩

end Alphabet

/-- **Exactly the acceptable symbols make an alphabet**, and the others are refused as no alphabet.  An input alphabet
has the symbols it was made of, sorted by their bytes. -/
theorem alphabets_accepted :
    (∀ symbols : List String,
      (InputAlphabet.ofList symbols).SucceedsIff (InputAlphabet.Acceptable symbols)
        (fun a => a.symbols.toList.Perm symbols ∧
          a.symbols.toList.Pairwise (fun first second => Text.bytes first < Text.bytes second)) ∧
      FailsOnly (fun e => e.kind = .alphabet) (InputAlphabet.ofList symbols)) ∧
    ∀ (userSymbols : List String) (inputSize : Nat) (mode : TapeMode),
      ((∃ a, Alphabet.ofList userSymbols inputSize mode = .ok a) ↔
        Alphabet.Acceptable userSymbols inputSize mode) ∧
      FailsOnly (fun e => e.kind = .alphabet) (Alphabet.ofList userSymbols inputSize mode) := by
  refine ⟨fun symbols => ⟨?_, ?_⟩, fun userSymbols inputSize mode => ⟨?_, ?_⟩⟩
  · refine Result.succeedsIff_of_ok_iff _ (InputAlphabet.ofList_ok_iff_acceptable symbols) fun h => ?_
    exact ⟨sortSymbols_perm symbols, pairwise_bytes_sortSymbols h.distinct⟩
  · exact (InputAlphabet.ofListAvoiding_plainOf [] symbols).mono fun _ => And.right
  · exact Alphabet.exists_ofList_iff userSymbols inputSize mode
  · exact (Alphabet.ofList_plainOf userSymbols inputSize mode).mono fun _ => And.right

end BoundedTuring
