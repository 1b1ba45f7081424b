import BoundedTuring.Proofs.Alphabet.Symbols
import Mathlib.Data.List.Pairwise
/-!
# Unambiguous alphabets

No symbol of an input alphabet is the beginning of another.  Only neighbours in the sorted list are compared for that,
and it is enough: what lies in order between a text and a longer text that begins with it begins with it too
(`isPrefix_of_between`), so a symbol that begins a later one begins the next.
-/
namespace BoundedTuring

/-! ## Order and beginnings -/

/-- **What lies between a text and one that begins with it begins with it.** -/
theorem isPrefix_of_between : ∀ a b c : List Char, ¬ b < a → ¬ c < b → a <+: c → a <+: b
  | [], _, _, _, _, _ => List.nil_prefix
  | x :: a, [], _, hab, _, _ => absurd (List.nil_lt_cons x a) hab
  | x :: a, _ :: _, [], _, _, hac => absurd (List.prefix_nil.1 hac) (List.cons_ne_nil x a)
  | x :: a, y :: b, z :: c, hab, hbc, hac => by
    obtain ⟨rfl, hac'⟩ := List.cons_prefix_cons.1 hac
    rw [List.cons_lt_cons_iff, not_or] at hab hbc
    -- the outer two begin with the same character, which leaves no other for the one between
    obtain rfl : x = y := Char.le_antisymm (Char.not_lt.1 hab.1) (Char.not_lt.1 hbc.1)
    have hab' : ¬ b < a := fun hlt => hab.2 ⟨rfl, hlt⟩
    have hbc' : ¬ c < b := fun hlt => hbc.2 ⟨rfl, hlt⟩
    exact List.cons_prefix_cons.2 ⟨rfl, isPrefix_of_between a b c hab' hbc' hac'⟩

theorem not_toList_lt_of_le {s t : String} (h : s ≤ t) : ¬ t.toList < s.toList :=
  fun hlt => String.not_lt.2 h (String.lt_iff.2 hlt)

/-- A text is not after one that begins with it. -/
theorem eq_of_isPrefix_of_le {s t : String} (hle : s ≤ t) (hlead : t.toList <+: s.toList) : t = s := by
  refine String.le_antisymm (String.not_lt.1 fun hlt => ?_) hle
  obtain ⟨rest, hrest⟩ := hlead
  have hlt' := String.lt_iff.1 hlt
  rw [← hrest] at hlt'
  exact List.le_append_left hlt'

theorem beginsWith_iff (first second : String) : beginsWith first second = true ↔ first.toList <+: second.toList :=
  List.isPrefixOf_iff_prefix

/-- **Comparing neighbours is enough**: in a sorted list none of whose neighbours leads the next, no symbol leads a
later one. -/
theorem pairwise_of_leadingPair? : ∀ symbols : List String, symbols.Pairwise (· ≤ ·) → leadingPair? symbols = none →
    symbols.Pairwise (fun first second => ¬ first.toList <+: second.toList)
  | [], _, _ => .nil
  | [_], _, _ => List.pairwise_singleton ..
  | first :: second :: rest, hsorted, h => by
    unfold leadingPair? at h
    split at h
    · cases h
    rename_i hlead
    rw [beginsWith_iff] at hlead
    obtain ⟨hfirst, hrest⟩ := List.pairwise_cons.1 hsorted
    refine .cons (fun later hlater hprefix => hlead ?_) (pairwise_of_leadingPair? (second :: rest) hrest h)
    have hbetween : second ≤ later := by
      rcases List.mem_cons.1 hlater with rfl | hmem
      · exact String.le_refl _
      · exact (List.pairwise_cons.1 hrest).1 later hmem
    have hnext : first ≤ second := hfirst second List.mem_cons_self
    exact isPrefix_of_between _ _ _ (not_toList_lt_of_le hnext) (not_toList_lt_of_le hbetween) hprefix

/-- **Nor does one lead an earlier one**: where one symbol begins another it is that other. -/
theorem eq_of_isPrefix_of_leadingPair? {symbols : List String} (h : leadingPair? (sortSymbols symbols) = none)
    {first second : String} (hfirst : first ∈ sortSymbols symbols) (hsecond : second ∈ sortSymbols symbols)
    (hlead : first.toList <+: second.toList) : first = second := by
  have hsorted := pairwise_sortSymbols symbols
  have hlater : (sortSymbols symbols).Pairwise (fun s t => s.toList <+: t.toList → s = t) :=
    (pairwise_of_leadingPair? _ hsorted h).imp (fun hnot hprefix => absurd hprefix hnot)
  have hearlier : (sortSymbols symbols).Pairwise (fun s t => t.toList <+: s.toList → t = s) :=
    hsorted.imp eq_of_isPrefix_of_le
  exact List.Pairwise.forall_of_forall_of_flip (fun _ _ _ => rfl) hlater hearlier hfirst hsecond hlead

namespace InputAlphabet

/-- The input alphabets that symbols make, by themselves or as the first symbols of a tape alphabet. -/
def Built (a : InputAlphabet) : Prop :=
  (∃ symbols, InputAlphabet.ofList symbols = .ok a) ∨ ∃ tape : Alphabet, tape.Built ∧ tape.input = a

theorem built_input {a : Alphabet} (h : a.Built) : a.input.Built := .inr ⟨a, h, rfl⟩

/-- There are symbols, none is empty, none comes twice and none is the beginning of another. -/
structure Unambiguous (a : InputAlphabet) : Prop where
  size_pos : 1 ≤ a.size
  nonempty : ∀ symbol ∈ a.symbols.toList, symbol ≠ ""
  nodup : a.symbols.toList.Nodup
  prefixFree : ∀ first ∈ a.symbols.toList, ∀ second ∈ a.symbols.toList, first.toList <+: second.toList →
    first = second

section

variable {a : InputAlphabet}

theorem unambiguous_of_ofListAvoiding {reserved symbols : List String}
    (h : InputAlphabet.ofListAvoiding reserved symbols = .ok a) : a.Unambiguous := by
  obtain ⟨hsome, hcheck, hleading, rfl⟩ := (Alphabet.ofListAvoiding_ok_iff ..).1 h
  obtain ⟨hclean, hnodup⟩ := (checkSymbols_nil_ok_iff ..).1 hcheck
  have hperm := sortSymbols_perm symbols
  refine ⟨?_, ?_, hperm.nodup_iff.2 hnodup, ?_⟩
  · have hlength := hperm.length_eq
    have hpos : 0 < symbols.length := List.length_pos_iff.2 (by simpa using hsome)
    show 1 ≤ (sortSymbols symbols).toArray.size
    rw [List.size_toArray]
    omega
  · exact fun symbol hsymbol => (hclean symbol (hperm.mem_iff.1 hsymbol)).nonempty
  · exact fun first hfirst second hsecond => eq_of_isPrefix_of_leadingPair? hleading hfirst hsecond

theorem Built.exists_symbols (h : a.Built) :
    ∃ reserved symbols, InputAlphabet.ofListAvoiding reserved symbols = .ok a := by
  rcases h with ⟨symbols, h⟩ | ⟨tape, ⟨userSymbols, inputSize, mode, h⟩, rfl⟩
  · exact ⟨[], symbols, h⟩
  · obtain ⟨-, -, -, input, hinput, rfl⟩ := (Alphabet.ofList_ok_iff ..).1 h
    exact ⟨_, _, hinput⟩

/-- **Every alphabet that symbols make is unambiguous.** -/
theorem Built.unambiguous (h : a.Built) : a.Unambiguous := by
  obtain ⟨reserved, symbols, h⟩ := h.exists_symbols
  exact unambiguous_of_ofListAvoiding h

/-- **Its symbols can stand as fields.** -/
theorem Built.isField (h : a.Built) {symbol : String} (hsymbol : symbol ∈ a.symbols.toList) :
    Text.IsField symbol ∧ Text.WithinLine symbol.toList := by
  obtain ⟨reserved, symbols, h⟩ := h.exists_symbols
  obtain ⟨-, hcheck, -, rfl⟩ := (Alphabet.ofListAvoiding_ok_iff ..).1 h
  obtain ⟨hclean, -⟩ := (checkSymbols_nil_ok_iff ..).1 hcheck
  exact (hclean symbol ((sortSymbols_perm symbols).mem_iff.1 hsymbol)).isField

theorem Unambiguous.indexOf?_eq_some_iff (h : a.Unambiguous) (name : String) (index : Nat) :
    a.indexOf? name = some index ↔ a.symbols[index]? = some name :=
  idxOf?_eq_some_iff_of_nodup h.nodup name index

end

end InputAlphabet
end BoundedTuring
