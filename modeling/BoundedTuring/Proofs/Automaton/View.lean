import BoundedTuring.Proofs.Automaton.Soundness
import Mathlib.Data.List.Pairwise
/-!
# An automaton as a map

Seen from outside an automaton is its alphabet, which of its states accept, and a partial map from keys to the states
defined for them.  Each operation changes one of the two at one place, and sound automata that agree in both are the
same (`Sound.ext`).
-/
namespace BoundedTuring
namespace Automaton

open Cells (getD_setIfInBounds)

section

variable {d d' : Automaton} {key : Key}

/-! ## The map -/

/-- The state that somebody defined a key to lead to. -/
def at? (d : Automaton) (key : Key) : Option Nat :=
  if key.symbol < d.input.size ∧ d.definedAt (d.slot key) = true then some (d.lookup key) else none

theorem at?_of_inRange (hk : d.InRange key) :
    d.at? key = if d.definedAt (d.slot key) = true then some (d.lookup key) else none := by
  simp [at?, hk.symbol_lt]

theorem definedAt_iff_at? (hk : d.InRange key) : d.definedAt (d.slot key) = true ↔ d.at? key ≠ none := by
  rw [at?_of_inRange hk]
  split <;> simp [*]

/-- **Only keys in range are in the map.** -/
theorem Sound.inRange_of_at? (h : d.Sound) {next : Nat} (hat : d.at? key = some next) : d.InRange key := by
  unfold at? at hat
  split at hat
  · rename_i hdefined
    obtain ⟨hsymbol, hdefined⟩ := hdefined
    have hslot : d.slot key < d.defined.size := by
      rcases Nat.lt_or_ge (d.slot key) d.defined.size with hlt | hge
      · exact hlt
      · rw [definedAt, Array.getD_eq_getD_getElem?, Array.getElem?_eq_none hge] at hdefined
        cases hdefined
    rw [h.size_defined, ← Nat.div_lt_iff_lt_mul (Nat.zero_lt_of_lt hsymbol), slot, Cells.place_div hsymbol] at hslot
    exact ⟨hslot, hsymbol⟩
  · cases hat

/-- **Where a key leads is what the map gives, and its own state where it gives nothing.** -/
theorem Sound.lookup_eq (h : d.Sound) (hk : d.InRange key) : d.lookup key = (d.at? key).getD key.state := by
  rw [at?_of_inRange hk]
  cases hd : d.definedAt (d.slot key) with
  | true => rfl
  | false => exact h.lookup_of_undefined hk hd

theorem at?_blankSlate (states : Nat) (input : InputAlphabet) (key : Key) :
    (blankSlate states input).at? key = none := by
  have hundefined : (blankSlate states input).definedAt ((blankSlate states input).slot key) = false := by
    unfold definedAt blankSlate
    rw [Array.getD_eq_getD_getElem?, Array.getElem?_replicate]
    split <;> rfl
  simp [at?, hundefined]

theorem slot_inj {k l : Key} (hk : k.symbol < d.input.size) (hl : l.symbol < d.input.size) (h : d.slot k = d.slot l) :
    k = l := by
  have hstate : k.state = l.state := by
    have hdiv : d.slot k / d.input.size = d.slot l / d.input.size := congrArg (· / d.input.size) h
    rwa [slot, Cells.place_div hk, slot, Cells.place_div hl] at hdiv
  have hsymbol : k.symbol = l.symbol := by
    have hmod : d.slot k % d.input.size = d.slot l % d.input.size := congrArg (· % d.input.size) h
    rwa [slot, Cells.place_mod hk, slot, Cells.place_mod hl] at hmod
  cases k
  cases l
  cases hstate
  cases hsymbol
  rfl

/-! ## Changing the map -/

theorem Sound.at?_setCell (h : d.Sound) (hk : d.InRange key) {state : Nat} {mark : Bool} {count : Nat} (k : Key) :
    (d.setCell key state mark count).at? k =
      if k = key then (if mark = true then some state else none) else d.at? k := by
  have hlookup : (d.setCell key state mark count).lookup k = if d.slot key = d.slot k then state else d.lookup k :=
    stateAt_setCell (h.slot_lt_size hk) state mark count (d.slot k)
  show (if k.symbol < d.input.size ∧ (d.setCell key state mark count).definedAt (d.slot k) = true
    then some ((d.setCell key state mark count).lookup k) else none) = _
  rw [hlookup, definedAt_setCell (h.slot_lt_marks hk)]
  by_cases hkey : k = key
  · subst hkey
    simp [hk.symbol_lt]
  · rw [if_neg hkey]
    by_cases hsymbol : k.symbol < d.input.size
    · have hslot : d.slot key ≠ d.slot k := fun heq => hkey (slot_inj hsymbol hk.symbol_lt heq.symm)
      rw [if_neg hslot, if_neg hslot]
      rfl
    · simp [at?, hsymbol]

theorem Sound.at?_define (h : d.Sound) (hk : d.InRange key) (next : Nat) (k : Key) :
    (d.define key next).at? k = if k = key then some next else d.at? k := by
  rw [define_eq_setCell, h.at?_setCell hk, if_pos rfl]

theorem definedCount_define (hk : d.InRange key) (hfree : d.at? key = none) (next : Nat) :
    (d.define key next).definedCount = d.definedCount + 1 := by
  have hundefined : ¬ d.definedAt (d.slot key) = true := fun hd => (definedAt_iff_at? hk).1 hd hfree
  show (if d.definedAt (d.slot key) then d.definedCount else d.definedCount + 1) = _
  rw [if_neg hundefined]

theorem at?_mark (d : Automaton) (state : Nat) (accept : Bool) (key : Key) :
    (d.mark state accept).at? key = d.at? key := by
  unfold mark
  split <;> rfl

theorem definedCount_mark (d : Automaton) (state : Nat) (accept : Bool) :
    (d.mark state accept).definedCount = d.definedCount := by
  unfold mark
  split <;> rfl

/-! ## Accepting states -/

theorem stateCount_blankSlate (states : Nat) (input : InputAlphabet) :
    (blankSlate states input).stateCount = states := Array.size_replicate

theorem accepts?_blankSlate (states : Nat) (input : InputAlphabet) (state : Nat) :
    (blankSlate states input).accepts? state = false := by
  unfold accepts? blankSlate
  rw [Array.getD_eq_getD_getElem?, Array.getElem?_replicate]
  split <;> rfl

theorem accepts?_mark {state : Nat} (hstate : state < d.stateCount) (accept : Bool) (q : Nat) :
    (d.mark state accept).accepts? q = if state = q then accept else d.accepts? q := by
  unfold mark
  split
  · rename_i hsame
    split
    · rename_i hq
      rw [← hq, hsame]
    · rfl
  · exact getD_setIfInBounds d.accepting state q accept false hstate

theorem mem_acceptingStates_iff (d : Automaton) (q : Nat) :
    q ∈ d.acceptingStates ↔ q < d.stateCount ∧ d.accepts? q = true := by
  simp [acceptingStates]

theorem acceptingStates_ordered (d : Automaton) : d.acceptingStates.Pairwise (· < ·) :=
  List.pairwise_lt_range.filter _

/-- **The count of accepting states is how many there are.** -/
theorem Sound.length_acceptingStates (h : d.Sound) : d.acceptingStates.length = d.acceptingCount := by
  rw [acceptingStates, ← List.countP_eq_length_filter, h.acceptingCount_eq, Cells.count_true_eq_countP_range]
  rfl

/-- **The accepting states in order**, if they are known in any other. -/
theorem acceptingStates_eq_mergeSort {states : List Nat} (hnodup : states.Nodup)
    (hmem : ∀ q, q ∈ d.acceptingStates ↔ q ∈ states) : d.acceptingStates = states.mergeSort := by
  have hnodup' : d.acceptingStates.Nodup := (acceptingStates_ordered d).imp Nat.ne_of_lt
  have hperm : d.acceptingStates.Perm states.mergeSort :=
    ((List.perm_ext_iff_of_nodup hnodup' hnodup).2 hmem).trans (List.mergeSort_perm states _).symm
  have hsorted : states.mergeSort.Pairwise (· ≤ ·) := by
    have hle : (states.mergeSort fun a b => decide (a ≤ b)).Pairwise fun a b => decide (a ≤ b) = true :=
      List.pairwise_mergeSort (by simpa using fun _ _ _ => Nat.le_trans) (by simpa using Nat.le_total) states
    simpa using hle
  exact hperm.eq_of_pairwise (fun _ _ _ _ => Nat.le_antisymm) ((acceptingStates_ordered d).imp Nat.le_of_lt) hsorted

/-! ## Operations that succeed -/

theorem edit_setAccepting {state : Nat} (hstate : state < d.stateCount) (accept : Bool) :
    d.edit (.setAccepting state accept) = d.mark state accept := by
  rw [edit, (setAccepting_ok_iff d _ state accept).2 ⟨hstate, rfl⟩]
  rfl

theorem edit_put (hk : d.InRange key) {next : Nat} (hnext : next < d.stateCount) (hfree : d.at? key = none) :
    d.edit (.put key next false) = d.define key next := by
  have hundefined : ¬ (d.definedAt (d.slot key) = true ∧ false = false) := fun ⟨hd, _⟩ =>
    (definedAt_iff_at? hk).1 hd hfree
  rw [edit, (put_ok_iff d _ key next false).2 ⟨hk, hnext, hundefined, rfl⟩]
  rfl

/-! ## Equal automata -/

/-- **Sound automata with the same states and alphabet are the same** if the same states accept and the same keys are
defined to lead to the same states. -/
theorem Sound.ext (h : d.Sound) (h' : d'.Sound) (hinput : d.input = d'.input) (hstates : d.stateCount = d'.stateCount)
    (haccepts : ∀ q < d.stateCount, d.accepts? q = d'.accepts? q) (hat : ∀ key, d.at? key = d'.at? key) : d = d' := by
  have haccepting : d.accepting = d'.accepting := Cells.eq_of_getD hstates (fun _ => false) haccepts
  have hslot : ∀ key, d'.slot key = d.slot key := fun key => by
    unfold slot
    rw [hinput]
  -- every cell is that of a key
  have hkeys : ∀ slot < d.stateCount * d.input.size, ∃ key, d.InRange key ∧ d'.InRange key ∧ d.slot key = slot := by
    intro slot hlt
    have hpos : 0 < d.input.size := Nat.pos_of_ne_zero fun hzero => by simp [hzero] at hlt
    have hk : d.InRange ⟨slot / d.input.size, slot % d.input.size⟩ :=
      ⟨(Nat.div_lt_iff_lt_mul hpos).2 hlt, Nat.mod_lt _ hpos⟩
    exact ⟨_, hk, ⟨hstates ▸ hk.state_lt, hinput ▸ hk.symbol_lt⟩, Nat.div_add_mod' slot d.input.size⟩
  have hnext : d.next = d'.next := by
    refine Cells.eq_of_getD ?_ (fun slot => slot / d.input.size) fun slot hlt => ?_
    · rw [h.size_next, h'.size_next, hstates, hinput]
    · obtain ⟨key, hk, hk', rfl⟩ := hkeys slot (h.size_next ▸ hlt)
      have hlookup : d.lookup key = d'.lookup key := by rw [h.lookup_eq hk, h'.lookup_eq hk', hat]
      unfold lookup stateAt at hlookup
      rwa [hslot, ← hinput] at hlookup
  have hdefined : d.defined = d'.defined := by
    refine Cells.eq_of_getD ?_ (fun _ => false) fun slot hlt => ?_
    · rw [h.size_defined, h'.size_defined, hstates, hinput]
    · obtain ⟨key, hk, hk', rfl⟩ := hkeys slot (h.size_defined ▸ hlt)
      have hsame : d.definedAt (d.slot key) = d'.definedAt (d.slot key) := by
        rw [Bool.eq_iff_iff, definedAt_iff_at? hk, ← hslot key, definedAt_iff_at? hk', hat]
      exact hsame
  have hacceptingCount : d.acceptingCount = d'.acceptingCount := by
    rw [h.acceptingCount_eq, h'.acceptingCount_eq, haccepting]
  have hdefinedCount : d.definedCount = d'.definedCount := by rw [h.definedCount_eq, h'.definedCount_eq, hdefined]
  cases d
  cases d'
  simp only at hinput haccepting hnext hdefined hacceptingCount hdefinedCount
  rw [hinput, haccepting, hnext, hdefined, hacceptingCount, hdefinedCount]

end

end Automaton
end BoundedTuring
