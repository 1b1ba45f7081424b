import BoundedTuring.Proofs.Alphabet.Layout
import BoundedTuring.Proofs.Table.Resize
/-!
# Changes that do not preserve

A change of the number of states that does not preserve leaves an empty table, unless it is to the number there is: then
it leaves the table as it is (`resize_false`).  So it forgets what was defined before exactly if it changes something or
nothing was defined, and of two such changes the first may be left out unless the second one goes back to the number
there was (`Sound.resized_again_iff`).
-/
namespace BoundedTuring
namespace Table

/-- Nothing is defined: every cell holds the identity, and every count is zero. -/
structure Untouched (t : Table) : Prop where
  entries : t.entries = []
  isDefined : ∀ key, t.InRange key → t.isDefined key = .ok false
  get : ∀ key, t.InRange key → t.get key = .ok (.identity key)
  definedCount : t.definedCount = 0
  stillCount : t.stillCount = 0
  stateDefinedCount : ∀ state < t.acceptState, t.stateDefinedCount state = .ok 0

/-- An empty table with some number of states, otherwise like a table. -/
def cleared (t : Table) (states : Nat) : Table := blankSlate states t.alphabetSize t.marker t.stillAllowed

section

variable {t : Table} {m n : Nat}

theorem entries_cleared (t : Table) (states : Nat) : (t.cleared states).entries = [] := by
  refine List.eq_nil_iff_forall_not_mem.2 fun entry hmem => ?_
  obtain ⟨slot, hdefined, -⟩ := (mem_entries_iff ..).1 hmem
  rw [cleared, definedAt_blankSlate] at hdefined
  cases hdefined

theorem untouched_cleared (t : Table) (states : Nat) : (t.cleared states).Untouched where
  entries := entries_cleared t states
  isDefined key hkey := by
    unfold isDefined
    rw [Result.check_ok_iff, checkKey_ok_iff, Result.pure_ok_iff]
    exact ⟨hkey, definedAt_blankSlate ..⟩
  get key hkey := by
    rw [get_ok_iff]
    refine ⟨hkey, (cellAt_blankSlate ..).trans ?_⟩
    exact congrArg Transition.identity (keyAt_slot _ key hkey.symbol_lt)
  definedCount := rfl
  stillCount := rfl
  stateDefinedCount state hstate := by
    unfold stateDefinedCount
    rw [Result.check_ok_iff, checkState_ok_iff, Result.pure_ok_iff]
    refine ⟨hstate, ?_⟩
    show (Array.replicate (states - 2) 0).getD state 0 = 0
    rw [Array.getD_eq_getD_getElem?, Array.getElem?_replicate]
    split <;> rfl

/-! ## One change -/

/-- **A change that does not preserve** clears the table, but not if it is to the number of states there is. -/
theorem resize_false (t : Table) (hn : Allowed n) :
    t.resize n false = .ok (if n = t.stateCount then t else t.cleared n) := by
  rw [resize_ok_iff]
  refine ⟨hn, ?_⟩
  by_cases hsame : n = t.stateCount
  · rw [if_pos hsame, if_pos hsame]
  · rw [if_neg hsame, if_neg hsame]
    rfl

/-- A sound table with nothing defined is empty. -/
theorem Sound.cleared_eq_self_iff (h : t.Sound) : t.cleared t.stateCount = t ↔ t.entries = [] := by
  constructor
  · intro heq
    rw [← heq]
    exact entries_cleared ..
  · intro hnone
    refine (sound_blankSlate _ _ _ _ h.states).ext h ⟨rfl, rfl, rfl, rfl⟩ ?_
    exact (entries_cleared ..).trans hnone.symm

theorem Reachable.empty_eq {a : Alphabet} (h : Reachable a t) (hn : Allowed n) :
    Table.empty n a t.stillAllowed = .ok (t.cleared n) := by
  rw [empty_ok_iff, cleared, h.alphabetSize_eq, h.marker_eq]
  exact ⟨hn, rfl⟩

/-! ## Two changes -/

/-- **The first of two changes may be left out** unless it is one, the second goes back, and something was defined. -/
theorem Sound.resized_again_iff (h : t.Sound) (hm : Allowed m) (hn : Allowed n) :
    ∃ u v w, t.resize m false = .ok u ∧ u.resize n false = .ok v ∧ t.resize n false = .ok w ∧
      (v = w ↔ n ≠ t.stateCount ∨ m = t.stateCount ∨ t.entries = []) := by
  refine ⟨_, _, _, resize_false t hm, resize_false _ hn, resize_false t hn, ?_⟩
  by_cases hfirst : m = t.stateCount
  · rw [if_pos hfirst]
    exact iff_of_true rfl (.inr (.inl hfirst))
  · rw [if_neg hfirst]
    -- the table is empty by now, and a second change to the same number leaves it so
    have hsecond : (if n = (t.cleared m).stateCount then t.cleared m else (t.cleared m).cleared n) = t.cleared n := by
      split
      · rename_i hsame
        rw [hsame]
        rfl
      · rfl
    rw [hsecond]
    by_cases hback : n = t.stateCount
    · subst hback
      rw [if_pos rfl, h.cleared_eq_self_iff]
      simp [hfirst]
    · rw [if_neg hback]
      exact iff_of_true rfl (.inl hback)

end

/-- How changes of the number of states that do not preserve start afresh. -/
structure StartsAfresh (a : Alphabet) (t : Table) : Prop where
  /-- A change to another number, or of a table with nothing defined, leaves what an empty table is made as. -/
  afresh : ∀ n, Allowed n → n ≠ t.stateCount ∨ t.entries = [] →
    ∃ u, t.resize n false = .ok u ∧ Table.empty n a t.stillAllowed = .ok u ∧ u.Untouched
  /-- One to the number there is leaves the table as it is. -/
  present : t.resize t.stateCount false = .ok t
  again : ∀ m n, Allowed m → Allowed n →
    ∃ u v w, t.resize m false = .ok u ∧ u.resize n false = .ok v ∧ t.resize n false = .ok w ∧
      (v = w ↔ n ≠ t.stateCount ∨ m = t.stateCount ∨ t.entries = [])

/-- **Changes of the number of states that do not preserve start afresh**, but for the one to the number there is, which
is no change. -/
theorem clearing_resizes_start_afresh (a : Alphabet) (t : Table) (h : Reachable a t) : t.StartsAfresh a := by
  have hsound := h.sound
  refine ⟨fun n hn hchange => ?_, ?_, fun m n hm hn => hsound.resized_again_iff hm hn⟩
  · refine ⟨t.cleared n, ?_, h.empty_eq hn, untouched_cleared t n⟩
    rw [resize_false t hn]
    split
    · rename_i hsame
      subst hsame
      rw [hsound.cleared_eq_self_iff.2 (hchange.resolve_left (not_not_intro rfl))]
    · rfl
  · rw [resize_false t ⟨hsound.states, h.withinLimit⟩, if_pos rfl]

/-- Two transitions are gone after a change to six states and still there after one to the four there are; a change to
six states and back does not leave what the change back alone does. -/
theorem two_transitions_cleared :
    let a : Alphabet := .binary .leftEnd
    let t := [.put ⟨0, 0⟩ ⟨1, 1, .still⟩ false, .put ⟨1, 2⟩ ⟨3, 2, .right⟩ false].foldl edit
      (blankSlate 4 4 (some 2) true)
    Reachable a t ∧ (∃ u, t.resize 6 false = .ok u ∧ Table.empty 6 a true = .ok u ∧ u.Untouched) ∧
      t.resize 4 false = .ok t ∧
      ∃ u v w, t.resize 6 false = .ok u ∧ u.resize 4 false = .ok v ∧ t.resize 4 false = .ok w ∧ v ≠ w := by
  intro a t
  have hstart : Reachable a (blankSlate 4 4 (some 2) true) :=
    .empty (show Table.empty 4 a true = .ok (blankSlate 4 4 (some 2) true) from rfl)
  have ht : Reachable a t := hstart.edits _
  obtain ⟨hafresh, hpresent, hagain⟩ := clearing_resizes_start_afresh a t ht
  obtain ⟨u, v, w, hu, hv, hw, hiff⟩ := hagain 6 4 (by decide) (by decide)
  exact ⟨ht, hafresh 6 (by decide) (.inl (by decide)), hpresent, u, v, w, hu, hv, hw, hiff.not.2 (by decide)⟩

/-- A change that does not preserve keeps the only transition of a table if it is to the number of states there is,
where an empty table has none; so after a change to four states and back the table is another one. -/
theorem transition_outlives_clearing :
    let a : Alphabet := .binary .leftEnd
    let t := (blankSlate 3 4 (some 2) true).edit (.put ⟨0, 0⟩ ⟨1, 0, .right⟩ false)
    Reachable a t ∧ Allowed 3 ∧ t.resize 3 false = .ok t ∧ t.entries = [(⟨0, 0⟩, ⟨1, 0, .right⟩)] ∧
      (∃ u, Table.empty 3 a true = .ok u ∧ u ≠ t) ∧
      ∃ u v, t.resize 4 false = .ok u ∧ u.resize 3 false = .ok v ∧ v ≠ t := by
  intro a t
  have hstart : Reachable a (blankSlate 3 4 (some 2) true) :=
    .empty (show Table.empty 3 a true = .ok (blankSlate 3 4 (some 2) true) from rfl)
  exact ⟨hstart.edit _, by decide, by decide, by decide, ⟨_, rfl, by decide⟩, _, _, rfl, rfl, by decide⟩

end Table
end BoundedTuring
