import BoundedTuring.Transition
import Mathlib.Data.List.Nodup
/-!
# Fresh keys

Entries that go one after the other into a map with free keys.  A key is free when its entry goes in exactly if it was
free at first and no entry before it has it (`freshIn_cons_iff`).
-/
namespace BoundedTuring

variable {α : Type}

/-- Entries of different keys, none of which a map has. -/
def FreshIn (at? : Key → Option α) (entries : List (Key × α)) : Prop :=
  (entries.map Prod.fst).Nodup ∧ ∀ e ∈ entries, at? e.1 = none

theorem FreshIn.tail {at? : Key → Option α} {e : Key × α} {rest : List (Key × α)} (h : FreshIn at? (e :: rest)) :
    FreshIn at? rest :=
  ⟨(List.nodup_cons.1 h.1).2, fun f hf => h.2 f (List.mem_cons_of_mem e hf)⟩

/-- A map with one more entry. -/
def insertIn (at? : Key → Option α) (e : Key × α) : Key → Option α := fun key =>
  if key = e.1 then some e.2 else at? key

theorem freshIn_cons_iff (at? : Key → Option α) (e : Key × α) (rest : List (Key × α)) :
    FreshIn at? (e :: rest) ↔ at? e.1 = none ∧ FreshIn (insertIn at? e) rest := by
  have hinsert : ∀ key, insertIn at? e key = none ↔ key ≠ e.1 ∧ at? key = none := fun key => by
    by_cases hkey : key = e.1 <;> simp [insertIn, hkey]
  unfold FreshIn
  rw [List.map_cons, List.nodup_cons, List.forall_mem_cons]
  simp only [hinsert]
  constructor
  · rintro ⟨⟨hnot, hnodup⟩, hfree, hrest⟩
    exact ⟨hfree, hnodup, fun f hf => ⟨fun heq => hnot (List.mem_map.2 ⟨f, hf, heq⟩), hrest f hf⟩⟩
  · rintro ⟨hfree, hnodup, hrest⟩
    refine ⟨⟨fun hmem => ?_, hnodup⟩, hfree, fun f hf => (hrest f hf).2⟩
    obtain ⟨f, hf, heq⟩ := List.mem_map.1 hmem
    exact (hrest f hf).1 heq

/-- An entry of a free key that is inserted is in the map besides those that were. -/
theorem insertIn_eq_some_iff {at? : Key → Option α} {e : Key × α} (hfree : at? e.1 = none) (key : Key) (a : α) :
    insertIn at? e key = some a ↔ (key, a) = e ∨ at? key = some a := by
  obtain ⟨key', a'⟩ := e
  by_cases hkey : key = key'
  · subst hkey
    simp [insertIn, hfree, eq_comm]
  · simp [insertIn, hkey]

end BoundedTuring
