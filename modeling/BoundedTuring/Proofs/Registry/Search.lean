import BoundedTuring.Proofs.Bundled.Descriptions
import BoundedTuring.Proofs.Text.Lowercase
/-!
# Searching a registry

A search gives the indices of the machines whose names have the lower case of the query in their own (`mem_search_iff`).
A name with the query in it is one of these wherever the query tells of its sigmas whether they end words, and the case
of the letters does not matter then; a query that does not tell misses a name that it is part of
(`search_finds_names`).
-/
namespace BoundedTuring
namespace Registry

open Text (SameLetters Settled)

/-- A name with a query in it once the case of letters a to z is changed in either. -/
def NameHolds (name query : String) : Prop :=
  ∃ name' query', SameLetters name name' ∧ SameLetters query query' ∧ query'.toList <:+: name'.toList

theorem nameHolds_of_part {name query : String} (h : query.toList <:+: name.toList) : NameHolds name query :=
  ⟨name, query, rfl, rfl, h⟩

/-- **A search is for the lower case of the query in those of the names.** -/
theorem mem_search_iff (r : Registry) (query : String) (index : Nat) : index ∈ r.search query ↔
    ∃ m, r.machines[index]? = some m ∧ Text.lowercase query <:+: Text.lowercase m.name := by
  unfold search
  rw [List.mem_filter, List.mem_range]
  constructor
  · rintro ⟨hlt, hmatches⟩
    obtain ⟨m, hm, hname⟩ := (Option.any_eq_true ..).1 hmatches
    exact ⟨m, hm, (Text.occursIn_iff ..).1 hname⟩
  · rintro ⟨m, hm, hname⟩
    refine ⟨(Array.getElem?_eq_some_iff.1 hm).1, ?_⟩
    rw [hm]
    exact (Text.occursIn_iff ..).2 hname

theorem pairwise_search (r : Registry) (query : String) : (r.search query).Pairwise (· < ·) :=
  List.pairwise_lt_range.filter _

/-- **The lower case of a query that tells of its sigmas is in those of the names that hold it.** -/
theorem lowercase_within_of_nameHolds {name query : String} (h : NameHolds name query) (hquery : Settled query) :
    Text.lowercase query <:+: Text.lowercase name := by
  obtain ⟨name', query', hname, hsame, hpart⟩ := h
  rw [hname.lowercase_eq, hsame.lowercase_eq]
  exact (hsame.settled_iff.1 hquery).lowercase_within hpart

/-- What a search for a query gives, in any registry. -/
structure Searches (query : String) : Prop where
  ordered : ∀ r : Registry, (r.search query).Pairwise (· < ·)
  registered : ∀ (r : Registry), ∀ index ∈ r.search query, index < r.size
  finds : Settled query → ∀ (r : Registry) index m, r.machines[index]? = some m → NameHolds m.name query →
    index ∈ r.search query
  /-- Only a query that tells of its sigmas finds all the names that it is part of. -/
  settled : (∀ (r : Registry) index m, r.machines[index]? = some m → query.toList <:+: m.name.toList →
    index ∈ r.search query) → Settled query

/-- **A search finds the names that hold the query** if the query tells of each capital sigma in it whether it ends a
word, and only then does it find all that have the query in them as it is.  It gives their indices once each and in
increasing order. -/
theorem search_finds_names (query : String) : Searches query where
  ordered r := pairwise_search r query
  registered r index hindex := by
    obtain ⟨m, hm, -⟩ := (mem_search_iff ..).1 hindex
    exact (Array.getElem?_eq_some_iff.1 hm).1
  finds hquery r index m hm hname := (mem_search_iff ..).2 ⟨m, hm, lowercase_within_of_nameHolds hname hquery⟩
  settled hfinds := by
    refine Decidable.byContradiction fun hquery => ?_
    obtain ⟨name, hpart, hmissed⟩ := Text.exists_text_without hquery
    -- a registry of one machine, with the name that is missed
    obtain ⟨m, hm, hname⟩ := (mem_search_iff ..).1 (hfinds ⟨#[⟨name, default⟩], 0⟩ 0 ⟨name, default⟩ rfl hpart)
    cases hm
    exact hmissed hname

/-- A query of capital letters finds the machine for words of even length, and one with a sigma inside a word finds
the name that has it in it. -/
theorem even_found_in_capitals : (Settled "EVEN" ∧ 1 ∈ Registry.bundled.search "EVEN") ∧
    Settled "ΥΣΣΕ" ∧ ∀ (r : Registry) m, r.machines[0]? = some m → m.name = "ΟΔΥΣΣΕΑΣ" → 0 ∈ r.search "ΥΣΣΕ" := by
  have hplain : Settled "EVEN" := Text.settledAfter_of_not_mem [] (by decide)
  have hinside : Settled "ΥΣΣΕ" := by decide +kernel
  obtain ⟨_, d, _, hbundled, -⟩ := Bundled.registered_bundled
  have hholds : NameHolds "even-length" "EVEN" :=
    ⟨"EVEN-length", "EVEN", by decide, rfl, [], "-length".toList, by decide⟩
  refine ⟨⟨hplain, ?_⟩, hinside, fun r m hm hname => ?_⟩
  · exact (search_finds_names "EVEN").finds hplain Registry.bundled 1 ⟨"even-length", d⟩ (by rw [hbundled]; rfl) hholds
  · refine (search_finds_names "ΥΣΣΕ").finds hinside r 0 m hm (nameHolds_of_part ?_)
    rw [hname]
    exact ⟨"ΟΔ".toList, "ΑΣ".toList, by decide⟩

/-- The name ΑΣΑ has the query ΑΣ in it.  But the sigma ends a word in the query and not in the name, so the lower case
of one has a final sigma and that of the other does not. -/
theorem search_misses_part_of_name : ∃ r, Registry.empty.register "ΑΣΑ" default = .ok (0, r) ∧ r.names = ["ΑΣΑ"] ∧
    "ΑΣ".toList <:+: "ΑΣΑ".toList ∧ r.search "ΑΣ" = [] :=
  ⟨⟨#[⟨"ΑΣΑ", default⟩], 0⟩, by decide +kernel, rfl, ⟨[], ['Α'], by decide⟩, by decide +kernel⟩

end Registry
end BoundedTuring
