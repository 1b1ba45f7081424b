import BoundedTuring.Proofs.Alphabet.Layout
import BoundedTuring.Proofs.Text.Fields
import Mathlib.Data.List.Perm.Subperm
/-!
# The symbols of an alphabet

User symbols are clean: not empty, without white space and without a reserved name in their lower case.  So they, and
the special symbols too, can stand as fields on a line, no two symbols of a tape alphabet are the same, and a symbol
and its index tell each other (`Built.indexOf?_eq_some_iff`).  An alphabet is sorted, and made anew from its own user
symbols it is the same alphabet (`Built.ofList_userSymbols`).
-/
namespace BoundedTuring

/-! ## Clean symbols -/

structure Clean (reserved : List String) (symbol : String) : Prop where
  nonempty : symbol ≠ ""
  no_blank : ∀ c ∈ symbol.toList, Text.isBlank c = false
  no_reserved : ∀ name ∈ reserved, Text.occursIn name.toList (Text.lowercase symbol) = false

theorem flaw?_eq_none_iff (reserved seen : List String) (symbol : String) :
    flaw? reserved seen symbol = none ↔ Clean reserved symbol ∧ symbol ∉ seen := by
  unfold flaw?
  constructor
  · intro h
    split at h
    · cases h
    rename_i hempty
    split at h
    · cases h
    rename_i hblank
    split at h
    · cases h
    rename_i hreserved
    split at h
    · cases h
    rename_i hseen
    exact ⟨⟨by simpa using hempty, by simpa using hblank, by simpa using hreserved⟩, by simpa using hseen⟩
  · rintro ⟨⟨hempty, hblank, hreserved⟩, hseen⟩
    have hblank' : symbol.toList.any Text.isBlank = false := by simpa using hblank
    have hreserved' : reserved.any (fun name => Text.occursIn name.toList (Text.lowercase symbol)) = false := by
      simpa using hreserved
    simp [hempty, hblank', hreserved', hseen]

/-- **A list of symbols passes exactly if each is clean and none comes twice.** -/
theorem checkSymbols_ok_iff (reserved : List String) : ∀ (seen symbols : List String),
    checkSymbols reserved seen symbols = .ok () ↔
      (∀ symbol ∈ symbols, Clean reserved symbol) ∧ symbols.Nodup ∧ ∀ symbol ∈ symbols, symbol ∉ seen
  | seen, [] => by simp [checkSymbols]
  | seen, symbol :: rest => by
    have hflaw := flaw?_eq_none_iff reserved seen symbol
    unfold checkSymbols
    cases h : flaw? reserved seen symbol with
    | some flaw =>
      refine iff_of_false nofun fun ⟨hclean, _, hseen⟩ => ?_
      rw [hflaw.2 ⟨hclean symbol List.mem_cons_self, hseen symbol List.mem_cons_self⟩] at h
      cases h
    | none =>
      obtain ⟨hclean, hseen⟩ := hflaw.1 h
      dsimp only
      rw [checkSymbols_ok_iff reserved (symbol :: seen) rest, List.forall_mem_cons, List.forall_mem_cons,
        List.nodup_cons]
      constructor
      · rintro ⟨hcleans, hnodup, hnew⟩
        have hnot : symbol ∉ rest := fun hmem => hnew symbol hmem List.mem_cons_self
        exact ⟨⟨hclean, hcleans⟩, ⟨hnot, hnodup⟩, hseen, fun s hs hmem => hnew s hs (List.mem_cons_of_mem _ hmem)⟩
      · rintro ⟨⟨-, hcleans⟩, ⟨hnot, hnodup⟩, -, hnew⟩
        refine ⟨hcleans, hnodup, fun s hs hmem => ?_⟩
        rcases List.mem_cons.1 hmem with rfl | hmem
        · exact hnot hs
        · exact hnew s hs hmem

theorem checkSymbols_nil_ok_iff (reserved symbols : List String) :
    checkSymbols reserved [] symbols = .ok () ↔ (∀ symbol ∈ symbols, Clean reserved symbol) ∧ symbols.Nodup := by
  simp [checkSymbols_ok_iff]

/-- **Fewer symbols pass against fewer reserved names**, in any order. -/
theorem checkSymbols_mono {reserved reserved' symbols symbols' : List String} (hreserved : reserved ⊆ reserved')
    (hsymbols : symbols.Subperm symbols') (h : checkSymbols reserved' [] symbols' = .ok ()) :
    checkSymbols reserved [] symbols = .ok () := by
  obtain ⟨hclean, hnodup⟩ := (checkSymbols_nil_ok_iff ..).1 h
  refine (checkSymbols_nil_ok_iff ..).2 ⟨fun symbol hsymbol => ?_, ?_⟩
  · obtain ⟨hne, hblank, hnames⟩ := hclean symbol (hsymbols.subset hsymbol)
    exact ⟨hne, hblank, fun name hname => hnames name (hreserved hname)⟩
  · obtain ⟨picked, hperm, hsub⟩ := hsymbols
    exact hperm.nodup_iff.1 (hnodup.sublist hsub)

/-- **A clean symbol can stand as a field, on one line.** -/
theorem Clean.isField {reserved : List String} {symbol : String} (h : Clean reserved symbol) :
    Text.IsField symbol ∧ Text.WithinLine symbol.toList :=
  Text.isField_of_forall (fun c => !Text.isBlank c) h.nonempty (fun c hc => by simp [h.no_blank c hc])
    ⟨rfl, rfl, rfl, rfl⟩

/-! ## Sorting -/

theorem sortSymbols_perm (symbols : List String) : (sortSymbols symbols).Perm symbols := List.mergeSort_perm _ _

theorem pairwise_sortSymbols (symbols : List String) : (sortSymbols symbols).Pairwise (· ≤ ·) := by
  have hsorted : (sortSymbols symbols).Pairwise (fun a b => (!decide (b < a)) = true) := by
    refine List.pairwise_mergeSort ?_ ?_ symbols
    · intro a b c hab hbc
      simp only [Bool.not_eq_true', decide_eq_false_iff_not] at hab hbc ⊢
      exact String.le_trans (a := a) (b := b) (c := c) hab hbc
    · intro a b
      simp only [Bool.or_eq_true, Bool.not_eq_true', decide_eq_false_iff_not]
      exact String.le_total a b
  refine hsorted.imp (fun h => ?_)
  rw [Bool.not_eq_true', decide_eq_false_iff_not] at h
  exact String.not_lt.1 h

/-- **Sorting again changes nothing.** -/
theorem sortSymbols_sortSymbols (symbols : List String) : sortSymbols (sortSymbols symbols) = sortSymbols symbols := by
  refine List.mergeSort_of_pairwise ((pairwise_sortSymbols symbols).imp (fun h => ?_))
  rw [Bool.not_eq_true', decide_eq_false_iff_not]
  exact String.not_lt.2 h

/-! ## Finding a symbol -/

/-- **Where no symbol comes twice, one has at most one index, and it is found.** -/
theorem idxOf?_eq_some_iff_of_nodup {symbols : Array String} (h : symbols.toList.Nodup) (name : String) (index : Nat) :
    symbols.idxOf? name = some index ↔ symbols[index]? = some name := by
  have hlist : symbols.idxOf? name = symbols.toList.idxOf? name := by
    rw [← List.idxOf?_toArray, Array.toArray_toList]
  rw [hlist, List.idxOf?_eq_some_iff, ← Array.getElem?_toList, List.getElem?_eq_some_iff]
  constructor
  · rintro ⟨hlt, hget, -⟩
    exact ⟨hlt, hget⟩
  · rintro ⟨hlt, hget⟩
    refine ⟨hlt, hget, fun j hj hget' => ?_⟩
    have heq := (List.getElem_inj h).1 (hget'.trans hget.symm)
    omega

/-- **With every key there once, looking a key up is asking for its pair.** -/
theorem lookup_eq_some_iff_mem {α β : Type} [BEq α] [LawfulBEq α] {pairs : List (α × β)}
    (hkeys : (pairs.map Prod.fst).Nodup) (key : α) (value : β) :
    pairs.lookup key = some value ↔ (key, value) ∈ pairs := by
  rw [List.lookup_eq_some_iff]
  constructor
  · rintro ⟨before, behind, rfl, -⟩
    exact List.mem_append_right _ List.mem_cons_self
  · intro hmem
    obtain ⟨before, behind, rfl⟩ := List.append_of_mem hmem
    refine ⟨before, behind, rfl, fun pair hpair => ?_⟩
    rw [List.map_append, List.map_cons] at hkeys
    -- a pair in front with the same key would be the same key twice
    have hapart := (List.nodup_append.1 hkeys).2.2 pair.1 (List.mem_map_of_mem hpair) key List.mem_cons_self
    exact bne_iff_ne.2 (Ne.symm hapart)

/-- **A map of the symbols to their indices finds what a search of the symbols finds**, in whichever order it holds
them. -/
theorem lookup_eq_idxOf? {symbols : Array String} (h : symbols.toList.Nodup) {entries : List (String × Nat)}
    (hentries : entries.Perm symbols.toList.zipIdx) (name : String) : entries.lookup name = symbols.idxOf? name := by
  have hkeys : (entries.map Prod.fst).Nodup := by
    rwa [(hentries.map Prod.fst).nodup_iff, List.zipIdx_map_fst]
  ext index
  rw [lookup_eq_some_iff_mem hkeys, hentries.mem_iff, List.mem_zipIdx_iff_getElem?, idxOf?_eq_some_iff_of_nodup h,
    Array.getElem?_toList]

namespace Alphabet

section

variable {a : Alphabet}

/-! ## The parts of a built alphabet -/

/-- What is known of the user symbols, input symbols and others. -/
structure Parts (a : Alphabet) (work : List String) : Prop where
  symbols_eq : a.symbols.toList = a.input.symbols.toList ++ work ++ a.mode.specialSymbols
  inputSize_pos : 1 ≤ a.inputSize
  size_le : a.size ≤ maxTapeAlphabetSize
  sorted_input : sortSymbols a.input.symbols.toList = a.input.symbols.toList
  sorted_work : sortSymbols work = work
  unambiguous : leadingPair? a.input.symbols.toList = none
  clean : ∀ symbol ∈ a.input.symbols.toList ++ work, Clean a.mode.specialSymbols symbol
  nodup : (a.input.symbols.toList ++ work).Nodup

theorem Built.parts (h : a.Built) : ∃ work, a.Parts work := by
  obtain ⟨userSymbols, inputSize, mode, h⟩ := h
  obtain ⟨hsize, hroom, hcheck, input, hinput, rfl⟩ := (ofList_ok_iff ..).1 h
  obtain ⟨-, -, hleading, rfl⟩ := (ofListAvoiding_ok_iff ..).1 hinput
  obtain ⟨hclean, hnodup⟩ := (checkSymbols_nil_ok_iff ..).1 hcheck
  have hperm : (sortSymbols (userSymbols.take inputSize) ++ sortSymbols (userSymbols.drop inputSize)).Perm
      userSymbols := by
    have happend := (sortSymbols_perm (userSymbols.take inputSize)).append
      (sortSymbols_perm (userSymbols.drop inputSize))
    rwa [List.take_append_drop] at happend
  have hlength : (sortSymbols (userSymbols.take inputSize)).length = inputSize := by
    rw [(sortSymbols_perm _).length_eq, List.length_take]
    omega
  refine ⟨sortSymbols (userSymbols.drop inputSize), ?_, ?_, ?_, ?_, ?_, ?_, ?_, ?_⟩
  · simp
  · simp [Alphabet.inputSize, InputAlphabet.size, hlength]
    omega
  · have hall := hperm.length_eq
    rw [List.length_append] at hall
    simp [Alphabet.size]
    omega
  · exact sortSymbols_sortSymbols _
  · exact sortSymbols_sortSymbols _
  · exact hleading
  · exact fun symbol hsymbol => hclean symbol (hperm.mem_iff.1 hsymbol)
  · exact hperm.nodup_iff.2 hnodup

theorem Parts.length_eq {work : List String} (h : a.Parts work) :
    (a.input.symbols.toList ++ work).length = a.size - a.mode.specialSymbols.length := by
  have hlength := congrArg List.length h.symbols_eq
  rw [List.length_append] at hlength
  rw [Alphabet.size, ← Array.length_toList, hlength]
  omega

theorem Parts.userSymbols_eq {work : List String} (h : a.Parts work) :
    a.userSymbols = a.input.symbols.toList ++ work := by
  rw [userSymbols, ← h.length_eq, h.symbols_eq, List.take_left']
  rfl

theorem length_userSymbols (a : Alphabet) : a.userSymbols.length = a.size - a.mode.specialSymbols.length := by
  simp [userSymbols, size]

theorem Built.userSymbols_ne_nil (h : a.Built) : a.userSymbols ≠ [] := by
  obtain ⟨work, hp⟩ := h.parts
  have hpos := hp.inputSize_pos
  have hroom := h.inputSize_add_specials_le
  refine List.ne_nil_of_length_pos ?_
  rw [length_userSymbols]
  omega

/-- **An alphabet made from its own user symbols is the same.** -/
theorem Built.ofList_userSymbols (h : a.Built) : Alphabet.ofList a.userSymbols a.inputSize a.mode = .ok a := by
  obtain ⟨work, hp⟩ := h.parts
  have hlength : a.input.symbols.toList.length = a.inputSize := Array.length_toList
  have htake : a.userSymbols.take a.inputSize = a.input.symbols.toList := by
    rw [hp.userSymbols_eq, List.take_left' hlength]
  have hdrop : a.userSymbols.drop a.inputSize = work := by
    rw [hp.userSymbols_eq, List.drop_left' hlength]
  have hpos := hp.inputSize_pos
  have hcheck := (checkSymbols_nil_ok_iff ..).2 ⟨hp.clean, hp.nodup⟩
  refine (ofList_ok_iff ..).2 ⟨?_, ?_, ?_, a.input, ?_, ?_⟩
  · rw [hp.userSymbols_eq, List.length_append]
    omega
  · have hsize := hp.size_le
    rw [Alphabet.size, ← Array.length_toList, hp.symbols_eq, List.length_append] at hsize
    rwa [hp.userSymbols_eq]
  · rwa [hp.userSymbols_eq]
  · rw [htake]
    refine (ofListAvoiding_ok_iff ..).2 ⟨?_, ?_, ?_, ?_⟩
    · rw [List.isEmpty_eq_false_iff_exists_mem]
      exact List.exists_mem_of_length_pos (by omega)
    · exact checkSymbols_mono (List.Subset.refl _) (List.sublist_append_left ..).subperm hcheck
    · rw [hp.sorted_input]
      exact hp.unambiguous
    · rw [hp.sorted_input]
  · have hsymbols : a.input.symbols ++ (sortSymbols work).toArray ++ a.mode.specialSymbols.toArray = a.symbols := by
      apply Array.toList_inj.1
      rw [hp.symbols_eq, hp.sorted_work]
      simp
    rw [hdrop, hsymbols]

/-! ## Names and indices -/

theorem symbol_ok_iff (a : Alphabet) (index : Nat) (name : String) :
    a.symbol index = .ok name ↔ a.symbols[index]? = some name := by
  unfold symbol
  cases a.symbols[index]? <;> simp [Result.fail]

theorem special_cases {mode : TapeMode} {name : String} (hname : name ∈ mode.specialSymbols) :
    name = markerName ∨ name = blankName := by
  cases mode <;> simp [TapeMode.specialSymbols] at hname <;> simp [hname]

theorem not_clean_of_special {mode : TapeMode} {name : String} (hname : name ∈ mode.specialSymbols) :
    ¬ Clean mode.specialSymbols name := by
  intro h
  have hreserved := h.no_reserved name hname
  rcases special_cases hname with rfl | rfl
  · exact absurd hreserved (by decide)
  · exact absurd hreserved (by decide)

/-- **No two symbols are the same.** -/
theorem Built.nodup_symbols (h : a.Built) : a.symbols.toList.Nodup := by
  obtain ⟨work, hp⟩ := h.parts
  have hspecials : a.mode.specialSymbols.Nodup := by cases a.mode <;> decide
  rw [hp.symbols_eq, List.nodup_append]
  refine ⟨hp.nodup, hspecials, ?_⟩
  rintro symbol hsymbol name hname rfl
  exact not_clean_of_special hname (hp.clean symbol hsymbol)

/-- **A name has at most one index, and it is found.** -/
theorem Built.indexOf?_eq_some_iff (h : a.Built) (name : String) (index : Nat) :
    a.indexOf? name = some index ↔ a.symbols[index]? = some name :=
  idxOf?_eq_some_iff_of_nodup h.nodup_symbols name index

theorem Built.isField (h : a.Built) {name : String} (hname : name ∈ a.symbols.toList) :
    Text.IsField name ∧ Text.WithinLine name.toList := by
  obtain ⟨work, hp⟩ := h.parts
  rw [hp.symbols_eq, List.mem_append] at hname
  rcases hname with hname | hname
  · exact (hp.clean name hname).isField
  · have hspecial : ∀ name : String, name = markerName ∨ name = blankName →
        Text.IsField name ∧ Text.WithinLine name.toList := by
      rintro name (rfl | rfl)
      · exact ⟨by decide, by decide⟩
      · exact ⟨by decide, by decide⟩
    exact hspecial name (special_cases hname)

theorem Parts.getElem?_special {work : List String} (h : a.Parts work) (k : Nat) :
    a.symbols[a.size - a.mode.specialSymbols.length + k]? = a.mode.specialSymbols[k]? := by
  rw [← h.length_eq, ← Array.getElem?_toList, h.symbols_eq, List.getElem?_append_right (Nat.le_add_right _ _),
    Nat.add_sub_cancel_left]

theorem Built.getElem?_marker (h : a.Built) (hmode : a.mode = .leftEnd) : a.symbols[a.size - 2]? = some markerName := by
  obtain ⟨work, hp⟩ := h.parts
  have hspecial := hp.getElem?_special 0
  rw [hmode] at hspecial
  exact hspecial

theorem Built.getElem?_blank (h : a.Built) : a.symbols[a.blank]? = some blankName := by
  obtain ⟨work, hp⟩ := h.parts
  have hroom := h.inputSize_add_specials_le
  unfold blank
  cases hmode : a.mode with
  | leftEnd =>
    have hspecial := hp.getElem?_special 1
    rw [hmode] at hspecial hroom
    change a.inputSize + 2 ≤ a.size at hroom
    have hplace : a.size - 1 = a.size - 2 + 1 := by omega
    rw [hplace]
    exact hspecial
  | twoWay =>
    have hspecial := hp.getElem?_special 0
    rw [hmode] at hspecial
    exact hspecial

/-- **The marker is the symbol of its name**, on a tape that has one. -/
theorem Built.marker?_eq_some_iff_name (h : a.Built) {index : Nat} {name : String}
    (hname : a.symbols[index]? = some name) :
    a.marker? = some index ↔ a.mode = .leftEnd ∧ name = markerName := by
  rw [marker?_eq_some_iff]
  refine and_congr_right fun hmode => ?_
  have hmarker := h.getElem?_marker hmode
  constructor
  · rintro rfl
    exact Option.some.inj (hname.symm.trans hmarker)
  · rintro rfl
    have hindex := (h.indexOf?_eq_some_iff markerName index).2 hname
    rw [(h.indexOf?_eq_some_iff markerName (a.size - 2)).2 hmarker] at hindex
    exact Option.some.inj hindex

end

end Alphabet
end BoundedTuring
