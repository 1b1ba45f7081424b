import BoundedTuring.Proofs.Alphabet.Reordered
import BoundedTuring.Proofs.Alphabet.Tokens
import BoundedTuring.Proofs.Tape.Over
/-!
# The numbering of symbols

The symbols for input are sorted apart from the others and stand in front of them, the special symbols stand behind.  So
the two alphabets number the symbols for input alike, and a name has one index in each (`numbering_consistent`).  Only a
user symbol with the name of a special one could disturb this, and those of its mode are refused.
-/
namespace BoundedTuring

theorem InputAlphabet.Names.isOver {a : InputAlphabet} {w : Word} {names : List String} (h : a.Names w names) :
    ∀ index ∈ w, index < a.size := by
  induction h with
  | nil => nofun
  | cons hname _ ih => exact List.forall_mem_cons.2 ⟨(Array.getElem?_eq_some_iff.1 hname).1, ih⟩

namespace Alphabet

section

variable {a : Alphabet}

/-! ## Input symbols among the tape symbols -/

theorem Built.getElem?_of_lt_inputSize (h : a.Built) {index : Nat} (hindex : index < a.inputSize) :
    a.symbols[index]? = a.input.symbols[index]? := by
  obtain ⟨work, hsymbols⟩ := h.layout
  rw [hsymbols, Array.append_assoc, Array.getElem?_append_left hindex]

/-- **The input alphabet is the beginning of the tape alphabet.** -/
theorem Built.input_indexOf?_eq_some_iff (h : a.Built) (name : String) (index : Nat) :
    a.input.indexOf? name = some index ↔ a.indexOf? name = some index ∧ index < a.inputSize := by
  have hinput := InputAlphabet.built_input h
  rw [hinput.unambiguous.indexOf?_eq_some_iff, h.indexOf?_eq_some_iff]
  constructor
  · intro hname
    have hindex : index < a.inputSize := (Array.getElem?_eq_some_iff.1 hname).1
    exact ⟨(h.getElem?_of_lt_inputSize hindex).trans hname, hindex⟩
  · rintro ⟨hname, hindex⟩
    exact (h.getElem?_of_lt_inputSize hindex).symm.trans hname

/-! ## What is shown of a tape -/

/-- The names of tape symbols. -/
def Names (a : Alphabet) (cells : List Nat) (names : List String) : Prop :=
  List.Forall₂ (fun cell name => a.symbols[cell]? = some name) cells names

theorem renderTape_of_names {cells : List Nat} {names : List String} (h : a.Names cells names) :
    a.renderTape cells = .ok (" ".intercalate names) := by
  unfold renderTape
  rw [Result.bind_ok_iff]
  refine ⟨names, (Result.mapM_ok_iff ..).2 (h.imp fun cell name => ?_), rfl⟩
  exact (symbol_ok_iff a cell name).2

theorem Built.names_of_input (h : a.Built) {w : Word} {names : List String} (hnames : a.input.Names w names) :
    a.Names w names := by
  refine hnames.imp fun index name hname => ?_
  have hindex : index < a.inputSize := (Array.getElem?_eq_some_iff.1 hname).1
  exact (h.getElem?_of_lt_inputSize hindex).trans hname

/-- **A loaded tape shows the names of its word**, behind the name of the marker if there is one. -/
theorem Built.names_of_loaded (h : a.Built) {w : Word} {names : List String} (hnames : a.Names w names) :
    a.Names (a.marker?.toList ++ w) (if a.mode = .leftEnd then markerName :: names else names) := by
  cases hmode : a.mode with
  | leftEnd =>
    have hmarker := marker?_of_leftEnd hmode
    rw [hmarker, if_pos rfl]
    exact .cons (h.getElem?_marker hmode) hnames
  | twoWay =>
    rw [marker?_eq_none_iff.2 hmode, if_neg nofun]
    exact hnames

end

/-! ## The whole numbering -/

/-- A word that spells a text, by the names of its symbols, and a tape it is loaded on.  The tape holds tape symbols
only and shows the same names. -/
structure Loaded (a : Alphabet) (text : String) (w : Word) (names : List String) (tape : Tape) : Prop where
  isOver : ∀ index ∈ w, index < a.size
  names_input : a.input.Names w names
  spells : String.join names = text
  shown : a.renderTape w = .ok (" ".intercalate names)
  loaded : Tape.ofInput w a = .ok tape
  cells_lt : ∀ cell ∈ tape.cells, cell < a.size
  tape_shown :
    a.renderTape tape.cells.toList = .ok (" ".intercalate (if a.mode = .leftEnd then markerName :: names else names))

/-- How the alphabet made of some user symbols numbers its symbols. -/
structure Numbers (a : Alphabet) (userSymbols : List String) (inputSize : Nat) (mode : TapeMode) : Prop where
  mode_eq : a.mode = mode
  inputSize_eq : a.inputSize = inputSize
  symbols_eq : ∃ users : List String, users.Perm userSymbols ∧ a.symbols.toList = users ++ mode.specialSymbols
  nodup : a.symbols.toList.Nodup
  indexOf?_symbol : ∀ index < a.size, ∃ name, a.symbol index = .ok name ∧ a.indexOf? name = some index
  symbol_indexOf? : ∀ name index, a.indexOf? name = some index → a.symbol index = .ok name
  input_indexOf?_iff : ∀ name index,
    a.input.indexOf? name = some index ↔ a.indexOf? name = some index ∧ index < a.inputSize
  /-- a map finds the same index, whatever the order it holds the symbols in -/
  lookup_eq : ∀ entries : List (String × Nat), entries.Perm a.symbols.toList.zipIdx →
    ∀ name, entries.lookup name = a.indexOf? name
  input_lookup_eq : ∀ entries : List (String × Nat), entries.Perm a.input.symbols.toList.zipIdx →
    ∀ name, entries.lookup name = a.input.indexOf? name
  blank : a.symbol a.blank = .ok blankName ∧ a.indexOf? blankName = some a.blank ∧ inputSize ≤ a.blank
  marker : mode = .leftEnd → ∃ marker, a.marker? = some marker ∧ a.symbol marker = .ok markerName ∧
    a.indexOf? markerName = some marker ∧ inputSize ≤ marker
  no_marker : mode = .twoWay → a.marker? = none
  loaded : ∀ text w, a.tokenize text = .ok w → ∃ names tape, a.Loaded text w names tape
  reordered : ∀ userSymbols', Reordered inputSize userSymbols userSymbols' →
    Alphabet.ofList userSymbols' inputSize mode = .ok a

variable {userSymbols : List String} {inputSize : Nat} {mode : TapeMode} {a : Alphabet}

/-- **What is read can be loaded.** -/
theorem Built.exists_loaded (h : a.Built) {text : String} {w : Word} (hread : a.tokenize text = .ok w) :
    ∃ names tape, a.Loaded text w names tape := by
  have hinput := InputAlphabet.built_input h
  obtain ⟨names, hnames, hjoin⟩ := (hinput.unambiguous.tokenize_ok_iff text w).1 hread
  have hover : ∀ index ∈ w, index < a.inputSize := hnames.isOver
  have hload := (Tape.ofInput_ok_iff w a _).2 ⟨hover, rfl⟩
  have htape := h.names_of_input hnames
  refine ⟨names, _, fun index hindex => h.lt_size_of_lt_inputSize (hover index hindex), hnames, hjoin,
    renderTape_of_names htape, hload, (Tape.over_ofInput h hload).cells_lt, ?_⟩
  exact renderTape_of_names (h.names_of_loaded htape)

theorem symbols_perm_of_ofList (h : ofList userSymbols inputSize mode = .ok a) :
    ∃ users : List String, users.Perm userSymbols ∧ a.symbols.toList = users ++ mode.specialSymbols := by
  obtain ⟨-, -, -, input, hinput, rfl⟩ := (ofList_ok_iff ..).1 h
  obtain ⟨-, -, -, rfl⟩ := (ofListAvoiding_ok_iff ..).1 hinput
  refine ⟨sortSymbols (userSymbols.take inputSize) ++ sortSymbols (userSymbols.drop inputSize), ?_, by simp⟩
  have happend := (sortSymbols_perm (userSymbols.take inputSize)).append
    (sortSymbols_perm (userSymbols.drop inputSize))
  rwa [List.take_append_drop] at happend

/-- **The symbols of a tape alphabet have one numbering**, of which that of its input alphabet is the beginning. -/
theorem numbering_consistent (h : ofList userSymbols inputSize mode = .ok a) :
    a.Numbers userSymbols inputSize mode := by
  have hbuilt : a.Built := ⟨userSymbols, inputSize, mode, h⟩
  have hinput := InputAlphabet.built_input hbuilt
  have hmode : a.mode = mode := by
    obtain ⟨-, -, -, input, -, rfl⟩ := (ofList_ok_iff ..).1 h
    rfl
  have hsize := inputSize_of_ofList h
  have hroom := hbuilt.inputSize_add_specials_le
  constructor
  case mode_eq => exact hmode
  case inputSize_eq => exact hsize
  case symbols_eq => exact symbols_perm_of_ofList h
  case nodup => exact hbuilt.nodup_symbols
  case indexOf?_symbol =>
    intro index hindex
    have hname := Array.getElem?_eq_getElem hindex
    exact ⟨_, (symbol_ok_iff ..).2 hname, (hbuilt.indexOf?_eq_some_iff ..).2 hname⟩
  case symbol_indexOf? =>
    intro name index hindex
    exact (symbol_ok_iff ..).2 ((hbuilt.indexOf?_eq_some_iff ..).1 hindex)
  case input_indexOf?_iff => exact hbuilt.input_indexOf?_eq_some_iff
  case lookup_eq =>
    intro entries hentries name
    exact lookup_eq_idxOf? hbuilt.nodup_symbols hentries name
  case input_lookup_eq =>
    intro entries hentries name
    exact lookup_eq_idxOf? hinput.unambiguous.nodup hentries name
  case blank =>
    have hname := hbuilt.getElem?_blank
    have hpos := specialSymbols_length_pos a.mode
    refine ⟨(symbol_ok_iff ..).2 hname, (hbuilt.indexOf?_eq_some_iff ..).2 hname, ?_⟩
    unfold Alphabet.blank
    omega
  case marker =>
    rintro rfl
    have hmarker := marker?_of_leftEnd hmode
    have hname := hbuilt.getElem?_marker hmode
    refine ⟨a.size - 2, hmarker, (symbol_ok_iff ..).2 hname, (hbuilt.indexOf?_eq_some_iff ..).2 hname, ?_⟩
    exact hsize ▸ (hbuilt.marker_bounds hmarker).1
  case no_marker =>
    rintro rfl
    exact marker?_eq_none_iff.2 hmode
  case loaded => exact fun _ _ => hbuilt.exists_loaded
  case reordered => exact fun _ hreordered => ofList_of_reordered hreordered h

/-- Without a marker its name is left to the user.  The symbols are given in another order than they stand in. -/
theorem two_way_leftend_numbered :
    let a : Alphabet := ⟨.twoWay, ⟨#["Y", "b"]⟩, #["Y", "b", "X", "leftend", "blank"]⟩
    Alphabet.ofList ["b", "Y", "leftend", "X"] 2 .twoWay = .ok a ∧ a.Numbers ["b", "Y", "leftend", "X"] 2 .twoWay ∧
      a.symbol 3 = .ok "leftend" ∧ a.input.indexOf? "leftend" = none ∧ a.marker? = none ∧
      (∃ names tape, a.Loaded "bY" [1, 0] names tape) ∧
      Alphabet.ofList ["Y", "b", "X", "leftend"] 2 .twoWay = .ok a := by
  intro a
  have hordered : Alphabet.ofList ["Y", "b", "X", "leftend"] 2 .twoWay = .ok a :=
    ofList_of_ordered (by decide) (by decide) (by decide +kernel)
      (ofListAvoiding_of_ordered _ rfl (by decide) (by decide +kernel) (by decide)) (by decide)
  have hmade : Alphabet.ofList ["b", "Y", "leftend", "X"] 2 .twoWay = .ok a :=
    ofList_of_reordered ⟨by decide, by decide⟩ hordered
  have hnumbers := numbering_consistent hmade
  exact ⟨hmade, hnumbers, hnumbers.symbol_indexOf? "leftend" 3 (by decide +kernel), by decide +kernel,
    hnumbers.no_marker rfl,
    hnumbers.loaded "bY" [1, 0] (by decide +kernel), hnumbers.reordered _ ⟨by decide, by decide⟩⟩

end Alphabet
end BoundedTuring
