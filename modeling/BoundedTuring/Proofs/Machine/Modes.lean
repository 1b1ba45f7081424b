import BoundedTuring.Proofs.Machine.Registration
/-!
# One machine in both tape modes

The same user symbols make an alphabet with a marker and one without.  They differ in the marker alone, which stands in
front of the blank, so a symbol other than the marker has one index in either (`Alphabet.besideMarker`).  Machines that
the same transitions by name are registered in, none of which names the marker, are twins: what one has defined for a
key the other has for the same key in its own indices, and so it is with what they have in force (`Twins.lookup_eq`).
-/
namespace BoundedTuring
namespace Alphabet

/-- The index of a symbol once there is a marker in front of the blank. -/
def besideMarker (b : Alphabet) (symbol : Nat) : Nat := if symbol < b.blank then symbol else symbol + 1

/-- Alphabets of the same user symbols, the first with a marker. -/
structure Twins (a b : Alphabet) : Prop where
  left_built : a.Built
  right_built : b.Built
  left_mode : a.mode = .leftEnd
  right_mode : b.mode = .twoWay
  input_eq : a.input = b.input
  symbols_eq : ∃ userSymbols, a.symbols.toList = userSymbols ++ [markerName, blankName] ∧
    b.symbols.toList = userSymbols ++ [blankName]

/-! ## Making both -/

theorem checkSymbols_twoWay {symbols : List String}
    (h : checkSymbols TapeMode.leftEnd.specialSymbols [] symbols = .ok ()) :
    checkSymbols TapeMode.twoWay.specialSymbols [] symbols = .ok () :=
  checkSymbols_mono (List.subset_cons_self ..) (List.Subperm.refl _) h

/-- **User symbols that can stand beside a marker make an alphabet without one.** -/
theorem exists_twin {userSymbols : List String} {inputSize : Nat} {a : Alphabet}
    (h : Alphabet.ofList userSymbols inputSize .leftEnd = .ok a) :
    ∃ b, Alphabet.ofList userSymbols inputSize .twoWay = .ok b ∧ a.Twins b := by
  obtain ⟨hsize, hroom, hcheck, input, hinput, ha⟩ := (ofList_ok_iff ..).1 h
  obtain ⟨hsome, hinputCheck, hleading, hsorted⟩ := (ofListAvoiding_ok_iff ..).1 hinput
  have hroom' : userSymbols.length + TapeMode.twoWay.specialSymbols.length ≤ maxTapeAlphabetSize :=
    Nat.le_of_succ_le hroom
  have hb := (ofList_ok_iff userSymbols inputSize .twoWay _).2 ⟨hsize, hroom', checkSymbols_twoWay hcheck, input,
    (ofListAvoiding_ok_iff ..).2 ⟨hsome, checkSymbols_twoWay hinputCheck, hleading, hsorted⟩, rfl⟩
  subst ha
  refine ⟨_, hb, ⟨_, _, _, h⟩, ⟨_, _, _, hb⟩, rfl, rfl, rfl,
    input.symbols.toList ++ sortSymbols (userSymbols.drop inputSize), ?_, ?_⟩
  · simp [TapeMode.specialSymbols]
  · simp [TapeMode.specialSymbols]

/-! ## Their symbols -/

namespace Twins

variable {a b : Alphabet}

theorem size_eq (h : a.Twins b) : a.size = b.size + 1 := by
  obtain ⟨userSymbols, ha, hb⟩ := h.symbols_eq
  rw [size, size, ← Array.length_toList, ha, ← Array.length_toList, hb]
  simp

theorem blank_lt (h : a.Twins b) : b.blank < b.size := h.right_built.blank_lt

theorem blank_eq (h : a.Twins b) : a.blank = b.besideMarker b.blank := by
  have hlt := h.blank_lt
  have hsize := h.size_eq
  unfold besideMarker
  rw [if_neg (Nat.lt_irrefl _)]
  unfold blank at hlt ⊢
  omega

theorem marker_eq (h : a.Twins b) : a.marker? = some b.blank := by
  have hsize := h.size_eq
  refine (marker?_eq_some_iff _).2 ⟨h.left_mode, ?_⟩
  unfold blank
  omega

theorem besideMarker_inj (b : Alphabet) {i j : Nat} (h : b.besideMarker i = b.besideMarker j) : i = j := by
  unfold besideMarker at h
  split at h <;> split at h <;> omega

theorem besideMarker_lt_iff (h : a.Twins b) (symbol : Nat) : b.besideMarker symbol < a.size ↔ symbol < b.size := by
  have hlt := h.blank_lt
  have hsize := h.size_eq
  unfold besideMarker
  split <;> omega

theorem besideMarker_of_lt_inputSize (h : a.Twins b) {symbol : Nat} (hs : symbol < b.inputSize) :
    b.besideMarker symbol = symbol := by
  have hroom := h.right_built.inputSize_add_specials_le
  have hpos := specialSymbols_length_pos b.mode
  refine if_pos ?_
  unfold blank
  omega

/-- **A symbol has its name beside the marker too.** -/
theorem getElem?_besideMarker (h : a.Twins b) {symbol : Nat} (hs : symbol < b.size) :
    a.symbols[b.besideMarker symbol]? = b.symbols[symbol]? := by
  obtain ⟨userSymbols, ha, hb⟩ := h.symbols_eq
  have hblank : b.blank = userSymbols.length := by
    rw [blank, size, ← Array.length_toList, hb]
    simp
  rw [← Array.getElem?_toList, ← Array.getElem?_toList, ha, hb, besideMarker, hblank]
  split
  · rename_i hlt
    rw [List.getElem?_append_left hlt, List.getElem?_append_left hlt]
  · rename_i hge
    have heq : symbol = userSymbols.length := by
      unfold blank at hblank
      omega
    rw [heq, List.getElem?_append_right (Nat.le_succ _), List.getElem?_append_right (Nat.le_refl _)]
    simp

/-- **A name other than the marker's is found in both, or in neither.** -/
theorem indexOf?_eq_some_iff (h : a.Twins b) {name : String} (hname : name ≠ markerName) (index : Nat) :
    a.indexOf? name = some index ↔ ∃ symbol, b.indexOf? name = some symbol ∧ b.besideMarker symbol = index := by
  simp only [h.left_built.indexOf?_eq_some_iff, h.right_built.indexOf?_eq_some_iff]
  constructor
  · intro hget
    have hlt : index < a.size := (Array.getElem?_eq_some_iff.1 hget).1
    have hne : index ≠ b.blank := by
      rintro rfl
      exact hname ((h.left_built.marker?_eq_some_iff_name hget).1 h.marker_eq).2
    have hsize := h.size_eq
    -- what stands behind the marker stands one place further on than without it
    obtain ⟨symbol, rfl⟩ : ∃ symbol, b.besideMarker symbol = index := by
      unfold besideMarker
      by_cases hbefore : index < b.blank
      · exact ⟨index, if_pos hbefore⟩
      · exact ⟨index - 1, by rw [if_neg (by omega)]; omega⟩
    refine ⟨symbol, ?_, rfl⟩
    rwa [← h.getElem?_besideMarker ((h.besideMarker_lt_iff symbol).1 hlt)]
  · rintro ⟨symbol, hget, rfl⟩
    rwa [h.getElem?_besideMarker (Array.getElem?_eq_some_iff.1 hget).1]

end Twins
end Alphabet

/-! ## Keys and transitions -/

def Key.rename (f : Nat → Nat) (key : Key) : Key := ⟨key.state, f key.symbol⟩

def Transition.rename (f : Nat → Nat) (t : Transition) : Transition := ⟨t.next, f t.write, t.direction⟩

namespace Machine

/-- A transition as it is registered by name. -/
structure NamedTransition where
  state : Nat
  read : String
  next : Nat
  write : String
  direction : String
  replace : Bool
  deriving DecidableEq, Repr

def putNamed (m : Machine) (t : NamedTransition) : Result Machine :=
  Prod.snd <$> m.putByName t.state t.read t.next t.write t.direction t.replace

/-- The machine that transitions are registered in one after the other, all of them. -/
def ofNamed (states : Nat) (userSymbols : List String) (inputSize : Nat) (transitions : List NamedTransition)
    (mode : TapeMode) : Result Machine := do
  transitions.foldlM putNamed (← Machine.empty states userSymbols inputSize mode)

/-- Machines with the same states, the same symbols and the same transitions, the first on a tape with a marker. -/
structure Twins (m n : Machine) : Prop where
  alphabet : m.alphabet.Twins n.alphabet
  left : m.Reachable
  right : n.Reachable
  stateCount_eq : m.table.stateCount = n.table.stateCount
  stillAllowed_eq : m.table.stillAllowed = n.table.stillAllowed
  at?_eq : ∀ key : Key, key.symbol < n.alphabet.size → m.table.view.at? (key.rename n.alphabet.besideMarker) =
    (n.table.view.at? key).map (Transition.rename n.alphabet.besideMarker)

theorem Reachable.put {m m' : Machine} (h : m.Reachable) {key : Key} {t : Transition} {replace : Bool}
    (hput : m.put key t replace = .ok m') : m'.Reachable := by
  have hedit := h.edit (.put key t replace)
  rwa [Machine.edit, hput] at hedit

namespace Twins

variable {m n : Machine}

/-- **Twins have the same transition in force for a key.** -/
theorem lookup_eq (h : m.Twins n) {key : Key} (hk : n.table.InRange key) :
    m.table.lookup (key.rename n.alphabet.besideMarker) =
      (n.table.lookup key).rename n.alphabet.besideMarker := by
  have hsymbol : key.symbol < n.alphabet.size := h.right.table.alphabetSize_eq ▸ hk.symbol_lt
  have hk' : m.table.InRange (key.rename n.alphabet.besideMarker) := by
    refine ⟨?_, ?_⟩
    · rw [Table.acceptState, h.stateCount_eq]
      exact hk.state_lt
    · rw [h.left.table.alphabetSize_eq]
      exact (h.alphabet.besideMarker_lt_iff _).2 hsymbol
  rw [h.left.sound.lookup_eq hk', h.right.sound.lookup_eq hk, h.at?_eq key hsymbol]
  cases n.table.view.at? key <;> rfl

theorem rename_besideMarker_inj {b : Alphabet} {k l : Key} :
    k.rename b.besideMarker = l.rename b.besideMarker ↔ k = l := by
  refine ⟨fun heq => ?_, fun heq => heq ▸ rfl⟩
  obtain ⟨hstate, hsymbol⟩ := Key.mk.inj heq
  show (⟨k.state, k.symbol⟩ : Key) = ⟨l.state, l.symbol⟩
  rw [hstate, Alphabet.Twins.besideMarker_inj b hsymbol]

theorem put (h : m.Twins n) {key : Key} {t : Transition} {replace : Bool} (hkey : key.symbol < n.alphabet.size)
    (hwrite : t.write < n.alphabet.size) {m' : Machine}
    (hput : m.put (key.rename n.alphabet.besideMarker) (t.rename n.alphabet.besideMarker) replace = .ok m') :
    ∃ n', n.put key t replace = .ok n' ∧ m'.Twins n' := by
  obtain ⟨u, hu, rfl⟩ := (put_ok_iff_table ..).1 hput
  obtain ⟨hin, hadmits, hfree⟩ := (Table.put_succeeds_iff ..).1 ⟨u, hu⟩
  have hsize := h.right.table.alphabetSize_eq
  have hunmarked : n.table.marker = none :=
    h.right.table.marker_eq.trans (Alphabet.marker?_eq_none_iff.2 h.alphabet.right_mode)
  have hstate := hin.state_lt
  rw [Table.acceptState, h.stateCount_eq] at hstate
  obtain ⟨v, hv⟩ : ∃ v, n.table.put key t replace = .ok v := by
    refine (Table.put_succeeds_iff ..).2 ⟨⟨hstate, hsize ▸ hkey⟩, ⟨?_, hsize ▸ hwrite, ?_, ?_⟩, ?_⟩
    · rw [← h.stateCount_eq]
      exact hadmits.next_lt
    · rw [← h.stillAllowed_eq]
      exact hadmits.still
    · rw [hunmarked]
      exact nofun
    · rwa [h.at?_eq key hkey, Option.map_eq_none_iff] at hfree
  have hbu := Table.sameBounds_put hu
  have hbv := Table.sameBounds_put hv
  have hputRight : n.put key t replace = .ok { n with table := v } := (put_ok_iff_table ..).2 ⟨v, hv, rfl⟩
  refine ⟨_, hputRight, h.alphabet, h.left.put hput, h.right.put hputRight, ?_, ?_, fun k hk => ?_⟩
  · show u.stateCount = v.stateCount
    rw [hbu.stateCount, hbv.stateCount, h.stateCount_eq]
  · show u.stillAllowed = v.stillAllowed
    rw [hbu.stillAllowed, hbv.stillAllowed, h.stillAllowed_eq]
  · show u.view.at? _ = (v.view.at? k).map _
    rw [h.left.sound.view_put hu, h.right.sound.view_put hv]
    simp only [Table.View.insert, rename_besideMarker_inj]
    split
    · rfl
    · exact h.at?_eq k hk

/-- **What can be registered by name in a machine with a marker can be in its twin**, if it does not name the marker,
and they stay twins. -/
theorem putNamed (h : m.Twins n) {t : NamedTransition} (hread : t.read ≠ markerName) (hwrite : t.write ≠ markerName)
    {m' : Machine} (hput : m.putNamed t = .ok m') : ∃ n', n.putNamed t = .ok n' ∧ m'.Twins n' := by
  obtain ⟨⟨key, m''⟩, hnamed, rfl⟩ := (Result.map_ok_iff ..).1 hput
  obtain ⟨i', j', d, hi', hj', hd, -, hput'⟩ := (putByName_ok_iff ..).1 hnamed
  obtain ⟨i, hi, rfl⟩ := (h.alphabet.indexOf?_eq_some_iff hread _).1 hi'
  obtain ⟨j, hj, rfl⟩ := (h.alphabet.indexOf?_eq_some_iff hwrite _).1 hj'
  have hkey : (⟨t.state, i⟩ : Key).symbol < n.alphabet.size :=
    (Array.getElem?_eq_some_iff.1 ((h.alphabet.right_built.indexOf?_eq_some_iff ..).1 hi)).1
  have hwritten : (⟨t.next, j, d⟩ : Transition).write < n.alphabet.size :=
    (Array.getElem?_eq_some_iff.1 ((h.alphabet.right_built.indexOf?_eq_some_iff ..).1 hj)).1
  obtain ⟨n', hn', htwins⟩ := h.put hkey hwritten hput'
  exact ⟨n', (Result.map_ok_iff ..).2 ⟨_, (putByName_ok_iff ..).2 ⟨i, j, d, hi, hj, hd, rfl, hn'⟩, rfl⟩, htwins⟩

theorem foldlM_putNamed : ∀ (transitions : List NamedTransition),
    (∀ t ∈ transitions, t.read ≠ markerName ∧ t.write ≠ markerName) → ∀ {m n : Machine}, m.Twins n → ∀ {m' : Machine},
      transitions.foldlM Machine.putNamed m = .ok m' →
      ∃ n', transitions.foldlM Machine.putNamed n = .ok n' ∧ m'.Twins n'
  | [], _, m, n, h, m', hm' => by
    obtain rfl := (Result.pure_ok_iff ..).1 hm'
    exact ⟨n, rfl, h⟩
  | t :: rest, hnames, m, n, h, m', hm' => by
    obtain ⟨⟨hread, hwrite⟩, hnames⟩ := List.forall_mem_cons.1 hnames
    rw [List.foldlM_cons] at hm'
    obtain ⟨m₁, hm₁, hm'⟩ := (Result.bind_ok_iff ..).1 hm'
    obtain ⟨n₁, hn₁, htwins⟩ := h.putNamed hread hwrite hm₁
    obtain ⟨n', hn', htwins⟩ := foldlM_putNamed rest hnames htwins hm'
    exact ⟨n', by rw [List.foldlM_cons]; exact (Result.bind_ok_iff ..).2 ⟨n₁, hn₁, hn'⟩, htwins⟩

end Twins

/-- **A machine with a marker that no transition names has a twin without one.** -/
theorem exists_twin {states : Nat} {userSymbols : List String} {inputSize : Nat} {transitions : List NamedTransition}
    (hnames : ∀ t ∈ transitions, t.read ≠ markerName ∧ t.write ≠ markerName) {m : Machine}
    (hm : ofNamed states userSymbols inputSize transitions .leftEnd = .ok m) :
    ∃ n, ofNamed states userSymbols inputSize transitions .twoWay = .ok n ∧ m.Twins n := by
  obtain ⟨m₀, hm₀, hm⟩ := (Result.bind_ok_iff ..).1 hm
  obtain ⟨ha, htable⟩ := (empty_ok_iff ..).1 hm₀
  obtain ⟨hstates, htable⟩ := (Table.empty_ok_iff ..).1 htable
  obtain ⟨b, hb, hab⟩ := Alphabet.exists_twin ha
  have hn₀ : Machine.empty states userSymbols inputSize .twoWay =
      .ok ⟨b, Table.blankSlate states b.size b.marker? true⟩ :=
    (empty_ok_iff ..).2 ⟨hb, (Table.empty_ok_iff ..).2 ⟨hstates, rfl⟩⟩
  have htwins : m₀.Twins ⟨b, Table.blankSlate states b.size b.marker? true⟩ := by
    refine ⟨hab, .empty hm₀, .empty hn₀, ?_, ?_, fun key _ => ?_⟩
    · rw [← htable]
      rfl
    · rw [← htable]
      rfl
    · rw [← htable, Table.at?_blankSlate, Table.at?_blankSlate]
      rfl
  obtain ⟨n, hn, htwins⟩ := Twins.foldlM_putNamed transitions hnames htwins hm
  exact ⟨n, (Result.bind_ok_iff ..).2 ⟨_, hn₀, hn⟩, htwins⟩

end Machine
end BoundedTuring
