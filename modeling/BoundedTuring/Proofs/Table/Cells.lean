import BoundedTuring.Proofs.Cells
import BoundedTuring.Proofs.Result
import BoundedTuring.Table
/-!
# The cells of a table

Where the cell of a key stands, what the checks of a key and a transition admit, which cells `entries` lists, and
what `put` and the operations that undefine do, in terms of `define`, `overwrite` and `undefine`.

Places and keys are two names of a cell: a key in range is the key of its place (`keyAt_slot`), and every place below
the last cell is the place of a key in range (`inRange_keyAt`).
-/
namespace BoundedTuring
namespace Table

/-- A key of an ordinary state and a symbol of the alphabet. -/
structure InRange (t : Table) (key : Key) : Prop where
  state_lt : key.state < t.acceptState
  symbol_lt : key.symbol < t.alphabetSize

/-- What a table asks of the transition it keeps for a key. -/
structure Admits (t : Table) (key : Key) (transition : Transition) : Prop where
  next_lt : transition.next < t.stateCount
  write_lt : transition.write < t.alphabetSize
  still : transition.direction = .still → t.stillAllowed = true
  marker : t.marker = some key.symbol → transition.write = key.symbol ∧ transition.direction = .right

/-- Two tables that check keys and transitions alike. -/
structure SameBounds (t u : Table) : Prop where
  stateCount : u.stateCount = t.stateCount
  alphabetSize : u.alphabetSize = t.alphabetSize
  marker : u.marker = t.marker
  stillAllowed : u.stillAllowed = t.stillAllowed

theorem SameBounds.refl (t : Table) : SameBounds t t := ⟨rfl, rfl, rfl, rfl⟩

theorem SameBounds.symm {t u : Table} (h : SameBounds t u) : SameBounds u t :=
  ⟨h.stateCount.symm, h.alphabetSize.symm, h.marker.symm, h.stillAllowed.symm⟩

theorem SameBounds.trans {t u v : Table} (h : SameBounds t u) (h' : SameBounds u v) : SameBounds t v :=
  ⟨h'.stateCount.trans h.stateCount, h'.alphabetSize.trans h.alphabetSize, h'.marker.trans h.marker,
    h'.stillAllowed.trans h.stillAllowed⟩

theorem InRange.congr {t u : Table} {key : Key} (h : t.InRange key) (hb : SameBounds t u) : u.InRange key := by
  refine ⟨?_, ?_⟩
  · unfold acceptState
    rw [hb.stateCount]
    exact h.state_lt
  · rw [hb.alphabetSize]
    exact h.symbol_lt

theorem Admits.congr {t u : Table} {key : Key} {transition : Transition} (h : t.Admits key transition)
    (hb : SameBounds t u) : u.Admits key transition := by
  refine ⟨?_, ?_, ?_, ?_⟩
  · rw [hb.stateCount]
    exact h.next_lt
  · rw [hb.alphabetSize]
    exact h.write_lt
  · rw [hb.stillAllowed]
    exact h.still
  · rw [hb.marker]
    exact h.marker

/-! ## Places -/

theorem keyAt_slot (t : Table) (key : Key) (h : key.symbol < t.alphabetSize) : t.keyAt (t.slot key) = key := by
  unfold keyAt keyOf slot
  rw [Cells.place_div h, Cells.place_mod h]

theorem slot_keyAt (t : Table) (slot : Nat) : t.slot (t.keyAt slot) = slot := by
  unfold keyAt keyOf Table.slot
  rw [Nat.mul_comm]
  exact Nat.div_add_mod slot t.alphabetSize

theorem slot_lt (t : Table) (key : Key) (h : t.InRange key) : t.slot key < t.acceptState * t.alphabetSize :=
  Cells.place_lt h.state_lt h.symbol_lt

theorem inRange_keyAt (t : Table) (slot : Nat) (h : slot < t.acceptState * t.alphabetSize) :
    t.InRange (t.keyAt slot) := by
  have hpos : 0 < t.alphabetSize := by
    rcases Nat.eq_zero_or_pos t.alphabetSize with h0 | h0
    · rw [h0] at h
      exact absurd h (Nat.not_lt_zero _)
    · exact h0
  exact ⟨(Nat.div_lt_iff_lt_mul hpos).2 h, Nat.mod_lt _ hpos⟩

/-! ## Checks -/

theorem checkStateCount_ok_iff (states : Nat) :
    checkStateCount states = .ok () ↔ minStateCount ≤ states ∧ states ≤ maxStateCount := by
  unfold checkStateCount
  rw [Result.accept_ok_iff]
  simp

theorem checkState_ok_iff (t : Table) (state : Nat) : t.checkState state = .ok () ↔ state < t.acceptState := by
  unfold checkState
  rw [Result.accept_ok_iff]
  simp

theorem checkKey_ok_iff (t : Table) (key : Key) : t.checkKey key = .ok () ↔ t.InRange key := by
  unfold checkKey
  rw [Result.check_ok_iff, checkState_ok_iff, Result.refuse_ok_iff, Result.pure_ok_iff, Nat.not_le]
  simp only [and_true]
  constructor
  · rintro ⟨hs, ha⟩
    exact ⟨hs, ha⟩
  · rintro ⟨hs, ha⟩
    exact ⟨hs, ha⟩

theorem get_ok_iff (t : Table) (key : Key) (transition : Transition) :
    t.get key = .ok transition ↔ t.InRange key ∧ t.lookup key = transition := by
  unfold get
  rw [Result.check_ok_iff, checkKey_ok_iff, Result.pure_ok_iff]

theorem mem_directions (t : Table) (d : Direction) : d ∈ t.directions ↔ (d = .still → t.stillAllowed = true) := by
  unfold directions
  cases d <;> cases t.stillAllowed <;> decide

/-- **A check passes exactly for a key in range and a transition its table admits.** -/
theorem validate_ok_iff (t : Table) (key : Key) (transition : Transition) :
    t.validate key transition = .ok () ↔ t.InRange key ∧ t.Admits key transition := by
  unfold validate
  simp only [Result.check_ok_iff, checkKey_ok_iff, Result.guard_ok_iff, Result.refuse_ok_iff, Result.pure_ok_iff,
    and_true, Nat.not_le, Decidable.not_not, mem_directions]
  constructor
  · rintro ⟨hkey, hnext, hwrite, hstill, hmarker⟩
    refine ⟨hkey, hnext, hwrite, hstill, fun hm => ?_⟩
    constructor
    · exact Classical.byContradiction fun hne => hmarker ⟨hm, .inl hne⟩
    · exact Classical.byContradiction fun hne => hmarker ⟨hm, .inr hne⟩
  · rintro ⟨hkey, hnext, hwrite, hstill, hmarker⟩
    refine ⟨hkey, hnext, hwrite, hstill, ?_⟩
    rintro ⟨hm, hne | hne⟩
    · exact hne (hmarker hm).1
    · exact hne (hmarker hm).2

/-! ## Entries -/

/-- The entry of the cell at a place. -/
def entryAt (t : Table) (slot : Nat) : Entry := (t.keyAt slot, t.cellAt slot)

theorem entriesBelow_eq (t : Table) : ∀ (n : Nat) (rest : List Entry),
    t.entriesBelow n rest = ((List.range n).filter t.definedAt).map t.entryAt ++ rest
  | 0, rest => rfl
  | n + 1, rest => by
    rw [entriesBelow, List.range_succ, List.filter_append, List.map_append, List.append_assoc]
    by_cases h : t.definedAt n = true
    · rw [if_pos h, entriesBelow_eq t n, List.filter_cons_of_pos h]
      rfl
    · rw [if_neg h, entriesBelow_eq t n, List.filter_cons_of_neg h]
      rfl

theorem entries_eq (t : Table) : t.entries = ((List.range t.defined.size).filter t.definedAt).map t.entryAt := by
  rw [entries, entriesBelow_eq, List.append_nil]

theorem lt_of_definedAt (t : Table) (slot : Nat) (h : t.definedAt slot = true) : slot < t.defined.size := by
  rcases Nat.lt_or_ge slot t.defined.size with hlt | hge
  · exact hlt
  · unfold definedAt at h
    rw [Array.getD_eq_getD_getElem?, Array.getElem?_eq_none hge] at h
    cases h

/-- **The entries are those of the defined cells.** -/
theorem mem_entries_iff (t : Table) (entry : Entry) :
    entry ∈ t.entries ↔ ∃ slot, t.definedAt slot = true ∧ t.entryAt slot = entry := by
  rw [entries_eq, List.mem_map]
  constructor
  · rintro ⟨slot, hslot, rfl⟩
    exact ⟨slot, (List.mem_filter.1 hslot).2, rfl⟩
  · rintro ⟨slot, hslot, rfl⟩
    exact ⟨slot, List.mem_filter.2 ⟨List.mem_range.2 (lt_of_definedAt t slot hslot), hslot⟩, rfl⟩

/-- **A cell is defined with a transition exactly if they are an entry.** -/
theorem keyAt_mem_entries_iff (t : Table) (slot : Nat) (transition : Transition) :
    (t.keyAt slot, transition) ∈ t.entries ↔ t.definedAt slot = true ∧ t.cellAt slot = transition := by
  rw [mem_entries_iff]
  constructor
  · rintro ⟨slot', hd, he⟩
    obtain ⟨hkey, hcell⟩ := Prod.mk.inj he
    have hslot : slot' = slot := by rw [← slot_keyAt t slot', hkey, slot_keyAt]
    subst hslot
    exact ⟨hd, hcell⟩
  · rintro ⟨hd, hcell⟩
    exact ⟨slot, hd, by rw [entryAt, hcell]⟩

/-! ## What the operations do -/

/-- **A registration that succeeds was valid**, and defined a cell or overwrote a defined one on request. -/
theorem put_ok_iff (t u : Table) (key : Key) (transition : Transition) (replace : Bool) :
    t.put key transition replace = .ok u ↔ t.InRange key ∧ t.Admits key transition ∧
      if t.definedAt (t.slot key) then replace = true ∧ t.overwrite key transition = u
      else t.define key transition = u := by
  unfold put
  rw [Result.check_ok_iff, validate_ok_iff, and_assoc]
  refine and_congr_right fun _ => and_congr_right fun _ => ?_
  by_cases hd : t.definedAt (t.slot key) = true
  · rw [if_pos hd, if_pos hd, Result.accept_ok_iff, Result.pure_ok_iff]
  · rw [if_neg hd, if_neg hd, Result.pure_ok_iff]

theorem reset_ok_iff (t u : Table) (key : Key) (old : Transition) :
    t.reset key = .ok (old, u) ↔ t.InRange key ∧ t.lookup key = old ∧ t.undefine key = u := by
  unfold reset clear
  rw [Result.check_ok_iff, checkKey_ok_iff, Result.pure_ok_iff, Prod.mk.injEq]

theorem resetState_ok_iff (t u : Table) (state : Nat) (old : List Entry) :
    t.resetState state = .ok (old, u) ↔ state < t.acceptState ∧
      t.clearAll [] (t.entries.filter (·.1.state == state)) = (old, u) := by
  unfold resetState
  rw [Result.check_ok_iff, checkState_ok_iff, Result.pure_ok_iff]

/-- **A change of the number of states leaves the table alone or registers what is kept anew.** -/
theorem resize_ok_iff (t u : Table) (states : Nat) (preserve : Bool) :
    t.resize states preserve = .ok u ↔ (minStateCount ≤ states ∧ states ≤ maxStateCount) ∧
      if states = t.stateCount then t = u
      else (blankSlate states t.alphabetSize t.marker t.stillAllowed).putValid
        (if preserve then t.entries else []) = u := by
  unfold resize
  rw [Result.check_ok_iff, checkStateCount_ok_iff]
  refine and_congr_right fun _ => ?_
  by_cases hs : states = t.stateCount
  · rw [if_pos hs, if_pos hs, Result.pure_ok_iff]
  · rw [if_neg hs, if_neg hs]
    exact Result.pure_ok_iff _ u

/-- The cells of some keys undefined one after the other. -/
def undefineAll (t : Table) (keys : List Key) : Table := keys.foldl undefine t

theorem clearAll_snd : ∀ (entries : List Entry) (t : Table) (done : List Entry),
    (t.clearAll done entries).2 = t.undefineAll (entries.map Prod.fst)
  | [], _, _ => rfl
  | entry :: rest, t, done => by
    rw [clearAll, clearAll_snd rest]
    rfl

end Table
end BoundedTuring
