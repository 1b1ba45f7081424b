import BoundedTuring.Proofs.Cells
import BoundedTuring.Proofs.Table.Cells
/-!
# Sound tables

A table keeps three counts and the marks of its defined cells beside the cells, and every operation brings them up to
date by itself.  `Sound` says that they agree, and that every cell holds what the table would admit for its key.  One
lemma carries all operations that touch a cell: a sound table in which one cell and its mark are set, with counts that
moved as much as the cell did, is sound (`Sound.setCell`).
-/
namespace BoundedTuring
namespace Table

open Cells (getD_setIfInBounds getD_eq_getElem setIfInBounds_getD countP_setIfInBounds count_setIfInBounds)

/-- The marks of a state's cells. -/
def row (t : Table) (state : Nat) : Array Bool :=
  t.defined.extract (state * t.alphabetSize) ((state + 1) * t.alphabetSize)

/-- What every table keeps, whatever was done to it. -/
structure Sound (t : Table) : Prop where
  states : minStateCount ≤ t.stateCount
  size_cells : t.cells.size = t.acceptState * t.alphabetSize
  size_defined : t.defined.size = t.acceptState * t.alphabetSize
  size_definedPerState : t.definedPerState.size = t.acceptState
  /-- Every cell could be put again. -/
  admits : ∀ slot < t.cells.size, t.Admits (t.keyAt slot) (t.cellAt slot)
  identity : ∀ slot < t.cells.size, t.definedAt slot = false → t.cellAt slot = .identity (t.keyAt slot)
  definedCount_eq : t.definedCount = t.defined.count true
  definedPerState_eq : ∀ state < t.acceptState, t.definedPerState[state]? = some ((t.row state).count true)
  stillCount_eq : t.stillCount = t.cells.countP (·.isStill)

/-! ## One cell changed -/

/-- A table with the cell of a key, its mark and the counts given anew. -/
def setCell (t : Table) (key : Key) (transition : Transition) (mark : Bool) (perState : Array Nat)
    (count still : Nat) : Table :=
  { t with
    cells := t.cells.setIfInBounds (t.slot key) transition
    defined := t.defined.setIfInBounds (t.slot key) mark
    definedPerState := perState, definedCount := count, stillCount := still }

section SetCell

variable {t : Table} {key : Key} {transition : Transition} {mark : Bool} {perState : Array Nat} {count still : Nat}

theorem sameBounds_setCell (t : Table) (key : Key) (transition : Transition) (mark : Bool) (perState : Array Nat)
    (count still : Nat) : SameBounds t (t.setCell key transition mark perState count still) := ⟨rfl, rfl, rfl, rfl⟩

theorem cellAt_setCell (h : t.slot key < t.cells.size) (slot : Nat) :
    (t.setCell key transition mark perState count still).cellAt slot =
      if t.slot key = slot then transition else t.cellAt slot :=
  getD_setIfInBounds t.cells (t.slot key) slot transition (.identity (t.keyAt slot)) h

theorem definedAt_setCell (h : t.slot key < t.defined.size) (slot : Nat) :
    (t.setCell key transition mark perState count still).definedAt slot =
      if t.slot key = slot then mark else t.definedAt slot :=
  getD_setIfInBounds t.defined (t.slot key) slot mark false h

theorem row_setCell (hk : t.InRange key) (h : t.slot key < t.defined.size) (state : Nat) :
    (t.setCell key transition mark perState count still).row state =
      if state = key.state then (t.row state).setIfInBounds key.symbol mark else t.row state := by
  have hsymbol := hk.symbol_lt
  have hsucc : (state + 1) * t.alphabetSize = state * t.alphabetSize + t.alphabetSize := Nat.succ_mul _ _
  show (t.defined.setIfInBounds (t.slot key) mark).extract (state * t.alphabetSize) ((state + 1) * t.alphabetSize) = _
  rw [Array.setIfInBounds, dif_pos h, Array.extract_set h]
  -- the place of the key is behind the row, in it or in front of it
  rcases Nat.lt_trichotomy state key.state with hlt | heq | hgt
  · have hle : (state + 1) * t.alphabetSize ≤ key.state * t.alphabetSize := Nat.mul_le_mul_right _ hlt
    have hge : ¬ t.slot key < state * t.alphabetSize := by unfold slot; omega
    have hout : ¬ t.slot key < min ((state + 1) * t.alphabetSize) t.defined.size := by
      rw [Nat.lt_min]
      unfold slot
      omega
    rw [dif_neg hge, dif_neg hout, if_neg (Nat.ne_of_lt hlt)]
    rfl
  · subst heq
    have hsub : t.slot key - key.state * t.alphabetSize = key.symbol := by unfold slot; omega
    have hge : ¬ t.slot key < key.state * t.alphabetSize := by unfold slot; omega
    have hin : t.slot key < min ((key.state + 1) * t.alphabetSize) t.defined.size := by
      rw [Nat.lt_min]
      refine ⟨?_, h⟩
      unfold slot
      omega
    rw [dif_neg hge, dif_pos hin, if_pos rfl]
    simp only [hsub, row]
    rw [Array.setIfInBounds, dif_pos]
  · have hle : (key.state + 1) * t.alphabetSize ≤ state * t.alphabetSize := Nat.mul_le_mul_right _ hgt
    have hlt : t.slot key < state * t.alphabetSize := by
      rw [Nat.succ_mul] at hle
      unfold slot
      omega
    rw [dif_pos hlt, if_neg (Nat.ne_of_gt hgt)]
    rfl

theorem getElem?_row (hk : t.InRange key) (h : t.slot key < t.defined.size) :
    (t.row key.state)[key.symbol]? = some (t.definedAt (t.slot key)) := by
  have hsymbol := hk.symbol_lt
  have hsucc : (key.state + 1) * t.alphabetSize = key.state * t.alphabetSize + t.alphabetSize := Nat.succ_mul _ _
  have hin : key.symbol < min ((key.state + 1) * t.alphabetSize) t.defined.size - key.state * t.alphabetSize := by
    unfold slot at h
    omega
  unfold row
  rw [Array.getElem?_extract, if_pos hin, definedAt, getD_eq_getElem _ _ _ h]
  exact Array.getElem?_eq_getElem h

/-- **Setting a mark moves the count of the row it is in**, and of no other. -/
theorem count_row_setCell (hk : t.InRange key) (h : t.slot key < t.defined.size) (state : Nat) :
    ((t.setCell key transition mark perState count still).row state).count true +
        (if state = key.state then (t.definedAt (t.slot key)).toNat else 0) =
      (t.row state).count true + if state = key.state then mark.toNat else 0 := by
  rw [row_setCell hk h]
  by_cases hs : state = key.state
  · subst hs
    have hget := getElem?_row hk h
    have hset := count_setIfInBounds (t.row key.state) key.symbol mark (Array.getElem?_eq_some_iff.1 hget).1
    rw [Array.getD_eq_getD_getElem?, hget, Option.getD_some] at hset
    rw [if_pos rfl, if_pos rfl, if_pos rfl]
    exact hset
  · rw [if_neg hs, if_neg hs, if_neg hs]

theorem Sound.slot_lt_size (h : t.Sound) (hk : t.InRange key) : t.slot key < t.cells.size := by
  rw [h.size_cells]
  exact slot_lt t key hk

theorem Sound.slot_lt_marks (h : t.Sound) (hk : t.InRange key) : t.slot key < t.defined.size := by
  rw [h.size_defined]
  exact slot_lt t key hk

/-- **What is in force for a key in range is admitted.** -/
theorem Sound.lookup_admits (h : t.Sound) (hk : t.InRange key) : t.Admits key (t.lookup key) := by
  have hcell := h.admits (t.slot key) (h.slot_lt_size hk)
  rw [keyAt_slot t key hk.symbol_lt] at hcell
  exact hcell

/-- **A sound table in which a cell and its mark are set is sound**, once the transition is one the table admits, an
unmarked cell gets the identity, and each count moved as much as the cell did. -/
theorem Sound.setCell (h : t.Sound) (hk : t.InRange key) (hadmits : t.Admits key transition)
    (hidentity : mark = false → transition = .identity key) (hsize : perState.size = t.definedPerState.size)
    (hperState : ∀ state < t.acceptState, ∃ n, perState[state]? = some n ∧
      n + (if state = key.state then (t.definedAt (t.slot key)).toNat else 0) =
        (t.row state).count true + if state = key.state then mark.toNat else 0)
    (hcount : count + (t.definedAt (t.slot key)).toNat = t.definedCount + mark.toNat)
    (hstill : still + (t.lookup key).isStill.toNat = t.stillCount + transition.isStill.toNat) :
    (t.setCell key transition mark perState count still).Sound := by
  have hcell := h.slot_lt_size hk
  have hmark := h.slot_lt_marks hk
  have hkey : t.keyAt (t.slot key) = key := keyAt_slot t key hk.symbol_lt
  refine ⟨h.states, ?_, ?_, hsize.trans h.size_definedPerState, ?_, ?_, ?_, ?_, ?_⟩
  · exact Array.size_setIfInBounds.trans h.size_cells
  · exact Array.size_setIfInBounds.trans h.size_defined
  · intro slot hslot
    have hslot : slot < t.cells.size := Nat.lt_of_lt_of_eq hslot Array.size_setIfInBounds
    refine Admits.congr ?_ (sameBounds_setCell t key transition mark perState count still)
    show t.Admits (t.keyAt slot) _
    rw [cellAt_setCell hcell]
    by_cases he : t.slot key = slot
    · rw [if_pos he, ← he, hkey]; exact hadmits
    · rw [if_neg he]; exact h.admits slot hslot
  · intro slot hslot hd
    have hslot : slot < t.cells.size := Nat.lt_of_lt_of_eq hslot Array.size_setIfInBounds
    rw [definedAt_setCell hmark] at hd
    show _ = Transition.identity (t.keyAt slot)
    rw [cellAt_setCell hcell]
    by_cases he : t.slot key = slot
    · rw [if_pos he] at hd
      rw [if_pos he, ← he, hkey]
      exact hidentity hd
    · rw [if_neg he] at hd
      rw [if_neg he]
      exact h.identity slot hslot hd
  · show count = (t.defined.setIfInBounds (t.slot key) mark).count true
    have hset := count_setIfInBounds t.defined (t.slot key) mark hmark
    rw [definedAt, h.definedCount_eq] at hcount
    omega
  · intro state hstate
    obtain ⟨n, hn, hsum⟩ := hperState state hstate
    show perState[state]? = _
    rw [hn, ← Nat.add_right_cancel (hsum.trans (count_row_setCell hk hmark state).symm)]
  · show still = (t.cells.setIfInBounds (t.slot key) transition).countP (·.isStill)
    have hset := countP_setIfInBounds (·.isStill) t.cells (t.slot key) transition (.identity (t.keyAt (t.slot key)))
      hcell
    rw [lookup, cellAt, h.stillCount_eq] at hstill
    omega

end SetCell

/-! ## The three changes of a cell -/

section Changes

variable {t : Table} {key : Key} {transition : Transition}

theorem define_eq_setCell (t : Table) (key : Key) (transition : Transition) :
    t.define key transition = t.setCell key transition true (t.definedPerState.modify key.state (· + 1))
      (t.definedCount + 1) (if transition.isStill then t.stillCount + 1 else t.stillCount) := rfl

theorem overwrite_eq_setCell (hd : t.definedAt (t.slot key) = true) :
    t.overwrite key transition = t.setCell key transition true t.definedPerState t.definedCount
      (match (t.lookup key).isStill, transition.isStill with
        | false, true => t.stillCount + 1
        | true, false => t.stillCount - 1
        | _, _ => t.stillCount) := by
  have hmarks : t.defined.setIfInBounds (t.slot key) true = t.defined := by
    rw [← hd]
    exact setIfInBounds_getD _ _ _
  unfold overwrite setCell
  rw [hmarks]
  rfl

theorem undefine_eq_setCell (t : Table) (key : Key) :
    t.undefine key = if t.definedAt (t.slot key) then
        t.setCell key (.identity key) false (t.definedPerState.modify key.state (· - 1)) (t.definedCount - 1)
          (if (t.lookup key).isStill then t.stillCount - 1 else t.stillCount)
      else t.setCell key (.identity key) false t.definedPerState t.definedCount t.stillCount := by
  unfold undefine
  by_cases hd : t.definedAt (t.slot key) = true
  · rw [if_pos hd, if_pos hd]
    rfl
  · have hmarks : t.defined.setIfInBounds (t.slot key) false = t.defined := by
      rw [← (Bool.not_eq_true _).mp hd]
      exact setIfInBounds_getD _ _ _
    rw [if_neg hd, if_neg hd]
    unfold setCell
    rw [hmarks]

theorem Sound.definedPerState_modify (h : t.Sound) (f : Nat → Nat) (state : Nat) (hs : state < t.acceptState) :
    (t.definedPerState.modify key.state f)[state]? =
      some (if state = key.state then f ((t.row state).count true) else (t.row state).count true) := by
  rw [Array.getElem?_modify, h.definedPerState_eq state hs]
  by_cases he : key.state = state
  · rw [if_pos he, if_pos he.symm]
    rfl
  · rw [if_neg he, if_neg (Ne.symm he)]

/-- **A defined cell is counted**, so that no count is ever taken below zero. -/
theorem Sound.one_le_counts (h : t.Sound) (hk : t.InRange key) (hd : t.definedAt (t.slot key) = true) :
    1 ≤ t.definedCount ∧ 1 ≤ (t.row key.state).count true := by
  have hmark := h.slot_lt_marks hk
  constructor
  · rw [h.definedCount_eq]
    refine Array.count_pos_iff.2 ?_
    rw [← hd, definedAt, getD_eq_getElem _ _ _ hmark]
    exact Array.getElem_mem hmark
  · refine Array.count_pos_iff.2 ?_
    rw [← hd]
    exact Array.mem_of_getElem? (getElem?_row hk hmark)

theorem Sound.one_le_stillCount (h : t.Sound) (hk : t.InRange key) (hs : (t.lookup key).isStill = true) :
    1 ≤ t.stillCount := by
  have hcell := h.slot_lt_size hk
  rw [lookup, cellAt, getD_eq_getElem _ _ _ hcell] at hs
  rw [h.stillCount_eq]
  exact Array.countP_pos_iff.2 ⟨_, Array.getElem_mem hcell, hs⟩

theorem Sound.define (h : t.Sound) (hk : t.InRange key) (hadmits : t.Admits key transition)
    (hd : t.definedAt (t.slot key) = false) : (t.define key transition).Sound := by
  rw [define_eq_setCell]
  have hold : (t.lookup key).isStill = false := by
    rw [lookup, h.identity _ (h.slot_lt_size hk) hd]
    rfl
  refine h.setCell hk hadmits (fun hm => by cases hm) Array.size_modify (fun state hs => ?_) ?_ ?_
  · refine ⟨_, h.definedPerState_modify (· + 1) state hs, ?_⟩
    rw [hd]
    split <;> rfl
  · rw [hd]
    rfl
  · rw [hold]
    cases transition.isStill <;> rfl

theorem Sound.overwrite (h : t.Sound) (hk : t.InRange key) (hadmits : t.Admits key transition)
    (hd : t.definedAt (t.slot key) = true) : (t.overwrite key transition).Sound := by
  rw [overwrite_eq_setCell hd]
  refine h.setCell hk hadmits (fun hm => by cases hm) rfl (fun state hs => ?_) ?_ ?_
  · exact ⟨_, h.definedPerState_eq state hs, by rw [hd]⟩
  · rw [hd]
  · cases hold : (t.lookup key).isStill with
    | false => cases transition.isStill <;> rfl
    | true =>
      have hpos := h.one_le_stillCount hk hold
      cases transition.isStill with
      | false =>
        show t.stillCount - 1 + 1 = t.stillCount + 0
        omega
      | true => rfl

/-- **Every table admits the identity of a key in range.** -/
theorem admits_identity (hk : t.InRange key) : t.Admits key (.identity key) := by
  refine ⟨?_, hk.symbol_lt, nofun, fun _ => ⟨rfl, rfl⟩⟩
  have hlt := hk.state_lt
  unfold acceptState at hlt
  show key.state < t.stateCount
  omega

theorem Sound.undefine (h : t.Sound) (hk : t.InRange key) : (t.undefine key).Sound := by
  have hadmits := admits_identity hk
  rw [undefine_eq_setCell]
  cases hd : t.definedAt (t.slot key) with
  | true =>
    obtain ⟨hcount, hrow⟩ := h.one_le_counts hk hd
    rw [if_pos rfl]
    refine h.setCell hk hadmits (fun _ => rfl) Array.size_modify (fun state hs => ?_) ?_ ?_
    · refine ⟨_, h.definedPerState_modify (· - 1) state hs, ?_⟩
      rw [hd]
      by_cases he : state = key.state
      · subst he
        rw [if_pos rfl, if_pos rfl, if_pos rfl]
        show _ - 1 + 1 = _ + 0
        omega
      · rw [if_neg he, if_neg he, if_neg he]
    · rw [hd]
      show t.definedCount - 1 + 1 = t.definedCount + 0
      omega
    · cases hold : (t.lookup key).isStill with
      | false => rfl
      | true =>
        have hpos := h.one_le_stillCount hk hold
        show t.stillCount - 1 + 1 = t.stillCount + 0
        omega
  | false =>
    have hold : (t.lookup key).isStill = false := by
      rw [lookup, h.identity _ (h.slot_lt_size hk) hd]
      rfl
    rw [if_neg Bool.false_ne_true]
    refine h.setCell hk hadmits (fun _ => rfl) rfl (fun state hs => ?_) ?_ ?_
    · exact ⟨_, h.definedPerState_eq state hs, by rw [hd]⟩
    · rw [hd]
    · rw [hold]
      rfl

end Changes

end Table
end BoundedTuring
