import BoundedTuring.Proofs.Table.Operations
/-!
# Histories of a table

A history starts with an empty table and goes on with operations, each of which may fail and then changes nothing.
So every table a history leads to is sound and over the alphabet it started with (`Reachable.sound`,
`Reachable.alphabetSize_eq`, `Reachable.marker_eq`).  A sound table is told by its bounds and its entries alone
(`Sound.ext`): the cells, the marks and the counts do not remember how the entries came about.
-/
namespace BoundedTuring
namespace Table

/-- What can be done to a table. -/
inductive Edit where
  | put (key : Key) (transition : Transition) (replace : Bool)
  | reset (key : Key)
  | resetState (state : Nat)
  | resetAll
  | resize (states : Nat) (preserve : Bool)
  | setStillAllowed (allowed : Bool)
  deriving DecidableEq, Repr

/-- The table after an operation, which is as it was if the operation fails. -/
def edit (t : Table) : Edit → Table
  | .put key transition replace => (t.put key transition replace).getD t
  | .reset key => (Prod.snd <$> t.reset key).getD t
  | .resetState state => (Prod.snd <$> t.resetState state).getD t
  | .resetAll => t.resetAll.2
  | .resize states preserve => (t.resize states preserve).getD t
  | .setStillAllowed allowed => (t.setStillAllowed allowed).2

/-- The tables over an alphabet that operations lead to. -/
inductive Reachable (a : Alphabet) : Table → Prop
  | empty {states : Nat} {stillAllowed : Bool} {t : Table} (h : Table.empty states a stillAllowed = .ok t) :
    Reachable a t
  | edit {t : Table} (h : Reachable a t) (e : Edit) : Reachable a (t.edit e)

/-! ## One operation -/

/-- **What holds before an operation and after each that succeeds holds after it.** -/
theorem edit_induct {P : Table → Prop} (t : Table) (h : P t)
    (put : ∀ {u key transition replace}, t.put key transition replace = .ok u → P u)
    (reset : ∀ {u key old}, t.reset key = .ok (old, u) → P u)
    (resetState : ∀ {u state old}, t.resetState state = .ok (old, u) → P u)
    (resetAll : P t.resetAll.2)
    (resize : ∀ {u states preserve}, t.resize states preserve = .ok u → P u)
    (setStillAllowed : ∀ allowed, P (t.setStillAllowed allowed).2) (e : Edit) : P (t.edit e) := by
  cases e with
  | put key transition replace => exact Result.getD_induct _ _ h (fun u hu => put hu)
  | reset key =>
    refine Result.getD_induct _ _ h (fun u hu => ?_)
    obtain ⟨⟨old, u'⟩, hreset, rfl⟩ := (Result.map_ok_iff ..).1 hu
    exact reset hreset
  | resetState state =>
    refine Result.getD_induct _ _ h (fun u hu => ?_)
    obtain ⟨⟨old, u'⟩, hreset, rfl⟩ := (Result.map_ok_iff ..).1 hu
    exact resetState hreset
  | resetAll => exact resetAll
  | resize states preserve => exact Result.getD_induct _ _ h (fun u hu => resize hu)
  | setStillAllowed allowed => exact setStillAllowed allowed

theorem sameAlphabet_edit (t : Table) (e : Edit) : SameAlphabet t (t.edit e) :=
  edit_induct t ⟨rfl, rfl⟩ (fun hput => (sameBounds_put hput).sameAlphabet) sameAlphabet_reset sameAlphabet_resetState
    ⟨rfl, rfl⟩ sameAlphabet_resize (sameAlphabet_setStillAllowed t) e

theorem Sound.edit {t : Table} (h : t.Sound) (e : Edit) : (t.edit e).Sound :=
  edit_induct t h h.put h.reset h.resetState h.resetAll h.resize h.setStillAllowed e

/-! ## Histories -/

section Reachable

variable {a : Alphabet} {t : Table}

theorem empty_ok_iff (states : Nat) (a : Alphabet) (stillAllowed : Bool) (t : Table) :
    Table.empty states a stillAllowed = .ok t ↔ (minStateCount ≤ states ∧ states ≤ maxStateCount) ∧
      blankSlate states a.size a.marker? stillAllowed = t := by
  unfold Table.empty
  rw [Result.check_ok_iff, checkStateCount_ok_iff, Result.pure_ok_iff]

/-- **Every table a history leads to is sound.** -/
theorem Reachable.sound (h : Reachable a t) : t.Sound := by
  induction h with
  | empty h =>
    obtain ⟨hstates, rfl⟩ := (empty_ok_iff ..).1 h
    exact sound_blankSlate _ _ _ _ hstates.1
  | edit _ e ih => exact ih.edit e

theorem Reachable.alphabetSize_eq (h : Reachable a t) : t.alphabetSize = a.size := by
  induction h with
  | empty h =>
    obtain ⟨-, rfl⟩ := (empty_ok_iff ..).1 h
    rfl
  | edit _ e ih => exact (sameAlphabet_edit _ e).alphabetSize.trans ih

theorem Reachable.marker_eq (h : Reachable a t) : t.marker = a.marker? := by
  induction h with
  | empty h =>
    obtain ⟨-, rfl⟩ := (empty_ok_iff ..).1 h
    rfl
  | edit _ e ih => exact (sameAlphabet_edit _ e).marker.trans ih

/-- The states of a table are not too many. -/
def WithinLimit (t : Table) : Prop := t.stateCount ≤ maxStateCount

theorem WithinLimit.congr {u : Table} (h : t.WithinLimit) (hb : SameBounds t u) : u.WithinLimit := by
  unfold WithinLimit
  rw [hb.stateCount]
  exact h

theorem WithinLimit.edit (h : t.WithinLimit) (e : Edit) : (t.edit e).WithinLimit := by
  refine edit_induct t h (fun hput => h.congr (sameBounds_put hput)) ?reset ?resetState h ?resize ?setStillAllowed e
  case reset =>
    intro u key old hreset
    rw [← ((reset_ok_iff ..).1 hreset).2.2]
    exact h.congr (sameBounds_undefine t key)
  case resetState =>
    intro u state old hreset
    have hu : (t.clearAll [] (t.entries.filter (·.1.state == state))).2 = u :=
      congrArg Prod.snd ((resetState_ok_iff ..).1 hreset).2
    rw [← hu, clearAll_snd]
    exact h.congr (sameBounds_undefineAll ..)
  case resize =>
    intro u states preserve hresize
    obtain ⟨hstates, hu⟩ := (resize_ok_iff ..).1 hresize
    by_cases heq : states = t.stateCount
    · rw [if_pos heq] at hu
      rwa [← hu]
    · rw [if_neg heq] at hu
      have hblank : (blankSlate states t.alphabetSize t.marker t.stillAllowed).WithinLimit := hstates.2
      rw [← hu]
      exact hblank.congr (sameBounds_putValid ..)
  case setStillAllowed =>
    intro allowed
    have hcleared : (t.undefineAll t.stillKeys).WithinLimit := h.congr (sameBounds_undefineAll ..)
    rw [setStillAllowed_snd]
    split
    · exact h
    · exact hcleared

theorem Reachable.withinLimit (h : Reachable a t) : t.WithinLimit := by
  induction h with
  | empty h =>
    obtain ⟨hstates, rfl⟩ := (empty_ok_iff ..).1 h
    exact hstates.2
  | edit _ e ih => exact ih.edit e

end Reachable

/-! ## A sound table is its entries -/

section Ext

variable {t u : Table}

/-- **The counts of a sound table follow from its cells and marks.** -/
theorem Sound.ext_cells (ht : t.Sound) (hu : u.Sound) (hb : SameBounds t u) (hcells : t.cells = u.cells)
    (hdefined : t.defined = u.defined) : t = u := by
  have haccept : u.acceptState = t.acceptState := by unfold acceptState; rw [hb.stateCount]
  have hperState : t.definedPerState = u.definedPerState := by
    refine Array.ext_getElem? (fun state => ?_)
    rcases Nat.lt_or_ge state t.acceptState with hlt | hge
    · rw [ht.definedPerState_eq state hlt, hu.definedPerState_eq state (haccept ▸ hlt)]
      unfold row
      rw [hdefined, hb.alphabetSize]
    · rw [Array.getElem?_eq_none (ht.size_definedPerState ▸ hge),
        Array.getElem?_eq_none (hu.size_definedPerState ▸ haccept ▸ hge)]
  have hcount : t.definedCount = u.definedCount := by rw [ht.definedCount_eq, hu.definedCount_eq, hdefined]
  have hstill : t.stillCount = u.stillCount := by rw [ht.stillCount_eq, hu.stillCount_eq, hcells]
  obtain ⟨hstates, halphabet, hmarker, hflag⟩ := hb
  cases t
  cases u
  simp only at hstates halphabet hmarker hflag hcells hdefined hperState hcount hstill
  rw [hstates, halphabet, hmarker, hflag, hcells, hdefined, hperState, hcount, hstill]

/-- **Sound tables with the same bounds and the same entries are equal**: an unmarked cell holds the identity and a
marked one is an entry. -/
theorem Sound.ext (ht : t.Sound) (hu : u.Sound) (hb : SameBounds t u) (hentries : t.entries = u.entries) : t = u := by
  have haccept : u.acceptState = t.acceptState := by unfold acceptState; rw [hb.stateCount]
  have hkeyAt : ∀ slot, u.keyAt slot = t.keyAt slot := fun slot => by unfold keyAt; rw [hb.alphabetSize]
  have hsize : t.cells.size = u.cells.size := by
    rw [ht.size_cells, hu.size_cells, haccept, hb.alphabetSize]
  have hsize' : t.defined.size = u.defined.size := by
    rw [ht.size_defined, hu.size_defined, haccept, hb.alphabetSize]
  have hentry : ∀ slot transition, (t.definedAt slot = true ∧ t.cellAt slot = transition) ↔
      (u.definedAt slot = true ∧ u.cellAt slot = transition) := fun slot transition => by
    rw [← keyAt_mem_entries_iff, ← keyAt_mem_entries_iff, hentries, hkeyAt]
  have hdefinedAt : ∀ slot, t.definedAt slot = u.definedAt slot := fun slot => by
    rw [Bool.eq_iff_iff]
    exact ⟨fun hd => ((hentry slot _).1 ⟨hd, rfl⟩).1, fun hd => ((hentry slot _).2 ⟨hd, rfl⟩).1⟩
  have hcellAt : ∀ slot < t.cells.size, t.cellAt slot = u.cellAt slot := fun slot hslot => by
    cases hd : t.definedAt slot with
    | true => exact ((hentry slot _).1 ⟨hd, rfl⟩).2.symm
    | false =>
      rw [ht.identity slot hslot hd, hu.identity slot (hsize ▸ hslot) (hdefinedAt slot ▸ hd), hkeyAt]
  refine ht.ext_cells hu hb ?cells ?marks
  case cells =>
    refine Cells.eq_of_getD hsize (fun slot => .identity (t.keyAt slot)) (fun slot hslot => ?_)
    have hcell := hcellAt slot hslot
    unfold cellAt at hcell
    rwa [hkeyAt] at hcell
  case marks => exact Cells.eq_of_getD hsize' (fun _ => false) (fun slot _ => hdefinedAt slot)

end Ext

/-! ## Every reachable table -/

theorem Reachable.edits {a : Alphabet} : ∀ (es : List Edit) {t : Table}, Reachable a t →
    Reachable a (es.foldl Table.edit t)
  | [], _, h => h
  | e :: es, _, h => Reachable.edits es (h.edit e)

/-- **Every table a history leads to is sound and over its alphabet, and is told by its entries**: two of them over one
alphabet are equal once they agree on the number of states, on standing still and on what is defined. -/
theorem reachable_consistent (a : Alphabet) :
    (∀ t, Reachable a t → t.Sound ∧ t.alphabetSize = a.size ∧ t.marker = a.marker?) ∧
    (∀ t u, Reachable a t → Reachable a u → t.stateCount = u.stateCount → t.stillAllowed = u.stillAllowed →
      t.entries = u.entries → t = u) := by
  constructor
  · intro t ht
    exact ⟨ht.sound, ht.alphabetSize_eq, ht.marker_eq⟩
  · intro t u ht hu hstates hstill hentries
    have hb : SameBounds t u := by
      refine ⟨hstates.symm, ?_, ?_, hstill.symm⟩
      · rw [hu.alphabetSize_eq, ht.alphabetSize_eq]
      · rw [hu.marker_eq, ht.marker_eq]
    exact ht.sound.ext hu.sound hb hentries

/-- A detour over a still transition, a refused registration and more states ends in the same table as the direct
way. -/
theorem detour_eq_direct :
    let start := blankSlate 4 4 (some 2) true
    let detour := [.put ⟨0, 0⟩ ⟨1, 1, .still⟩ false, .put ⟨0, 0⟩ ⟨0, 0, .right⟩ false, .put ⟨1, 0⟩ ⟨3, 1, .left⟩ false,
      .resize 6 true, .put ⟨3, 1⟩ ⟨5, 0, .still⟩ false, .resize 4 true, .setStillAllowed false].foldl edit start
    let direct := [.setStillAllowed false, .put ⟨1, 0⟩ ⟨0, 0, .right⟩ false, .put ⟨1, 0⟩ ⟨3, 1, .left⟩ true].foldl
      edit start
    detour.Sound ∧ detour = direct := by
  intro start detour direct
  let a : Alphabet := ⟨.leftEnd, ⟨#["0", "1"]⟩, #["0", "1", markerName, blankName]⟩
  have hstart : Reachable a start := .empty (show Table.empty 4 a true = .ok start from rfl)
  have hdetour : Reachable a detour := hstart.edits _
  have hdirect : Reachable a direct := hstart.edits _
  have hall := reachable_consistent a
  exact ⟨(hall.1 detour hdetour).1, hall.2 detour direct hdetour hdirect (by decide) (by decide) (by decide)⟩

end Table
end BoundedTuring
