import BoundedTuring.Proofs.Table.Soundness
/-!
# The operations of a table

An empty table is sound, and every operation takes sound tables to sound ones over the same alphabet.  Registering
and undefining change cells one at a time; resizing starts with an empty table and registers what is kept; forbidding
to stand still undefines the cells that do, after which no cell does (`Sound.not_still_undefineAll`).
-/
namespace BoundedTuring
namespace Table

open Cells (getD_eq_getElem)

/-! ## Empty tables -/

section BlankSlate

variable (states alphabetSize : Nat) (marker : Option Nat) (stillAllowed : Bool)

theorem cellAt_blankSlate (slot : Nat) :
    (blankSlate states alphabetSize marker stillAllowed).cellAt slot = .identity (keyOf alphabetSize slot) := by
  unfold cellAt blankSlate
  rw [Array.getD_eq_getD_getElem?, Array.getElem?_ofFn]
  split <;> rfl

theorem definedAt_blankSlate (slot : Nat) :
    (blankSlate states alphabetSize marker stillAllowed).definedAt slot = false := by
  unfold definedAt blankSlate
  rw [Array.getD_eq_getD_getElem?, Array.getElem?_replicate]
  split <;> rfl

theorem sound_blankSlate (h : minStateCount ≤ states) :
    (blankSlate states alphabetSize marker stillAllowed).Sound := by
  refine ⟨h, Array.size_ofFn, Array.size_replicate, Array.size_replicate, ?_, ?_, ?_, ?_, ?_⟩
  · intro slot hslot
    rw [cellAt_blankSlate]
    refine admits_identity (inRange_keyAt _ slot ?_)
    exact Nat.lt_of_lt_of_eq hslot Array.size_ofFn
  · intro slot _ _
    exact cellAt_blankSlate ..
  · show 0 = (Array.replicate _ false).count true
    rw [Array.count_replicate]
    rfl
  · intro state hstate
    have hrow : (blankSlate states alphabetSize marker stillAllowed).row state =
        Array.replicate (min ((state + 1) * alphabetSize) ((states - 2) * alphabetSize) - state * alphabetSize) false :=
      Array.extract_replicate
    rw [hrow, Array.count_replicate]
    show (Array.replicate (states - 2) 0)[state]? = some 0
    rw [Array.getElem?_replicate]
    exact if_pos hstate
  · refine (Array.countP_eq_zero.2 fun transition htransition => ?_).symm
    obtain ⟨slot, rfl⟩ := Array.mem_ofFn.1 htransition
    exact Bool.false_ne_true

end BlankSlate

/-! ## Undefining -/

section Undefining

variable {t : Table}

theorem sameBounds_undefine (t : Table) (key : Key) : SameBounds t (t.undefine key) := by
  rw [undefine_eq_setCell]
  split <;> exact sameBounds_setCell ..

theorem sameBounds_undefineAll : ∀ (keys : List Key) (t : Table), SameBounds t (t.undefineAll keys)
  | [], t => SameBounds.refl t
  | key :: keys, t => (sameBounds_undefine t key).trans (sameBounds_undefineAll keys (t.undefine key))

theorem size_cells_undefine (t : Table) (key : Key) : (t.undefine key).cells.size = t.cells.size := by
  rw [undefine_eq_setCell]
  split <;> exact Array.size_setIfInBounds

theorem size_cells_undefineAll : ∀ (keys : List Key) (t : Table), (t.undefineAll keys).cells.size = t.cells.size
  | [], _ => rfl
  | key :: keys, t => (size_cells_undefineAll keys (t.undefine key)).trans (size_cells_undefine t key)

theorem cellAt_undefine (key : Key) (h : t.slot key < t.cells.size) (slot : Nat) :
    (t.undefine key).cellAt slot = if t.slot key = slot then .identity key else t.cellAt slot := by
  rw [undefine_eq_setCell]
  split <;> exact cellAt_setCell h slot

theorem Sound.undefineAll : ∀ (keys : List Key) {t : Table}, t.Sound → (∀ key ∈ keys, t.InRange key) →
    (t.undefineAll keys).Sound
  | [], _, h, _ => h
  | key :: keys, t, h, hkeys => by
    have hkey : t.InRange key := hkeys key List.mem_cons_self
    refine Sound.undefineAll keys (h.undefine hkey) (fun key' hmem => ?_)
    exact (hkeys key' (List.mem_cons_of_mem key hmem)).congr (sameBounds_undefine t key)

/-- **A cell is left alone by undefining or holds the identity.** -/
theorem cellAt_undefineAll : ∀ (keys : List Key) {t : Table}, t.Sound → (∀ key ∈ keys, t.InRange key) → ∀ slot,
    (t.undefineAll keys).cellAt slot =
      if t.keyAt slot ∈ keys then .identity (t.keyAt slot) else t.cellAt slot
  | [], _, _, _, _ => rfl
  | key :: keys, t, h, hkeys, slot => by
    have hkey : t.InRange key := hkeys key List.mem_cons_self
    have hb := sameBounds_undefine t key
    have hat : (t.undefine key).keyAt slot = t.keyAt slot := by
      unfold keyAt
      rw [hb.alphabetSize]
    have hiff : t.slot key = slot ↔ t.keyAt slot = key := by
      constructor
      · intro he
        rw [← he, keyAt_slot t key hkey.symbol_lt]
      · intro he
        rw [← he, slot_keyAt]
    have hrest := cellAt_undefineAll keys (h.undefine hkey)
      (fun key' hmem => (hkeys key' (List.mem_cons_of_mem key hmem)).congr hb) slot
    rw [hat, cellAt_undefine key (h.slot_lt_size hkey)] at hrest
    show ((t.undefine key).undefineAll keys).cellAt slot = _
    rw [hrest]
    by_cases he : t.slot key = slot
    · have hkeyAt := hiff.1 he
      rw [if_pos he, hkeyAt, if_pos List.mem_cons_self]
      split <;> rfl
    · have hne : t.keyAt slot ≠ key := fun hk => he (hiff.2 hk)
      rw [if_neg he]
      by_cases hmem : t.keyAt slot ∈ keys
      · rw [if_pos hmem, if_pos (List.mem_cons_of_mem key hmem)]
      · rw [if_neg hmem, if_neg (fun hm => (List.mem_cons.1 hm).elim hne hmem)]

theorem Sound.inRange_of_mem_entries (h : t.Sound) {entry : Entry} (hmem : entry ∈ t.entries) :
    t.InRange entry.1 := by
  obtain ⟨slot, hd, rfl⟩ := (mem_entries_iff t entry).1 hmem
  refine inRange_keyAt t slot ?_
  rw [← h.size_defined]
  exact lt_of_definedAt t slot hd

theorem Sound.inRange_of_mem_filter (h : t.Sound) (p : Entry → Bool) :
    ∀ key ∈ (t.entries.filter p).map Prod.fst, t.InRange key := by
  intro key hkey
  obtain ⟨entry, hentry, rfl⟩ := List.mem_map.1 hkey
  exact h.inRange_of_mem_entries (List.mem_filter.1 hentry).1

end Undefining

/-! ## Every operation keeps tables sound -/

section Operations

variable {t : Table}

theorem Sound.put (h : t.Sound) {u : Table} {key : Key} {transition : Transition} {replace : Bool}
    (hput : t.put key transition replace = .ok u) : u.Sound := by
  obtain ⟨hkey, hadmits, hu⟩ := (put_ok_iff ..).1 hput
  cases hd : t.definedAt (t.slot key) with
  | true =>
    rw [if_pos hd] at hu
    rw [← hu.2]
    exact h.overwrite hkey hadmits hd
  | false =>
    rw [hd, if_neg Bool.false_ne_true] at hu
    rw [← hu]
    exact h.define hkey hadmits hd

theorem putValid_cons (t : Table) (entry : Entry) (rest : List Entry) :
    t.putValid (entry :: rest) = ((t.put entry.1 entry.2 false).getD t).putValid rest := by
  obtain ⟨key, transition⟩ := entry
  unfold putValid
  rw [List.foldl_cons]
  dsimp only
  cases t.put key transition false <;> rfl

theorem Sound.putValid : ∀ (entries : List Entry) {t : Table}, t.Sound → (t.putValid entries).Sound
  | [], _, h => h
  | entry :: rest, t, h => by
    rw [putValid_cons]
    exact Sound.putValid rest (Result.getD_induct _ t h (fun u hput => h.put hput))

theorem Sound.reset (h : t.Sound) {key : Key} {old : Transition} {u : Table} (hreset : t.reset key = .ok (old, u)) :
    u.Sound := by
  obtain ⟨hkey, -, rfl⟩ := (reset_ok_iff ..).1 hreset
  exact h.undefine hkey

theorem Sound.clearAll (h : t.Sound) (p : Entry → Bool) : (t.clearAll [] (t.entries.filter p)).2.Sound := by
  rw [clearAll_snd]
  exact Sound.undefineAll _ h (h.inRange_of_mem_filter p)

theorem Sound.resetState (h : t.Sound) {state : Nat} {old : List Entry} {u : Table}
    (hreset : t.resetState state = .ok (old, u)) : u.Sound := by
  have hclear := h.clearAll (·.1.state == state)
  rw [((resetState_ok_iff ..).1 hreset).2] at hclear
  exact hclear

theorem Sound.resetAll (h : t.Sound) : t.resetAll.2.Sound := sound_blankSlate _ _ _ _ h.states

theorem Sound.resize (h : t.Sound) {states : Nat} {preserve : Bool} {u : Table}
    (hresize : t.resize states preserve = .ok u) : u.Sound := by
  obtain ⟨hstates, hu⟩ := (resize_ok_iff ..).1 hresize
  split at hu
  · rw [← hu]
    exact h
  · rw [← hu]
    exact Sound.putValid _ (sound_blankSlate _ _ _ _ hstates.1)

/-! ## Standing still -/

/-- A table with the still direction allowed or forbidden, and nothing undefined for it. -/
def allowStill (t : Table) (allowed : Bool) : Table := { t with stillAllowed := allowed }

theorem entries_allowStill (t : Table) (allowed : Bool) : (t.allowStill allowed).entries = t.entries := by
  rw [entries_eq, entries_eq]
  rfl

def stillKeys (t : Table) : List Key := (t.entries.filter (·.2.direction == .still)).map Prod.fst

theorem undefine_allowStill (t : Table) (allowed : Bool) (key : Key) :
    (t.allowStill allowed).undefine key = (t.undefine key).allowStill allowed := by
  rw [undefine_eq_setCell, undefine_eq_setCell]
  by_cases hd : t.definedAt (t.slot key) = true
  · have hd' : (t.allowStill allowed).definedAt ((t.allowStill allowed).slot key) = true := hd
    rw [if_pos hd, if_pos hd']
    rfl
  · have hd' : ¬ (t.allowStill allowed).definedAt ((t.allowStill allowed).slot key) = true := hd
    rw [if_neg hd, if_neg hd']
    rfl

theorem undefineAll_allowStill (allowed : Bool) : ∀ (keys : List Key) (t : Table),
    (t.allowStill allowed).undefineAll keys = (t.undefineAll keys).allowStill allowed
  | [], _ => rfl
  | key :: keys, t => by
    show ((t.allowStill allowed).undefine key).undefineAll keys = _
    rw [undefine_allowStill, undefineAll_allowStill allowed keys]
    rfl

theorem setStillAllowed_snd (t : Table) (allowed : Bool) :
    (t.setStillAllowed allowed).2 =
      if allowed = true ∨ t.stillCount = 0 then t.allowStill allowed
      else (t.undefineAll t.stillKeys).allowStill allowed := by
  unfold setStillAllowed
  by_cases hc : allowed = true ∨ t.stillCount = 0
  · rw [if_pos hc]
    exact if_pos hc ▸ rfl
  · show (if allowed = true ∨ t.stillCount = 0 then _ else (t.allowStill allowed).clearAll []
      ((t.allowStill allowed).entries.filter (·.2.direction == .still)) : List Entry × Table).2 = _
    rw [if_neg hc, if_neg hc, clearAll_snd, entries_allowStill]
    exact undefineAll_allowStill allowed t.stillKeys t

/-- The flag may be given anew in a sound table, unless it forbids what some cell does. -/
theorem Sound.allowStill (h : t.Sound) (allowed : Bool)
    (hstill : ∀ slot < t.cells.size, (t.cellAt slot).direction = .still → allowed = true) :
    (t.allowStill allowed).Sound where
  states := h.states
  size_cells := h.size_cells
  size_defined := h.size_defined
  size_definedPerState := h.size_definedPerState
  admits slot hslot :=
    let ha := h.admits slot hslot
    ⟨ha.next_lt, ha.write_lt, hstill slot hslot, ha.marker⟩
  identity := h.identity
  definedCount_eq := h.definedCount_eq
  definedPerState_eq := h.definedPerState_eq
  stillCount_eq := h.stillCount_eq

/-- A count of none means that no cell stands still, so that nothing has to be undefined. -/
theorem Sound.not_still_of_stillCount (h : t.Sound) (hzero : t.stillCount = 0) {slot : Nat}
    (hslot : slot < t.cells.size) :
    (t.cellAt slot).direction ≠ .still := by
  intro hdir
  rw [h.stillCount_eq, Array.countP_eq_zero] at hzero
  refine hzero t.cells[slot] (Array.getElem_mem hslot) ?_
  rw [cellAt, getD_eq_getElem _ _ _ hslot] at hdir
  simp [Transition.isStill, hdir]

/-- **No cell stands still once the keys that do are undefined.** -/
theorem Sound.not_still_undefineAll (h : t.Sound) {slot : Nat} (hslot : slot < t.cells.size) :
    ((t.undefineAll t.stillKeys).cellAt slot).direction ≠ .still := by
  intro hdir
  rw [cellAt_undefineAll t.stillKeys h (h.inRange_of_mem_filter _)] at hdir
  by_cases hmem : t.keyAt slot ∈ t.stillKeys
  · rw [if_pos hmem] at hdir
    cases hdir
  · rw [if_neg hmem] at hdir
    have hd : t.definedAt slot = true := by
      cases hd : t.definedAt slot with
      | true => rfl
      | false =>
        rw [h.identity slot hslot hd] at hdir
        cases hdir
    have hentry := (keyAt_mem_entries_iff t slot _).2 ⟨hd, rfl⟩
    exact hmem (List.mem_map.2 ⟨_, List.mem_filter.2 ⟨hentry, by simp [hdir]⟩, rfl⟩)

theorem Sound.setStillAllowed (h : t.Sound) (allowed : Bool) : (t.setStillAllowed allowed).2.Sound := by
  rw [setStillAllowed_snd]
  by_cases hc : allowed = true ∨ t.stillCount = 0
  · rw [if_pos hc]
    refine h.allowStill allowed (fun slot hslot hdir => hc.resolve_right (fun hzero => ?_))
    exact h.not_still_of_stillCount hzero hslot hdir
  · rw [if_neg hc]
    have hall := Sound.undefineAll t.stillKeys h (h.inRange_of_mem_filter _)
    refine hall.allowStill allowed (fun slot hslot hdir => absurd hdir (h.not_still_undefineAll ?_))
    rw [size_cells_undefineAll] at hslot
    exact hslot

end Operations

/-! ## Every operation keeps the alphabet -/

theorem sameBounds_put {t u : Table} {key : Key} {transition : Transition} {replace : Bool}
    (hput : t.put key transition replace = .ok u) : SameBounds t u := by
  obtain ⟨-, -, hu⟩ := (put_ok_iff ..).1 hput
  split at hu
  · rw [← hu.2]
    exact ⟨rfl, rfl, rfl, rfl⟩
  · rw [← hu]
    exact ⟨rfl, rfl, rfl, rfl⟩

theorem sameBounds_putValid : ∀ (entries : List Entry) (t : Table), SameBounds t (t.putValid entries)
  | [], t => SameBounds.refl t
  | entry :: rest, t => by
    rw [putValid_cons]
    have hput : SameBounds t ((t.put entry.1 entry.2 false).getD t) :=
      Result.getD_induct _ t (SameBounds.refl t) (fun u hput => sameBounds_put hput)
    exact hput.trans (sameBounds_putValid rest _)

/-- Two tables over one alphabet. -/
structure SameAlphabet (t u : Table) : Prop where
  alphabetSize : u.alphabetSize = t.alphabetSize
  marker : u.marker = t.marker

theorem SameBounds.sameAlphabet {t u : Table} (h : SameBounds t u) : SameAlphabet t u := ⟨h.alphabetSize, h.marker⟩

theorem sameAlphabet_clearAll (t : Table) (entries : List Entry) : SameAlphabet t (t.clearAll [] entries).2 := by
  rw [clearAll_snd]
  exact (sameBounds_undefineAll _ t).sameAlphabet

theorem sameAlphabet_reset {t u : Table} {key : Key} {old : Transition} (hreset : t.reset key = .ok (old, u)) :
    SameAlphabet t u := by
  obtain ⟨-, -, rfl⟩ := (reset_ok_iff ..).1 hreset
  exact (sameBounds_undefine t key).sameAlphabet

theorem sameAlphabet_resetState {t u : Table} {state : Nat} {old : List Entry}
    (hreset : t.resetState state = .ok (old, u)) : SameAlphabet t u := by
  have hclear := sameAlphabet_clearAll t (t.entries.filter (·.1.state == state))
  rw [((resetState_ok_iff ..).1 hreset).2] at hclear
  exact hclear

theorem sameAlphabet_resize {t u : Table} {states : Nat} {preserve : Bool}
    (hresize : t.resize states preserve = .ok u) : SameAlphabet t u := by
  have hu := ((resize_ok_iff ..).1 hresize).2
  split at hu
  · rw [← hu]
    exact ⟨rfl, rfl⟩
  · rw [← hu]
    have hb := sameBounds_putValid (if preserve = true then t.entries else [])
      (blankSlate states t.alphabetSize t.marker t.stillAllowed)
    exact ⟨hb.alphabetSize, hb.marker⟩

theorem sameAlphabet_setStillAllowed (t : Table) (allowed : Bool) : SameAlphabet t (t.setStillAllowed allowed).2 := by
  rw [setStillAllowed_snd]
  split
  · exact ⟨rfl, rfl⟩
  · have hb := sameBounds_undefineAll t.stillKeys t
    exact ⟨hb.alphabetSize, hb.marker⟩

end Table
end BoundedTuring
