import BoundedTuring.Automaton
import BoundedTuring.Proofs.Alphabet.Unambiguous
import BoundedTuring.Proofs.Cells
/-!
# Sound automata

An automaton counts its accepting states and its defined transitions, and every operation moves the counts by what it
changed.  `Sound` says that they are right, that every transition leads to a state, and that one that is not defined
loops.  It holds of the blank automaton and is kept by every operation, successful or not, so it holds of every
automaton a history leads to (`Reachable.sound`).
-/
namespace BoundedTuring

theorem checkAutomatonStates_ok_iff (states : Nat) :
    checkAutomatonStates states = .ok () ↔ minAutomatonStates ≤ states ∧ states ≤ maxStateCount := by
  unfold checkAutomatonStates
  rw [Result.accept_ok_iff]
  simp

namespace Automaton

open Cells (getD_setIfInBounds getD_eq_getElem count_setIfInBounds)

/-- A key of a state and a symbol of the alphabet. -/
structure InRange (d : Automaton) (key : Key) : Prop where
  state_lt : key.state < d.stateCount
  symbol_lt : key.symbol < d.input.size

/-- What every automaton keeps, whatever was done to it. -/
structure Sound (d : Automaton) : Prop where
  states : minAutomatonStates ≤ d.stateCount
  size_next : d.next.size = d.stateCount * d.input.size
  size_defined : d.defined.size = d.stateCount * d.input.size
  next_lt : ∀ slot < d.next.size, d.stateAt slot < d.stateCount
  loop : ∀ slot < d.next.size, d.definedAt slot = false → d.stateAt slot = slot / d.input.size
  acceptingCount_eq : d.acceptingCount = d.accepting.count true
  definedCount_eq : d.definedCount = d.defined.count true

section

variable {d : Automaton} {key : Key}

/-! ## Reading cells -/

theorem Sound.slot_lt_size (h : d.Sound) (hk : d.InRange key) : d.slot key < d.next.size := by
  rw [h.size_next]
  exact Cells.place_lt hk.state_lt hk.symbol_lt

theorem Sound.slot_lt_marks (h : d.Sound) (hk : d.InRange key) : d.slot key < d.defined.size := by
  rw [h.size_defined]
  exact Cells.place_lt hk.state_lt hk.symbol_lt

theorem slot_div (hk : d.InRange key) : d.slot key / d.input.size = key.state := Cells.place_div hk.symbol_lt

/-- **A transition leads to a state.** -/
theorem Sound.lookup_lt (h : d.Sound) (hk : d.InRange key) : d.lookup key < d.stateCount :=
  h.next_lt _ (h.slot_lt_size hk)

/-- **A transition that is not defined loops.** -/
theorem Sound.lookup_of_undefined (h : d.Sound) (hk : d.InRange key) (hd : d.definedAt (d.slot key) = false) :
    d.lookup key = key.state :=
  (h.loop _ (h.slot_lt_size hk) hd).trans (slot_div hk)

/-! ## When operations succeed -/

theorem checkState_ok_iff (d : Automaton) (state : Nat) : d.checkState state = .ok () ↔ state < d.stateCount := by
  unfold checkState
  rw [Result.accept_ok_iff]
  simp

theorem checkKey_ok_iff (d : Automaton) (key : Key) : d.checkKey key = .ok () ↔ d.InRange key := by
  unfold checkKey
  rw [Result.check_ok_iff, checkState_ok_iff, Result.refuse_ok_iff, Result.pure_ok_iff, Nat.not_le]
  simp only [and_true]
  exact ⟨fun ⟨hs, ha⟩ => ⟨hs, ha⟩, fun ⟨hs, ha⟩ => ⟨hs, ha⟩⟩

theorem nextState_ok_iff (d : Automaton) (key : Key) (state : Nat) :
    d.nextState key = .ok state ↔ d.InRange key ∧ d.lookup key = state := by
  unfold nextState
  rw [Result.check_ok_iff, checkKey_ok_iff, Result.pure_ok_iff]

theorem isAccepting_ok_iff (d : Automaton) (state : Nat) (accept : Bool) :
    d.isAccepting state = .ok accept ↔ state < d.stateCount ∧ d.accepts? state = accept := by
  unfold isAccepting
  rw [Result.check_ok_iff, checkState_ok_iff, Result.pure_ok_iff]

theorem setAccepting_ok_iff (d d' : Automaton) (state : Nat) (accept : Bool) :
    d.setAccepting state accept = .ok d' ↔ state < d.stateCount ∧ d.mark state accept = d' := by
  unfold setAccepting
  rw [Result.check_ok_iff, checkState_ok_iff, Result.pure_ok_iff]

/-- **A registration succeeds exactly for a key in range and a state, if the key is not defined or may be
overwritten.** -/
theorem put_ok_iff (d d' : Automaton) (key : Key) (next : Nat) (replace : Bool) :
    d.put key next replace = .ok d' ↔ d.InRange key ∧ next < d.stateCount ∧
      ¬ (d.definedAt (d.slot key) = true ∧ replace = false) ∧ d.define key next = d' := by
  unfold put
  simp only [Result.check_ok_iff, checkKey_ok_iff, Result.guard_ok_iff, Result.pure_ok_iff, Nat.not_le]

theorem putByName_ok_iff (d d' : Automaton) (state : Nat) (read : String) (next : Nat) (replace : Bool) :
    d.putByName state read next replace = .ok d' ↔
      ∃ symbol, d.input.indexOf? read = some symbol ∧ d.put ⟨state, symbol⟩ next replace = .ok d' := by
  unfold putByName
  cases d.input.indexOf? read with
  | none => simp [Result.fail]
  | some symbol => simp

theorem reset_ok_iff (d d' : Automaton) (key : Key) (old : Nat) :
    d.reset key = .ok (old, d') ↔ d.InRange key ∧ d.lookup key = old ∧ d.undefine key = d' := by
  unfold reset
  rw [Result.check_ok_iff, checkKey_ok_iff, Result.pure_ok_iff, Prod.mk.injEq]

theorem ofSymbols_ok_iff (states : Nat) (symbols : List String) (d : Automaton) :
    Automaton.ofSymbols states symbols = .ok d ↔ (minAutomatonStates ≤ states ∧ states ≤ maxStateCount) ∧
      ∃ input, InputAlphabet.ofList symbols = .ok input ∧ blankSlate states input = d := by
  unfold Automaton.ofSymbols
  rw [Result.check_ok_iff, checkAutomatonStates_ok_iff, Result.bind_ok_iff]
  simp only [Result.pure_ok_iff]

/-! ## Every operation keeps automata sound -/

theorem sound_blankSlate {states : Nat} {input : InputAlphabet} (hstates : minAutomatonStates ≤ states)
    (hinput : 1 ≤ input.size) : (blankSlate states input).Sound := by
  have hcount : (blankSlate states input).stateCount = states := Array.size_replicate
  have hsize : (blankSlate states input).next.size = states * input.size := Array.size_ofFn
  have hstateAt : ∀ slot, (blankSlate states input).stateAt slot = slot / input.size := by
    intro slot
    unfold stateAt blankSlate
    rw [Array.getD_eq_getD_getElem?, Array.getElem?_ofFn]
    split <;> rfl
  refine ⟨by rwa [hcount], by rwa [hcount], ?_, ?_, fun slot _ _ => hstateAt slot, ?_, ?_⟩
  · rw [hcount]
    exact Array.size_replicate
  · intro slot hslot
    rw [hsize] at hslot
    rw [hstateAt, hcount]
    exact (Nat.div_lt_iff_lt_mul hinput).2 hslot
  · show 0 = (Array.replicate states false).count true
    rw [Array.count_replicate]
    rfl
  · show 0 = (Array.replicate (states * input.size) false).count true
    rw [Array.count_replicate]
    rfl

/-- An automaton with the cell of a key, its mark and the count given anew. -/
def setCell (d : Automaton) (key : Key) (state : Nat) (mark : Bool) (count : Nat) : Automaton :=
  { d with
    next := d.next.setIfInBounds (d.slot key) state
    defined := d.defined.setIfInBounds (d.slot key) mark
    definedCount := count }

theorem define_eq_setCell (d : Automaton) (key : Key) (next : Nat) : d.define key next =
    d.setCell key next true (if d.definedAt (d.slot key) then d.definedCount else d.definedCount + 1) := rfl

theorem undefine_eq_setCell (d : Automaton) (key : Key) : d.undefine key =
    d.setCell key key.state false (if d.definedAt (d.slot key) then d.definedCount - 1 else d.definedCount) := rfl

theorem stateAt_setCell (h : d.slot key < d.next.size) (state : Nat) (mark : Bool) (count slot : Nat) :
    (d.setCell key state mark count).stateAt slot = if d.slot key = slot then state else d.stateAt slot :=
  getD_setIfInBounds d.next (d.slot key) slot state _ h

theorem definedAt_setCell (h : d.slot key < d.defined.size) (state : Nat) (mark : Bool) (count slot : Nat) :
    (d.setCell key state mark count).definedAt slot = if d.slot key = slot then mark else d.definedAt slot :=
  getD_setIfInBounds d.defined (d.slot key) slot mark false h

/-- **A sound automaton in which a cell and its mark are set is sound**, once the cell gets a state, and the key's own
if it is not marked, and the count moved as much as the mark did. -/
theorem Sound.setCell (h : d.Sound) (hk : d.InRange key) {state : Nat} (hstate : state < d.stateCount) {mark : Bool}
    (hloop : mark = false → state = key.state) {count : Nat}
    (hcount : count + (d.definedAt (d.slot key)).toNat = d.definedCount + mark.toNat) :
    (d.setCell key state mark count).Sound := by
  have hcell := h.slot_lt_size hk
  have hmark := h.slot_lt_marks hk
  refine ⟨h.states, Array.size_setIfInBounds.trans h.size_next, Array.size_setIfInBounds.trans h.size_defined, ?_, ?_,
    h.acceptingCount_eq, ?_⟩
  · intro slot hslot
    have hslot : slot < d.next.size := Nat.lt_of_lt_of_eq hslot Array.size_setIfInBounds
    rw [stateAt_setCell hcell]
    split
    · exact hstate
    · exact h.next_lt slot hslot
  · intro slot hslot hd
    have hslot : slot < d.next.size := Nat.lt_of_lt_of_eq hslot Array.size_setIfInBounds
    rw [definedAt_setCell hmark] at hd
    rw [stateAt_setCell hcell]
    by_cases hkey : d.slot key = slot
    · rw [if_pos hkey] at hd ⊢
      rw [hloop hd, ← hkey]
      exact (slot_div hk).symm
    · rw [if_neg hkey] at hd ⊢
      exact h.loop slot hslot hd
  · have hset := count_setIfInBounds d.defined (d.slot key) mark hmark
    rw [definedAt, h.definedCount_eq] at hcount
    show count = (d.defined.setIfInBounds (d.slot key) mark).count true
    omega

theorem Sound.define (h : d.Sound) (hk : d.InRange key) {next : Nat} (hnext : next < d.stateCount) :
    (d.define key next).Sound := by
  rw [define_eq_setCell]
  refine h.setCell hk hnext (fun hmark => by cases hmark) ?_
  cases d.definedAt (d.slot key) <;> rfl

/-- A transition that is defined is counted. -/
theorem Sound.one_le_definedCount (h : d.Sound) (hk : d.InRange key) (hd : d.definedAt (d.slot key) = true) :
    1 ≤ d.definedCount := by
  rw [h.definedCount_eq]
  refine Array.count_pos_iff.2 (Array.mem_iff_getElem.2 ⟨d.slot key, h.slot_lt_marks hk, ?_⟩)
  rw [← getD_eq_getElem _ _ false (h.slot_lt_marks hk)]
  exact hd

theorem Sound.undefine (h : d.Sound) (hk : d.InRange key) : (d.undefine key).Sound := by
  rw [undefine_eq_setCell]
  refine h.setCell hk hk.state_lt (fun _ => rfl) ?_
  cases hd : d.definedAt (d.slot key) with
  | false => rfl
  | true =>
    have hpos := h.one_le_definedCount hk hd
    simp only [if_true, Bool.toNat_true, Bool.toNat_false]
    omega

theorem stateCount_mark (d : Automaton) (state : Nat) (accept : Bool) :
    (d.mark state accept).stateCount = d.stateCount := by
  unfold mark
  split
  · rfl
  · exact Array.size_setIfInBounds

theorem Sound.mark (h : d.Sound) {state : Nat} (hstate : state < d.stateCount) (accept : Bool) :
    (d.mark state accept).Sound := by
  have hset := count_setIfInBounds d.accepting state accept hstate
  rw [← accepts?, ← h.acceptingCount_eq] at hset
  have hcount := stateCount_mark d state accept
  unfold Automaton.mark at hcount ⊢
  by_cases hsame : d.accepts? state = accept
  · rwa [if_pos hsame]
  · rw [if_neg hsame] at hcount ⊢
    refine ⟨?_, ?_, ?_, ?_, h.loop, ?_, h.definedCount_eq⟩
    · rw [hcount]
      exact h.states
    · rw [hcount]
      exact h.size_next
    · rw [hcount]
      exact h.size_defined
    · rw [hcount]
      exact h.next_lt
    · -- the mark changes, so it goes from one truth value to the other
      cases accept with
      | false =>
        have hwas : d.accepts? state = true := by simpa using hsame
        rw [hwas] at hset
        simp only [Bool.toNat_true, Bool.toNat_false, Bool.false_eq_true, if_false] at hset ⊢
        omega
      | true =>
        have hwas : d.accepts? state = false := by simpa using hsame
        rw [hwas] at hset
        simp only [Bool.toNat_true, Bool.toNat_false, if_true] at hset ⊢
        omega

end

/-! ## Histories -/

/-- What can be done to an automaton. -/
inductive Edit where
  | setAccepting (state : Nat) (accept : Bool)
  | put (key : Key) (next : Nat) (replace : Bool)
  | putByName (state : Nat) (read : String) (next : Nat) (replace : Bool)
  | reset (key : Key)
  deriving DecidableEq, Repr

/-- The automaton after an operation, which is as it was if the operation fails. -/
def edit (d : Automaton) : Edit → Automaton
  | .setAccepting state accept => (d.setAccepting state accept).getD d
  | .put key next replace => (d.put key next replace).getD d
  | .putByName state read next replace => (d.putByName state read next replace).getD d
  | .reset key => (Prod.snd <$> d.reset key).getD d

inductive Reachable : Automaton → Prop
  | blank {states : Nat} {symbols : List String} {d : Automaton} (h : Automaton.ofSymbols states symbols = .ok d) :
    Reachable d
  | edit {d : Automaton} (h : Reachable d) (e : Edit) : Reachable (d.edit e)

section

variable {d : Automaton}

/-- **What holds before an operation, and after each that may be done, holds after it.** -/
theorem edit_induct {P : Automaton → Prop} (d : Automaton) (h : P d)
    (mark : ∀ {state} accept, state < d.stateCount → P (d.mark state accept))
    (define : ∀ {key next}, d.InRange key → next < d.stateCount → P (d.define key next))
    (undefine : ∀ {key}, d.InRange key → P (d.undefine key)) (e : Edit) : P (d.edit e) := by
  have put : ∀ {key next replace d'}, d.put key next replace = .ok d' → P d' := by
    intro key next replace d' hput
    obtain ⟨hk, hnext, -, rfl⟩ := (put_ok_iff ..).1 hput
    exact define hk hnext
  cases e with
  | setAccepting state accept =>
    refine Result.getD_induct _ _ h (fun d' hd' => ?_)
    obtain ⟨hstate, rfl⟩ := (setAccepting_ok_iff ..).1 hd'
    exact mark accept hstate
  | put key next replace => exact Result.getD_induct _ _ h (fun d' hd' => put hd')
  | putByName state read next replace =>
    refine Result.getD_induct _ _ h (fun d' hd' => ?_)
    obtain ⟨symbol, -, hput⟩ := (putByName_ok_iff ..).1 hd'
    exact put hput
  | reset key =>
    refine Result.getD_induct _ _ h (fun d' hd' => ?_)
    obtain ⟨⟨old, d''⟩, hreset, rfl⟩ := (Result.map_ok_iff ..).1 hd'
    obtain ⟨hk, -, rfl⟩ := (reset_ok_iff ..).1 hreset
    exact undefine hk

theorem Sound.edit (h : d.Sound) (e : Edit) : (d.edit e).Sound :=
  edit_induct d h (fun accept hstate => h.mark hstate accept) (fun hk hnext => h.define hk hnext)
    (fun hk => h.undefine hk) e

theorem input_mark (d : Automaton) (state : Nat) (accept : Bool) : (d.mark state accept).input = d.input := by
  unfold mark
  split <;> rfl

theorem input_edit (d : Automaton) (e : Edit) : (d.edit e).input = d.input :=
  edit_induct (P := fun d' => d'.input = d.input) d rfl (fun accept _ => input_mark d _ accept) (fun _ _ => rfl)
    (fun _ => rfl) e

theorem Reachable.input_built (h : d.Reachable) : d.input.Built := by
  induction h with
  | blank h =>
    obtain ⟨-, input, hinput, rfl⟩ := (ofSymbols_ok_iff ..).1 h
    exact .inl ⟨_, hinput⟩
  | edit _ e ih =>
    rw [input_edit]
    exact ih

/-- **Every automaton a history leads to is sound.** -/
theorem Reachable.sound (h : d.Reachable) : d.Sound := by
  induction h with
  | blank h =>
    obtain ⟨hstates, input, hinput, rfl⟩ := (ofSymbols_ok_iff ..).1 h
    have hbuilt : input.Built := .inl ⟨_, hinput⟩
    exact sound_blankSlate hstates.1 hbuilt.unambiguous.size_pos
  | edit _ e ih => exact ih.edit e

theorem Reachable.edits : ∀ (es : List Edit) {d : Automaton}, d.Reachable → (es.foldl Automaton.edit d).Reachable
  | [], _, h => h
  | e :: es, _, h => Reachable.edits es (h.edit e)

end

end Automaton
end BoundedTuring
