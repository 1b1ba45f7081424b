import BoundedTuring.Proofs.Automaton.Verdict
import BoundedTuring.Proofs.Automaton.View
/-!
# One place at a time

Every call is about one place of an automaton: whether a state accepts, or what is defined for a key.  What it answers
depends on that place and on the bounds alone (`answer_congr`), and all other places stay as they are
(`Sound.noted?_edit`).  So calls about different places do not see each other and may be made in either order
(`Sound.edit_comm`), although they move the same counts: in a sound automaton the places tell the counts.
-/
namespace BoundedTuring
namespace Automaton

/-- A part of an automaton that a call is about. -/
inductive Place where
  | state (state : Nat)
  | cell (key : Key)
  deriving DecidableEq, Repr

/-- What is noted at a place: of a state itself, if it accepts, and of a key the state it was defined to lead to. -/
def noted? (d : Automaton) : Place → Option Nat
  | .state state => if d.accepts? state then some state else none
  | .cell key => d.at? key

/-- What a call gives: a reset the state that was in force, any other no more than that it succeeded. -/
def answer (d : Automaton) : Edit → Result (Option Nat)
  | .setAccepting state accept => (fun _ => none) <$> d.setAccepting state accept
  | .put key next replace => (fun _ => none) <$> d.put key next replace
  | .putByName state read next replace => (fun _ => none) <$> d.putByName state read next replace
  | .reset key => (fun given => some given.1) <$> d.reset key

namespace Edit

/-- The place a call is about; a registration under a name that is no symbol's is about none. -/
def place? (a : InputAlphabet) : Edit → Option Place
  | .setAccepting state _ => some (.state state)
  | .put key _ _ => some (.cell key)
  | .putByName state read _ _ => (a.indexOf? read).map (fun symbol => .cell ⟨state, symbol⟩)
  | .reset key => some (.cell key)

/-- What a call that succeeds leaves noted at its place. -/
def leaves : Edit → Option Nat
  | .setAccepting state accept => if accept then some state else none
  | .put _ next _ | .putByName _ _ next _ => some next
  | .reset _ => none

/-- Calls that are not about the same place. -/
def Apart (a : InputAlphabet) (e f : Edit) : Prop := ∀ p, e.place? a = some p → f.place? a ≠ some p

theorem Apart.symm {a : InputAlphabet} {e f : Edit} (h : Apart a e f) : Apart a f e := fun p hf he => h p he hf

end Edit

section

variable {d d' : Automaton} {key : Key} {e f : Edit}

/-! ## The places of an automaton -/

theorem noted?_mark {state : Nat} (hstate : state < d.stateCount) (accept : Bool) (p : Place) :
    (d.mark state accept).noted? p =
      if some (.state state) = some p then Edit.leaves (.setAccepting state accept) else d.noted? p := by
  cases p with
  | state q =>
    show (if (d.mark state accept).accepts? q then some q else none) = _
    rw [accepts?_mark hstate]
    by_cases hq : state = q
    · subst hq
      rw [if_pos rfl, if_pos rfl]
      rfl
    · have hplace : some (Place.state state) ≠ some (.state q) := by simpa using hq
      rw [if_neg hq, if_neg hplace]
      rfl
  | cell key => exact d.at?_mark state accept key

theorem Sound.noted?_define (h : d.Sound) (hk : d.InRange key) (next : Nat) (p : Place) :
    (d.define key next).noted? p = if some (.cell key) = some p then some next else d.noted? p := by
  cases p with
  | state q => rfl
  | cell k =>
    refine (h.at?_define hk next k).trans ?_
    simp [noted?, eq_comm]

theorem Sound.noted?_undefine (h : d.Sound) (hk : d.InRange key) (p : Place) :
    (d.undefine key).noted? p = if some (.cell key) = some p then none else d.noted? p := by
  cases p with
  | state q => rfl
  | cell k =>
    rw [undefine_eq_setCell]
    refine (h.at?_setCell hk k).trans ?_
    simp [noted?, eq_comm]

/-- **Sound automata with the same bounds are the same if the same is noted at all places.** -/
theorem Sound.ext_noted? (h : d.Sound) (h' : d'.Sound) (hinput : d.input = d'.input)
    (hstates : d.stateCount = d'.stateCount) (hnoted : ∀ p, d.noted? p = d'.noted? p) : d = d' := by
  refine h.ext h' hinput hstates (fun q _ => ?_) (fun key => hnoted (.cell key))
  have hq := hnoted (.state q)
  unfold noted? at hq
  cases hd : d.accepts? q <;> cases hd' : d'.accepts? q <;> simp [hd, hd'] at hq ⊢

theorem stateCount_edit (d : Automaton) (e : Edit) : (d.edit e).stateCount = d.stateCount :=
  edit_induct (P := fun d' => d'.stateCount = d.stateCount) d rfl (fun accept _ => stateCount_mark d _ accept)
    (fun _ _ => rfl) (fun _ => rfl) e

/-! ## One call -/

/-- **A call that fails changes nothing.** -/
theorem edit_of_error {err : Error} (h : d.answer e = .error err) : d.edit e = d := by
  cases e <;> rw [Automaton.edit, (Result.map_error_iff ..).1 h] <;> rfl

theorem noted?_edit_of_put (h : d.Sound) {next : Nat} {replace : Bool} (hput : d.put key next replace = .ok d')
    (p : Place) : d'.noted? p = if some (.cell key) = some p then some next else d.noted? p := by
  obtain ⟨hk, -, -, rfl⟩ := (put_ok_iff ..).1 hput
  exact h.noted?_define hk next p

/-- **A call that succeeds changes its place, and no other.** -/
theorem Sound.noted?_edit (h : d.Sound) {answer : Option Nat} (hok : d.answer e = .ok answer) (p : Place) :
    (d.edit e).noted? p = if e.place? d.input = some p then e.leaves else d.noted? p := by
  cases e with
  | setAccepting state accept =>
    obtain ⟨d', hd', -⟩ := (Result.map_ok_iff ..).1 hok
    rw [Automaton.edit, hd']
    obtain ⟨hstate, rfl⟩ := (setAccepting_ok_iff ..).1 hd'
    exact noted?_mark hstate accept p
  | put key next replace =>
    obtain ⟨d', hd', -⟩ := (Result.map_ok_iff ..).1 hok
    rw [Automaton.edit, hd']
    exact noted?_edit_of_put h hd' p
  | putByName state read next replace =>
    obtain ⟨d', hd', -⟩ := (Result.map_ok_iff ..).1 hok
    obtain ⟨symbol, hsymbol, hput⟩ := (putByName_ok_iff ..).1 hd'
    rw [Automaton.edit, hd', Edit.place?, hsymbol]
    exact noted?_edit_of_put h hput p
  | reset key =>
    obtain ⟨⟨old, d'⟩, hd', -⟩ := (Result.map_ok_iff ..).1 hok
    rw [Automaton.edit, hd']
    obtain ⟨hk, -, rfl⟩ := (reset_ok_iff ..).1 hd'
    exact h.noted?_undefine hk p

theorem checkState_congr (hstates : d.stateCount = d'.stateCount) (state : Nat) :
    d.checkState state = d'.checkState state := by
  unfold checkState
  rw [hstates]

theorem checkKey_congr (hinput : d.input = d'.input) (hstates : d.stateCount = d'.stateCount) (key : Key) :
    d.checkKey key = d'.checkKey key := by
  unfold checkKey
  rw [checkState_congr hstates, hinput]

theorem put_congr (hinput : d.input = d'.input) (hstates : d.stateCount = d'.stateCount) (hat : d.at? key = d'.at? key)
    (next : Nat) (replace : Bool) :
    d.answer (.put key next replace) = d'.answer (.put key next replace) := by
  show (fun _ => none) <$> d.put key next replace = (fun _ => none) <$> d'.put key next replace
  unfold put
  rw [← checkKey_congr hinput hstates, ← hstates]
  cases hcheck : d.checkKey key with
  | error err => rfl
  | ok _ =>
    have hk : d.InRange key := (checkKey_ok_iff ..).1 hcheck
    have hk' : d'.InRange key := ⟨hstates ▸ hk.state_lt, hinput ▸ hk.symbol_lt⟩
    have hdefined : d.definedAt (d.slot key) = d'.definedAt (d'.slot key) := by
      rw [Bool.eq_iff_iff, definedAt_iff_at? hk, definedAt_iff_at? hk', hat]
    rw [← hdefined]
    by_cases hnext : d.stateCount ≤ next
    · simp only [if_pos hnext]
      rfl
    · by_cases hrefused : d.definedAt (d.slot key) = true ∧ replace = false
      · simp only [if_neg hnext, if_pos hrefused]
        rfl
      · simp only [if_neg hnext, if_neg hrefused]
        rfl

/-- **What a call answers is settled by the bounds and by what is noted at its place.** -/
theorem Sound.answer_congr (h : d.Sound) (h' : d'.Sound) (hinput : d.input = d'.input)
    (hstates : d.stateCount = d'.stateCount) (hnoted : ∀ p, e.place? d.input = some p → d.noted? p = d'.noted? p) :
    d.answer e = d'.answer e := by
  cases e with
  | setAccepting state accept =>
    show (fun _ => none) <$> d.setAccepting state accept = (fun _ => none) <$> d'.setAccepting state accept
    unfold setAccepting
    rw [← checkState_congr hstates]
    cases d.checkState state <;> rfl
  | put key next replace => exact put_congr hinput hstates (hnoted (.cell key) rfl) next replace
  | putByName state read next replace =>
    show (fun _ => none) <$> d.putByName state read next replace =
      (fun _ => none) <$> d'.putByName state read next replace
    unfold putByName
    rw [← hinput]
    cases hsymbol : d.input.indexOf? read with
    | none => rfl
    | some symbol =>
      exact put_congr hinput hstates (hnoted (.cell ⟨state, symbol⟩) (by rw [Edit.place?, hsymbol]; rfl)) next replace
  | reset key =>
    show (fun given => some given.1) <$> d.reset key = (fun given => some given.1) <$> d'.reset key
    unfold reset
    rw [← checkKey_congr hinput hstates]
    cases hcheck : d.checkKey key with
    | error err => rfl
    | ok _ =>
      have hk : d.InRange key := (checkKey_ok_iff ..).1 hcheck
      have hk' : d'.InRange key := ⟨hstates ▸ hk.state_lt, hinput ▸ hk.symbol_lt⟩
      have hat : d.at? key = d'.at? key := hnoted (.cell key) rfl
      have hlookup : d.lookup key = d'.lookup key := by rw [h.lookup_eq hk, h'.lookup_eq hk', hat]
      rw [← hlookup]
      rfl

/-! ## Calls about different places -/

theorem Sound.noted?_edit_of_ne (h : d.Sound) {p : Place} (hp : e.place? d.input ≠ some p) :
    (d.edit e).noted? p = d.noted? p := by
  cases hanswer : d.answer e with
  | error err => rw [edit_of_error hanswer]
  | ok answer => rw [h.noted?_edit hanswer, if_neg hp]

theorem Sound.answer_edit (h : d.Sound) (hapart : Edit.Apart d.input e f) : (d.edit e).answer f = d.answer f := by
  refine (h.edit e).answer_congr h (input_edit d e) (stateCount_edit d e) fun p hf => ?_
  rw [input_edit] at hf
  exact h.noted?_edit_of_ne (hapart.symm p hf)

/-- **Calls about different places may be made in either order.** -/
theorem Sound.edit_comm (h : d.Sound) (hapart : Edit.Apart d.input e f) :
    (d.edit e).edit f = (d.edit f).edit e := by
  have hfe := h.answer_edit hapart
  have hef := h.answer_edit hapart.symm
  cases he : d.answer e with
  | error err => rw [edit_of_error he, edit_of_error (hef.trans he)]
  | ok _ =>
    cases hf : d.answer f with
    | error err => rw [edit_of_error hf, edit_of_error (hfe.trans hf)]
    | ok _ =>
      refine ((h.edit e).edit f).ext_noted? ((h.edit f).edit e) (by simp only [input_edit])
        (by simp only [stateCount_edit]) fun p => ?_
      rw [(h.edit e).noted?_edit (hfe.trans hf), (h.edit f).noted?_edit (hef.trans he), h.noted?_edit he,
        h.noted?_edit hf, input_edit, input_edit]
      by_cases hp : e.place? d.input = some p
      · rw [if_neg (hapart p hp), if_pos hp, if_pos hp]
      · rw [if_neg hp, if_neg hp]

/-! ## Registering and resetting -/

/-- **A registration is refused exactly if a state or the symbol is out of range, or if the key is defined and may not
be overwritten.** -/
theorem put_error_iff (d : Automaton) (key : Key) (next : Nat) (replace : Bool) :
    (∃ err, d.put key next replace = .error err) ↔ d.stateCount ≤ key.state ∨ d.input.size ≤ key.symbol ∨
      d.stateCount ≤ next ∨ (d.definedAt (d.slot key) = true ∧ replace = false) := by
  have hok := put_ok_iff d (d.define key next) key next replace
  constructor
  · rintro ⟨err, herr⟩
    by_contra hnot
    simp only [not_or, Nat.not_le] at hnot
    obtain ⟨hstate, hsymbol, hnext, hfree⟩ := hnot
    rw [hok.2 ⟨⟨hstate, hsymbol⟩, hnext, hfree, rfl⟩] at herr
    cases herr
  · intro hbad
    cases hput : d.put key next replace with
    | error err => exact ⟨err, rfl⟩
    | ok d' =>
      obtain ⟨hk, hnext, hfree, -⟩ := (put_ok_iff ..).1 hput
      rcases hbad with hstate | hsymbol | hnext' | hdefined
      · exact absurd hk.state_lt (Nat.not_lt.2 hstate)
      · exact absurd hk.symbol_lt (Nat.not_lt.2 hsymbol)
      · exact absurd hnext (Nat.not_lt.2 hnext')
      · exact absurd hdefined hfree

/-- **A reset takes a new registration back.** -/
theorem Sound.reset_of_put (h : d.Sound) {next : Nat} {replace : Bool} (hfree : d.definedAt (d.slot key) = false)
    (hput : d.put key next replace = .ok d') : d'.reset key = .ok (next, d) := by
  obtain ⟨hk, hnext, -, rfl⟩ := (put_ok_iff ..).1 hput
  have hsound := h.define hk hnext
  have hk' : (d.define key next).InRange key := ⟨hk.state_lt, hk.symbol_lt⟩
  refine (reset_ok_iff ..).2 ⟨hk', ?_, ?_⟩
  · rw [hsound.lookup_eq hk', h.at?_define hk, if_pos rfl]
    rfl
  · refine (hsound.undefine hk').ext_noted? h rfl rfl fun p => ?_
    rw [hsound.noted?_undefine hk', h.noted?_define hk]
    split
    · rename_i hp
      cases hp
      have hat : d.at? key = none := by
        rw [at?_of_inRange hk, hfree]
        rfl
      exact hat.symm
    · rfl

end

/-- **What every automaton keeps, whatever calls were made.**  Its counts are those of the marks, each of its
transitions leads to a state, and one that is not defined loops.  A registration is refused exactly if a state or the
symbol is out of range or if the key is defined and may not be overwritten, and a call that fails changes nothing.  A
reset takes a new registration back, and calls about different places may be made in either order without either
noticing. -/
theorem books_kept {d : Automaton} (h : d.Reachable) :
    (d.acceptingCount = d.accepting.count true ∧ d.definedCount = d.defined.count true ∧
      d.next.size = d.stateCount * d.input.size ∧ (∀ next ∈ d.next, next < d.stateCount) ∧
      ∀ state < d.stateCount, ∀ symbol < d.input.size, d.definedAt (d.slot ⟨state, symbol⟩) = false →
        d.lookup ⟨state, symbol⟩ = state) ∧
    (∀ key next replace, (∃ err, d.put key next replace = .error err) ↔
      d.stateCount ≤ key.state ∨ d.input.size ≤ key.symbol ∨ d.stateCount ≤ next ∨
        (d.definedAt (d.slot key) = true ∧ replace = false)) ∧
    (∀ e err, d.answer e = .error err → d.edit e = d) ∧
    (∀ key next replace d', d.definedAt (d.slot key) = false → d.put key next replace = .ok d' →
      d'.reset key = .ok (next, d)) ∧
    (∀ e f, Edit.Apart d.input e f → (d.edit e).edit f = (d.edit f).edit e ∧
      (d.edit e).answer f = d.answer f ∧ (d.edit f).answer e = d.answer e) := by
  have hsound := h.sound
  refine ⟨⟨hsound.acceptingCount_eq, hsound.definedCount_eq, hsound.size_next, ?leads,
      fun state hstate symbol hsymbol => hsound.lookup_of_undefined ⟨hstate, hsymbol⟩⟩,
    put_error_iff d, fun e err => edit_of_error, fun key next replace d' => hsound.reset_of_put,
    fun e f hapart => ⟨hsound.edit_comm hapart, hsound.answer_edit hapart, hsound.answer_edit hapart.symm⟩⟩
  case leads =>
    intro next hmem
    obtain ⟨slot, hslot, rfl⟩ := Array.mem_iff_getElem.1 hmem
    have hlt := hsound.next_lt slot hslot
    rwa [stateAt, Cells.getD_eq_getElem _ _ _ hslot] at hlt

/-- A defined key is not overwritten, a new registration is taken back, and a registration and a reset elsewhere may be
made in either order. -/
theorem parity_books :
    let d := parity
    d.Reachable ∧ (∀ state < d.stateCount, ∀ symbol < d.input.size, d.definedAt (d.slot ⟨state, symbol⟩) = false →
        d.lookup ⟨state, symbol⟩ = state) ∧
      (∃ err, d.put ⟨1, 1⟩ 1 false = .error err) ∧ d.edit (.put ⟨1, 1⟩ 1 false) = d ∧
      (∃ d', d.put ⟨1, 0⟩ 0 false = .ok d' ∧ d'.reset ⟨1, 0⟩ = .ok (0, d)) ∧
      (d.edit (.put ⟨0, 0⟩ 1 false)).edit (.reset ⟨1, 1⟩) = (d.edit (.reset ⟨1, 1⟩)).edit (.put ⟨0, 0⟩ 1 false) := by
  intro d
  obtain ⟨⟨-, -, -, -, hloops⟩, hrefused, hunchanged, htaken, hcomm⟩ := books_kept reachable_parity
  have hbad : ∃ err, d.put ⟨1, 1⟩ 1 false = .error err :=
    (hrefused ⟨1, 1⟩ 1 false).2 (.inr (.inr (.inr (by decide +kernel))))
  refine ⟨reachable_parity, hloops, hbad, ?_, ?_, (hcomm _ _ ?_).1⟩
  · obtain ⟨err, herr⟩ := hbad
    refine hunchanged _ err ?_
    show (fun _ => none) <$> d.put ⟨1, 1⟩ 1 false = _
    rw [herr]
    rfl
  · have hput : d.put ⟨1, 0⟩ 0 false = .ok (d.define ⟨1, 0⟩ 0) := by decide +kernel
    exact ⟨_, hput, htaken _ _ _ _ (by decide +kernel) hput⟩
  · rintro p ⟨⟩
    decide

end Automaton
end BoundedTuring
