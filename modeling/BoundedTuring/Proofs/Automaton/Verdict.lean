import BoundedTuring.Proofs.Automaton.Soundness
/-!
# Verdicts

Reading an input goes from state to state by the transitions in force (`reach`), and the state it ends in accepts or
does not.  Three counts can settle the answer before anything is read: no state accepts, all do, or no transition is
defined and the input ends where it starts.  In a sound automaton the counts are right, so that is the answer reading
would have given (`Sound.accepts?_of_foregone`).
-/
namespace BoundedTuring

namespace Automaton

/-- The state that a word leads to from another, one transition at a time. -/
def stateAfter (d : Automaton) (state : Nat) (w : Word) : Result Nat :=
  w.foldlM (fun state symbol => d.nextState ⟨state, symbol⟩) state

/-- The same, by the transitions in force and without checks. -/
def reach (d : Automaton) (state : Nat) (w : Word) : Nat :=
  w.foldl (fun state symbol => d.lookup ⟨state, symbol⟩) state

/-- Whether the counts settle the answer for every input. -/
def Settled (d : Automaton) : Prop := d.acceptingCount = 0 ∨ d.acceptingCount = d.stateCount ∨ d.definedCount = 0

instance (d : Automaton) : Decidable d.Settled :=
  inferInstanceAs (Decidable (d.acceptingCount = 0 ∨ d.acceptingCount = d.stateCount ∨ d.definedCount = 0))

def outcome (accepted : Bool) : Outcome := if accepted then .accepted else .rejected

section

variable {d : Automaton} {state : Nat} {input : Word}

/-! ## Reading -/

theorem reach_append (d : Automaton) (state : Nat) (u v : Word) :
    d.reach state (u ++ v) = d.reach (d.reach state u) v := List.foldl_append

/-- **What is read does not leave the states.** -/
theorem Sound.reach_lt (h : d.Sound) : ∀ (input : Word) {state : Nat}, (∀ s ∈ input, s < d.input.size) →
    state < d.stateCount → d.reach state input < d.stateCount
  | [], _, _, hstate => hstate
  | _ :: input, _, hinput, hstate => by
    obtain ⟨hs, hrest⟩ := List.forall_mem_cons.1 hinput
    exact Sound.reach_lt h input hrest (h.lookup_lt ⟨hstate, hs⟩)

theorem Sound.stateAfter_eq (h : d.Sound) : ∀ (input : Word) {state : Nat}, (∀ s ∈ input, s < d.input.size) →
    state < d.stateCount → d.stateAfter state input = .ok (d.reach state input)
  | [], _, _, _ => rfl
  | s :: input, state, hinput, hstate => by
    obtain ⟨hs, hrest⟩ := List.forall_mem_cons.1 hinput
    have hk : d.InRange ⟨state, s⟩ := ⟨hstate, hs⟩
    unfold stateAfter
    rw [List.foldlM_cons, (nextState_ok_iff ..).2 ⟨hk, rfl⟩]
    exact Sound.stateAfter_eq h input hrest (h.lookup_lt hk)

/-- The configurations that the rest of an input leads to. -/
def path (d : Automaton) (tape : Array Nat) : Nat → Nat → Word → List Configuration
  | _, _, [] => []
  | state, head, symbol :: rest =>
    snapshot tape (d.lookup ⟨state, symbol⟩) (head + 1) :: d.path tape (d.lookup ⟨state, symbol⟩) (head + 1) rest

/-- **Who watches an input being read sees its path.** -/
theorem watchRest_eq {σ : Type} (observe : σ → Configuration → σ) (d : Automaton) (tape : Array Nat) :
    ∀ (rest : Word) (state head : Nat) (seen : σ), watchRest observe d tape state head rest seen =
      (d.reach state rest, (d.path tape state head rest).foldl observe seen)
  | [], _, _, _ => rfl
  | _ :: rest, _, head, _ => watchRest_eq observe d tape rest _ (head + 1) _

theorem watchAll_eq {σ : Type} (observe : σ → Configuration → σ) (d : Automaton) (input : Word) (state : Nat)
    (seen : σ) : d.watchAll observe input state seen = ((d.accepts? (d.reach state input), input.length),
      (snapshot input.toArray state 0 :: d.path input.toArray state 0 input).foldl observe seen) := by
  unfold watchAll
  dsimp only
  rw [watchRest_eq, List.foldl_cons]

/-! ## What the counts settle -/

theorem foregone?_eq_none_iff (d : Automaton) : d.foregone? = none ↔ ¬ d.Settled := by
  unfold foregone? Settled
  by_cases hnone : d.acceptingCount = 0
  · simp [hnone]
  · by_cases hall : d.acceptingCount = d.stateCount
    · rw [if_neg hnone, if_pos hall]
      simp [hall]
    · by_cases hloops : d.definedCount = 0 <;> simp [hnone, hall, hloops]

/-- Where no transition is defined an input ends where it starts. -/
theorem Sound.reach_of_undefined (h : d.Sound) (hzero : d.definedCount = 0) : ∀ (input : Word) {state : Nat},
    (∀ s ∈ input, s < d.input.size) → state < d.stateCount → d.reach state input = state
  | [], _, _, _ => rfl
  | s :: input, state, hinput, hstate => by
    obtain ⟨hs, hrest⟩ := List.forall_mem_cons.1 hinput
    have hk : d.InRange ⟨state, s⟩ := ⟨hstate, hs⟩
    have hundefined : d.definedAt (d.slot ⟨state, s⟩) = false := by
      rw [Bool.eq_false_iff]
      intro hd
      have hpos := h.one_le_definedCount hk hd
      omega
    have hstep : d.reach state (s :: input) = d.reach (d.lookup ⟨state, s⟩) input := rfl
    rw [hstep, h.lookup_of_undefined hk hundefined]
    exact Sound.reach_of_undefined h hzero input hrest hstate

theorem Sound.not_accepts?_of_none (h : d.Sound) (hnone : d.acceptingCount = 0) (hstate : state < d.stateCount) :
    d.accepts? state = false := by
  rw [h.acceptingCount_eq, Array.count_eq_zero] at hnone
  have hget : d.accepts? state = d.accepting[state] := Cells.getD_eq_getElem _ _ _ hstate
  rw [hget, Bool.eq_false_iff]
  intro htrue
  exact hnone (Array.mem_iff_getElem.2 ⟨state, hstate, htrue⟩)

theorem Sound.accepts?_of_all (h : d.Sound) (hall : d.acceptingCount = d.stateCount) (hstate : state < d.stateCount) :
    d.accepts? state = true := by
  have hsize : d.accepting.count true = d.accepting.size := h.acceptingCount_eq.symm.trans hall
  have hget : d.accepts? state = d.accepting[state] := Cells.getD_eq_getElem _ _ _ hstate
  rw [hget]
  exact (Array.count_eq_size.1 hsize _ (Array.getElem_mem hstate)).symm

/-- **What the counts settle is what reading would find.** -/
theorem Sound.accepts?_of_foregone (h : d.Sound) {answer : Bool} (hanswer : d.foregone? = some answer)
    (hinput : ∀ s ∈ input, s < d.input.size) : d.accepts? (d.reach 0 input) = answer := by
  have hlast := h.reach_lt input hinput h.states
  unfold foregone? at hanswer
  split at hanswer
  · rename_i hnone
    cases hanswer
    exact h.not_accepts?_of_none hnone hlast
  split at hanswer
  · rename_i hall
    cases hanswer
    exact h.accepts?_of_all hall hlast
  split at hanswer
  · rename_i hloops
    cases hanswer
    rw [h.reach_of_undefined hloops input hinput h.states]
  · cases hanswer

/-- Where the counts settle the answer it is that of the first state. -/
theorem Sound.accepts?_of_settled (h : d.Sound) (hsettled : d.Settled) (hinput : ∀ s ∈ input, s < d.input.size) :
    d.accepts? (d.reach 0 input) = d.accepts? 0 := by
  cases hforegone : d.foregone? with
  | none => exact absurd hsettled ((foregone?_eq_none_iff d).1 hforegone)
  | some answer =>
    -- the empty word ends where it starts, and the answer is the same for all words
    have hempty : d.accepts? (d.reach 0 []) = answer := h.accepts?_of_foregone hforegone nofun
    exact (h.accepts?_of_foregone hforegone hinput).trans hempty.symm

/-! ## Verdicts -/

theorem checkInput_of_over (d : Automaton) (hinput : ∀ s ∈ input, s < d.input.size) : d.checkInput input = .ok () := by
  unfold checkInput
  rw [if_pos ((d.input.containsAll_iff input).2 hinput)]

theorem checkInput_of_foreign (d : Automaton) (hforeign : ∃ s ∈ input, d.input.size ≤ s) :
    d.checkInput input = .error (.ofFault (.foreignInput input d.input.size)) := by
  unfold checkInput
  rw [(d.input.containsAll_eq_false_iff input).2 hforeign]
  rfl

/-- What is seen of an input: how it starts, and what it leads to if the counts don't settle the answer. -/
def shown (d : Automaton) (input : Word) : List Configuration :=
  snapshot input.toArray 0 0 :: if d.Settled then [] else d.path input.toArray 0 0 input

/-- **Watched or not, an input is decided by the state it leads to**, and read only if the counts don't settle it. -/
theorem Sound.watch_eq {σ : Type} (observe : σ → Configuration → σ) (h : d.Sound)
    (hinput : ∀ s ∈ input, s < d.input.size) (seen : σ) : d.watch observe input seen =
      .ok ((d.accepts? (d.reach 0 input), if d.Settled then 0 else input.length),
        (d.shown input).foldl observe seen) := by
  unfold watch shown
  rw [d.checkInput_of_over hinput]
  cases hforegone : d.foregone? with
  | some answer =>
    -- an answer was found before reading, so one of the counts gave it
    have hsettled : d.Settled := by
      by_contra hnot
      rw [(foregone?_eq_none_iff d).2 hnot] at hforegone
      cases hforegone
    rw [if_pos hsettled, if_pos hsettled, h.accepts?_of_foregone hforegone hinput]
    rfl
  | none =>
    have hnot := (foregone?_eq_none_iff d).1 hforegone
    rw [if_neg hnot, if_neg hnot, ← watchAll_eq]
    rfl

theorem Sound.watch_ok {σ : Type} (observe : σ → Configuration → σ) (h : d.Sound)
    (hinput : ∀ s ∈ input, s < d.input.size) (seen : σ) : ∃ seen', d.watch observe input seen =
      .ok ((d.accepts? (d.reach 0 input), if d.Settled then 0 else input.length), seen') :=
  ⟨_, h.watch_eq observe hinput seen⟩

theorem watch_of_foreign {σ : Type} (observe : σ → Configuration → σ) (d : Automaton)
    (hforeign : ∃ s ∈ input, d.input.size ≤ s) (seen : σ) :
    d.watch observe input seen = .error (.ofFault (.foreignInput input d.input.size)) := by
  unfold watch
  rw [d.checkInput_of_foreign hforeign]
  rfl

theorem Sound.watchInput_eq {σ : Type} (observe : σ → Configuration → σ) (h : d.Sound)
    (hinput : ∀ s ∈ input, s < d.input.size) (limits : Limits) (seen : σ) :
    Decider.watchInput observe d input limits seen =
      .ok (⟨outcome (d.accepts? (d.reach 0 input)), if d.Settled then 0 else input.length, none⟩,
        (d.shown input).foldl observe seen) :=
  (Result.bind_ok_iff ..).2 ⟨_, h.watch_eq observe hinput seen, rfl⟩

theorem Sound.watchInput_ok {σ : Type} (observe : σ → Configuration → σ) (h : d.Sound)
    (hinput : ∀ s ∈ input, s < d.input.size) (limits : Limits) (seen : σ) :
    ∃ seen', Decider.watchInput observe d input limits seen =
      .ok (⟨outcome (d.accepts? (d.reach 0 input)), if d.Settled then 0 else input.length, none⟩, seen') :=
  ⟨_, h.watchInput_eq observe hinput limits seen⟩

theorem acceptsFrom_of_over (d : Automaton) (hstate : state < d.stateCount) (hinput : ∀ s ∈ input, s < d.input.size) :
    d.acceptsFrom input state = .ok (d.accepts? (d.reach state input), input.length) := by
  unfold acceptsFrom
  rw [(checkState_ok_iff d state).2 hstate, d.checkInput_of_over hinput, watchAll_eq]
  rfl

end

/-- **Answering without reading never changes the answer.**  Whatever was done to an automaton, an input over its
alphabet is accepted if the state it leads to accepts, and it counts as read only if none of the counts settles the
answer.  Any other input is refused, also where the counts would settle it.  From any state, reading an input is reading
its first part and then the rest. -/
theorem shortcuts_agree {d : Automaton} (h : d.Reachable) :
    (∀ input : Word, (∀ s ∈ input, s < d.input.size) → ∃ last accepted,
      d.stateAfter 0 input = .ok last ∧ d.isAccepting last = .ok accepted ∧
      d.acceptsFrom input 0 = .ok (accepted, input.length) ∧
      d.accepts input = .ok (accepted, if d.Settled then 0 else input.length) ∧
      ∀ limits, Decider.runInput d input limits =
        .ok ⟨outcome accepted, if d.Settled then 0 else input.length, none⟩) ∧
    (∀ input : Word, (∃ s ∈ input, d.input.size ≤ s) →
      let refusal := Error.ofFault (.foreignInput input d.input.size)
      d.accepts input = .error refusal ∧ (∀ limits, Decider.runInput d input limits = .error refusal) ∧
      ∀ state < d.stateCount, d.acceptsFrom input state = .error refusal) ∧
    (∀ state < d.stateCount, ∀ u v : Word, (∀ s ∈ u, s < d.input.size) → (∀ s ∈ v, s < d.input.size) →
      ∃ middle accepted, d.stateAfter state u = .ok middle ∧
        d.acceptsFrom (u ++ v) state = .ok (accepted, u.length + v.length) ∧
        d.acceptsFrom v middle = .ok (accepted, v.length)) := by
  have hsound := h.sound
  refine ⟨?inside, ?foreign, ?parts⟩
  case inside =>
    intro input hinput
    have hlast := hsound.reach_lt input hinput hsound.states
    refine ⟨d.reach 0 input, d.accepts? (d.reach 0 input), hsound.stateAfter_eq input hinput hsound.states,
      (isAccepting_ok_iff ..).2 ⟨hlast, rfl⟩, d.acceptsFrom_of_over hsound.states hinput, ?_, fun limits => ?_⟩
    · obtain ⟨seen, hwatch⟩ := hsound.watch_ok (fun _ _ => ()) hinput ()
      unfold accepts
      rw [hwatch]
      rfl
    · obtain ⟨seen, hwatch⟩ := hsound.watchInput_ok (fun _ _ => ()) hinput limits ()
      unfold Decider.runInput
      rw [hwatch]
      rfl
  case foreign =>
    intro input hforeign refusal
    have hwatch := watch_of_foreign (fun _ _ => ()) d hforeign ()
    refine ⟨?_, fun limits => ?_, fun state hstate => ?_⟩
    · unfold accepts
      rw [hwatch]
      rfl
    · show ((d.watch (fun _ _ => ()) input () >>= _) >>= _) = _
      rw [hwatch]
      rfl
    · unfold acceptsFrom
      rw [(checkState_ok_iff d state).2 hstate, d.checkInput_of_foreign hforeign]
      rfl
  case parts =>
    intro state hstate u v hu hv
    have hmiddle := hsound.reach_lt u hu hstate
    have hboth : ∀ s ∈ u ++ v, s < d.input.size := List.forall_mem_append.2 ⟨hu, hv⟩
    refine ⟨d.reach state u, d.accepts? (d.reach (d.reach state u) v), hsound.stateAfter_eq u hu hstate, ?_,
      d.acceptsFrom_of_over hmiddle hv⟩
    rw [d.acceptsFrom_of_over hstate hboth, reach_append, List.length_append]

/-! ## An automaton that counts -/

/-- Accepts the words with an even number of the second of two symbols.  One registration was refused. -/
def parity : Automaton :=
  [.setAccepting 0 true, .putByName 0 "b" 1 false, .put ⟨1, 1⟩ 0 false, .put ⟨1, 1⟩ 1 false].foldl Automaton.edit
    (blankSlate 2 ⟨#["a", "b"]⟩)

theorem reachable_parity : parity.Reachable := by
  have hinput : InputAlphabet.ofList ["a", "b"] = .ok ⟨#["a", "b"]⟩ :=
    Alphabet.ofListAvoiding_of_ordered [] rfl (by decide) (by decide) (by decide)
  have hblank : (blankSlate 2 ⟨#["a", "b"]⟩).Reachable :=
    .blank ((ofSymbols_ok_iff 2 ["a", "b"] _).2 ⟨by decide, _, hinput, rfl⟩)
  exact hblank.edits _

/-- Once the other state accepts too nothing is read, yet a foreign symbol is still refused; before that, an input is
read in two parts as it is in one. -/
theorem parity_shortcut :
    let d := parity.edit (.setAccepting 1 true)
    d.Reachable ∧ parity.Reachable ∧ (∀ s ∈ [1, 0, 1, 1], s < d.input.size) ∧ d.Settled ∧
      (∃ last accepted, d.stateAfter 0 [1, 0, 1, 1] = .ok last ∧ d.isAccepting last = .ok accepted ∧
        d.acceptsFrom [1, 0, 1, 1] 0 = .ok (accepted, 4) ∧ d.accepts [1, 0, 1, 1] = .ok (accepted, 0)) ∧
      (∃ s ∈ [0, 2], d.input.size ≤ s) ∧ d.accepts [0, 2] = .error (.ofFault (.foreignInput [0, 2] d.input.size)) ∧
      ∃ middle accepted, parity.stateAfter 1 [1, 0] = .ok middle ∧
        parity.acceptsFrom [1, 0, 1] 1 = .ok (accepted, 3) ∧ parity.acceptsFrom [1] middle = .ok (accepted, 1) := by
  intro d
  have hover : ∀ s ∈ [1, 0, 1, 1], s < d.input.size := by decide +kernel
  have hforeign : ∃ s ∈ [0, 2], d.input.size ≤ s := by decide +kernel
  have hsettled : d.Settled := by decide +kernel
  have hreachable : d.Reachable := reachable_parity.edit (.setAccepting 1 true)
  obtain ⟨hread, hrefuse, -⟩ := shortcuts_agree hreachable
  obtain ⟨last, accepted, hlast, haccepting, hfrom, haccepts, -⟩ := hread [1, 0, 1, 1] hover
  rw [if_pos hsettled] at haccepts
  refine ⟨hreachable, reachable_parity, hover, hsettled, ⟨last, accepted, hlast, haccepting, hfrom, haccepts⟩, hforeign,
    (hrefuse [0, 2] hforeign).1, ?_⟩
  exact (shortcuts_agree reachable_parity).2.2 1 (by decide +kernel) [1, 0] [1] (by decide +kernel) (by decide +kernel)

end Automaton
end BoundedTuring
