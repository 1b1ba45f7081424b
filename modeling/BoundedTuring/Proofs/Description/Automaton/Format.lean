import BoundedTuring.Description.Automaton
import BoundedTuring.Proofs.Automaton.View
import BoundedTuring.Proofs.Description.Entries
/-!
# The format of automaton descriptions

As for machines, `Written` says line by line which descriptions are in the format and what they describe, in terms of
fields and numerals alone.  Each reader of a line accepts exactly the lines of its kind.  A state is refused on the line
of accepting states if it accepts already, so by its number and not by its numeral.
-/
namespace BoundedTuring
namespace AutomatonDescription

open Text (HasFields IsNumeral)

/-! ## The lines -/

/-- The line with the numbers of states, of input symbols, of accepting states and of transitions. -/
structure HeaderLine (line : List Char) (states inputSize acceptingCount transitionCount : Nat) : Prop where
  fields : ∃ n m a c, HasFields line [n, m, a, c] ∧ IsNumeral n states ∧ IsNumeral m inputSize ∧
    IsNumeral a acceptingCount ∧ IsNumeral c transitionCount
  states_range : minAutomatonStates ≤ states ∧ states ≤ maxStateCount
  accepting_le : acceptingCount ≤ states

/-- The line with the symbols from which the input alphabet is made. -/
def SymbolsLine (line : List Char) (inputSize : Nat) (input : InputAlphabet) : Prop :=
  ∃ names, HasFields line names ∧ names.length = inputSize ∧ InputAlphabet.ofList names = .ok input

/-- The line of the accepting states of an automaton with some number of states, in the order in which they are listed.
It is empty if there are none. -/
inductive AcceptingLine (states : Nat) : List Char → List Nat → Prop
  | none : AcceptingLine states [] []
  | some {line : List Char} {fields : List String} {accepting : List Nat} (hfields : HasFields line fields)
    (hall : List.Forall₂ IsNumeral fields accepting) (hnodup : accepting.Nodup) (hlt : ∀ q ∈ accepting, q < states) :
    AcceptingLine states line accepting

/-- The line of a transition. -/
structure TransitionLine (input : InputAlphabet) (states : Nat) (line : List Char) (e : Key × Nat) : Prop where
  fields : ∃ q read r, HasFields line [q, read, r] ∧ IsNumeral q e.1.state ∧ input.symbols[e.1.symbol]? = some read ∧
    IsNumeral r e.2
  state_lt : e.1.state < states
  next_lt : e.2 < states

/-- The lines after the transitions: none, or a settings line, which may be empty, and comments. -/
inductive Ending (a : InputAlphabet) (number : Nat) : List (List Char) → SimulationConfig → List (List Char) → Prop
  | absent : Ending a number [] .standard []
  | empty (comments : List (List Char)) : Ending a number ([] :: comments) .standard comments
  | settings {line : List Char} {c : SimulationConfig} (comments : List (List Char))
    (h : Settings.readAutomaton a ⟨number, line⟩ = .ok c) : Ending a number (line :: comments) c comments

/-! ## The whole -/

/-- What a description says. -/
structure Contents where
  states : Nat
  input : InputAlphabet
  /-- The accepting states in the order in which they are listed. -/
  accepting : List Nat
  /-- The transitions in the order of their lines. -/
  transitions : List (Key × Nat)
  config : SimulationConfig
  comments : List (List Char)

/-- The lines of a description with certain contents. -/
def Written (lines : List (List Char)) (c : Contents) : Prop :=
  ∃ header symbols accepting body rest inputSize,
    lines = header :: symbols :: accepting :: (body ++ rest) ∧
    HeaderLine header c.states inputSize c.accepting.length body.length ∧
    SymbolsLine symbols inputSize c.input ∧
    AcceptingLine c.states accepting c.accepting ∧
    List.Forall₂ (TransitionLine c.input c.states) body c.transitions ∧
    (c.transitions.map Prod.fst).Nodup ∧
    Ending c.input (4 + body.length) rest c.config c.comments

/-! ## Reading the first lines -/

theorem readHeader_ok_iff (line : Line) (h : Header) : readHeader line = .ok h ↔
    HeaderLine line.text h.states h.inputSize h.acceptingCount h.transitionCount := by
  unfold readHeader
  rw [Result.bind_ok_iff]
  constructor
  · rintro ⟨fields, hfields, hread⟩
    rw [Line.fields_ok_iff] at hfields
    split at hread
    · rename_i n m a c
      simp only [Result.bind_ok_iff, Line.readNumber_ok_iff, Line.check_ok_iff] at hread
      obtain ⟨states, hn, inputSize, hm, acceptingCount, ha, transitionCount, hc, _, hstates, hread⟩ := hread
      split at hread
      · simp at hread
      · rename_i haccepting
        obtain rfl := (Result.pure_ok_iff ..).1 hread
        exact ⟨⟨n, m, a, c, hfields, hn, hm, ha, hc⟩, (checkAutomatonStates_ok_iff states).1 hstates,
          Nat.le_of_not_lt haccepting⟩
    · simp at hread
  · rintro ⟨⟨n, m, a, c, hfields, hn, hm, ha, hc⟩, hrange, haccepting⟩
    have hstates := (checkAutomatonStates_ok_iff h.states).2 hrange
    refine ⟨[n, m, a, c], (Line.fields_ok_iff ..).2 hfields, ?_⟩
    simp only [Result.bind_ok_iff, Line.readNumber_ok_iff, Line.check_ok_iff]
    refine ⟨h.states, hn, h.inputSize, hm, h.acceptingCount, ha, h.transitionCount, hc, (), hstates, ?_⟩
    rw [if_neg (Nat.not_lt.2 haccepting), Result.pure_ok_iff]

theorem readSymbols_ok_iff (h : Header) (line : Line) (d : Automaton)
    (hstates : minAutomatonStates ≤ h.states ∧ h.states ≤ maxStateCount) :
    readSymbols h line = .ok d ↔
      ∃ input, SymbolsLine line.text h.inputSize input ∧ Automaton.blankSlate h.states input = d := by
  unfold readSymbols SymbolsLine
  simp only [Result.bind_ok_iff, Line.fieldsOf_ok_iff, Line.check_ok_iff, Automaton.ofSymbols_ok_iff]
  constructor
  · rintro ⟨names, ⟨hfields, hlength⟩, -, input, hinput, hd⟩
    exact ⟨input, ⟨names, hfields, hlength, hinput⟩, hd⟩
  · rintro ⟨input, ⟨names, hfields, hlength, hinput⟩, hd⟩
    exact ⟨names, ⟨hfields, hlength⟩, hstates, input, hinput, hd⟩

/-! ## Reading accepting states -/

/-- Makes states accepting. -/
def acceptAll (d : Automaton) (states : List Nat) : Automaton :=
  states.foldl (fun d state => d.edit (.setAccepting state true)) d

section Accepting

variable {d : Automaton}

/-- A state is made accepting if it is one and does not accept yet. -/
theorem acceptEach_cons_ok_iff (line : Line) (d d' : Automaton) (text : String) (rest : List String) :
    acceptEach line d (text :: rest) = .ok d' ↔ ∃ q, IsNumeral text q ∧ q < d.stateCount ∧ d.accepts? q = false ∧
      acceptEach line (d.edit (.setAccepting q true)) rest = .ok d' := by
  rw [acceptEach]
  simp only [Result.bind_ok_iff, Line.readNumber_ok_iff, Line.check_ok_iff, Automaton.isAccepting_ok_iff]
  refine exists_congr fun q => and_congr_right fun _ => ?_
  constructor
  · rintro ⟨accepting, ⟨hlt, rfl⟩, hread⟩
    split at hread
    · simp at hread
    · rename_i hnot
      simp only [Result.bind_ok_iff, Line.check_ok_iff, Automaton.setAccepting_ok_iff] at hread
      obtain ⟨_, ⟨-, rfl⟩, hread⟩ := hread
      exact ⟨hlt, by simpa using hnot, by rwa [Automaton.edit_setAccepting hlt]⟩
  · rintro ⟨hlt, hnot, hread⟩
    refine ⟨false, ⟨hlt, hnot⟩, ?_⟩
    rw [if_neg Bool.false_ne_true]
    simp only [Result.bind_ok_iff, Line.check_ok_iff, Automaton.setAccepting_ok_iff]
    exact ⟨_, ⟨hlt, rfl⟩, by rwa [← Automaton.edit_setAccepting hlt]⟩

/-- **States are made accepting from numerals of different states that do not accept yet.** -/
theorem acceptEach_ok_iff (line : Line) : ∀ (texts : List String) (d d' : Automaton),
    acceptEach line d texts = .ok d' ↔ ∃ accepting, List.Forall₂ IsNumeral texts accepting ∧ accepting.Nodup ∧
      (∀ q ∈ accepting, q < d.stateCount ∧ d.accepts? q = false) ∧ acceptAll d accepting = d'
  | [], d, d' => by
    simp only [acceptEach, Except.ok.injEq, List.forall₂_nil_left_iff, exists_eq_left]
    exact ⟨fun hd => ⟨List.nodup_nil, nofun, hd⟩, fun h => h.2.2⟩
  | text :: texts, d, d' => by
    have hmark : ∀ {q : Nat}, q < d.stateCount → ∀ p : Nat,
        (p < (d.edit (.setAccepting q true)).stateCount ∧ (d.edit (.setAccepting q true)).accepts? p = false) ↔
          p ≠ q ∧ p < d.stateCount ∧ d.accepts? p = false := by
      intro q hq p
      rw [Automaton.edit_setAccepting hq, Automaton.stateCount_mark, Automaton.accepts?_mark hq]
      by_cases hp : q = p
      · simp [hp]
      · simp [hp, Ne.symm hp]
    rw [acceptEach_cons_ok_iff]
    simp only [acceptEach_ok_iff line texts]
    constructor
    · rintro ⟨q, htext, hlt, hnot, accepting, hall, hnodup, hrest, hd⟩
      have hrest := fun p hp => (hmark hlt p).1 (hrest p hp)
      exact ⟨q :: accepting, .cons htext hall, List.nodup_cons.2 ⟨fun hq => (hrest q hq).1 rfl, hnodup⟩,
        List.forall_mem_cons.2 ⟨⟨hlt, hnot⟩, fun p hp => (hrest p hp).2⟩, hd⟩
    · rintro ⟨accepting, hall, hnodup, hfree, hd⟩
      obtain ⟨q, accepting, htext, hall', rfl⟩ := List.forall₂_cons_left_iff.1 hall
      obtain ⟨hq, hnodup⟩ := List.nodup_cons.1 hnodup
      obtain ⟨⟨hlt, hnot⟩, hfree⟩ := List.forall_mem_cons.1 hfree
      refine ⟨q, htext, hlt, hnot, accepting, hall', hnodup, fun p hp => (hmark hlt p).2 ⟨?_, hfree p hp⟩, hd⟩
      rintro rfl
      exact hq hp

/-- **The accepting states of a blank automaton are read from a line of theirs.** -/
theorem readAccepting_ok_iff (states : Nat) (input : InputAlphabet) (count : Nat) (line : Line) (d : Automaton) :
    readAccepting (Automaton.blankSlate states input) count line = .ok d ↔
      ∃ accepting, AcceptingLine states line.text accepting ∧ accepting.length = count ∧
        acceptAll (Automaton.blankSlate states input) accepting = d := by
  have hblank : ∀ q, (q < (Automaton.blankSlate states input).stateCount ∧
      (Automaton.blankSlate states input).accepts? q = false) ↔ q < states := by
    intro q
    simp [Automaton.accepts?_blankSlate, Automaton.stateCount_blankSlate]
  unfold readAccepting
  by_cases hcount : count = 0
  · subst hcount
    rw [if_pos rfl]
    constructor
    · intro hread
      split at hread
      · rename_i hempty
        obtain rfl := Except.ok.inj hread
        exact ⟨[], List.isEmpty_iff.1 hempty ▸ .none, rfl, rfl⟩
      · simp at hread
    · rintro ⟨accepting, hline, hlength, rfl⟩
      obtain rfl := List.eq_nil_of_length_eq_zero hlength
      generalize htext : line.text = text at hline
      cases hline with
      | none => rfl
      | some hfields hall =>
        cases hall
        exact absurd rfl hfields.nonempty
  · rw [if_neg hcount]
    simp only [Result.bind_ok_iff, Line.fieldsOf_ok_iff, acceptEach_ok_iff, hblank]
    constructor
    · rintro ⟨fields, ⟨hfields, hlength⟩, accepting, hall, hnodup, hlt, hd⟩
      exact ⟨accepting, .some hfields hall hnodup hlt, hall.length_eq ▸ hlength, hd⟩
    · rintro ⟨accepting, hline, hlength, hd⟩
      generalize htext : line.text = text at hline
      cases hline with
      | none => exact absurd hlength.symm hcount
      | some hfields hall hnodup hlt =>
        exact ⟨_, ⟨hfields, hall.length_eq.trans hlength⟩, accepting, hall, hnodup, hlt, hd⟩

end Accepting

/-! ## Reading transitions -/

/-- **A transition is read from a line of its kind whose key is free.** -/
theorem readTransition_ok_iff {d : Automaton} (hd : d.Reachable) (line : Line) (d' : Automaton) :
    readTransition d line = .ok d' ↔ ∃ e, TransitionLine d.input d.stateCount line.text e ∧ d.at? e.1 = none ∧
      d.edit (.put e.1 e.2 false) = d' := by
  have hindex := hd.input_built.unambiguous.indexOf?_eq_some_iff
  unfold readTransition
  rw [Result.bind_ok_iff]
  constructor
  · rintro ⟨fields, hfields, hread⟩
    rw [Line.fields_ok_iff] at hfields
    split at hread
    · rename_i q read r
      simp only [Result.bind_ok_iff, Line.readNumber_ok_iff, Line.check_ok_iff] at hread
      obtain ⟨state, hq, next, hr, hput⟩ := hread
      obtain ⟨symbol, hsymbol, hput⟩ := (Automaton.putByName_ok_iff ..).1 hput
      obtain ⟨hk, hnext, hundefined, hdefine⟩ := (Automaton.put_ok_iff ..).1 hput
      have hfree : d.at? ⟨state, symbol⟩ = none := by
        by_contra hne
        exact hundefined ⟨(Automaton.definedAt_iff_at? hk).2 hne, rfl⟩
      refine ⟨(⟨state, symbol⟩, next), ⟨⟨q, read, r, hfields, hq, (hindex ..).1 hsymbol, hr⟩, hk.state_lt, hnext⟩,
        hfree, ?_⟩
      rw [Automaton.edit_put hk hnext hfree, hdefine]
    · simp at hread
  · rintro ⟨⟨key, next⟩, hline, hfree, rfl⟩
    obtain ⟨q, read, r, hfields, hq, hread, hr⟩ := hline.fields
    have hk : d.InRange key := ⟨hline.state_lt, (Array.getElem?_eq_some_iff.1 hread).1⟩
    refine ⟨[q, read, r], (Line.fields_ok_iff ..).2 hfields, ?_⟩
    simp only [Result.bind_ok_iff, Line.readNumber_ok_iff, Line.check_ok_iff]
    refine ⟨key.state, hq, next, hr, (Automaton.putByName_ok_iff ..).2 ⟨key.symbol, (hindex ..).2 hread, ?_⟩⟩
    rw [Automaton.edit_put hk hline.next_lt hfree]
    refine (Automaton.put_ok_iff ..).2 ⟨hk, hline.next_lt, fun hdefined => ?_, rfl⟩
    exact (Automaton.definedAt_iff_at? hk).1 hdefined.1 hfree

theorem readTransitions_eq_readEach : readTransitions = readEach "transition" readTransition := by
  funext count
  induction count with
  | zero => rfl
  | succ count ih =>
    funext d rest
    rw [readTransitions, readEach, ih]

/-! ## Reading the end -/

theorem readSettings_ok_iff (a : InputAlphabet) (rest : Remaining) (c : SimulationConfig)
    (comments : List (List Char)) :
    (∃ next, readSettings a rest = .ok (c, ⟨next, comments⟩)) ↔ Ending a rest.next rest.lines c comments := by
  refine (Remaining.optional_ok_iff rest (Settings.readAutomaton a) .standard c comments).trans ?_
  generalize rest.lines = lines
  constructor
  · rintro (⟨rfl, rfl, rfl⟩ | ⟨line, rfl, hread⟩)
    · exact .absent
    · exact .settings comments hread
  · intro h
    cases h with
    | absent => exact .inl ⟨rfl, rfl, rfl⟩
    | empty => exact .inr ⟨[], rfl, rfl⟩
    | settings _ hread => exact .inr ⟨_, rfl, hread⟩

end AutomatonDescription
end BoundedTuring
