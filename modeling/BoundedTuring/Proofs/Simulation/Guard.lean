import BoundedTuring.Proofs.Simulation.Runs
import BoundedTuring.Proofs.Word.Count
/-!
# The guard in front of a simulation

A simulation is kept small in two ways.  A count of at most `maxStringCount` words bounds it by itself; under a greater
count the words from the length of the initial one on are counted in advance.  The initial word stands among the words
counted, so there are never more to test than were counted.
-/
namespace BoundedTuring

namespace SimulationConfig

variable {c c' : SimulationConfig} {base : Nat}

theorem checkCount_error_iff (c : SimulationConfig) (base : Nat) (e : Error) : c.checkCount base = .error e ↔
    (maxStringCount < c.stringCount ∧ maxStringCount < Word.estimate base c.initial.length c.maxLength) ∧
      .ofFault (.tooManyStrings (Word.estimate base c.initial.length c.maxLength) maxStringCount) = e := by
  unfold checkCount
  dsimp only
  split
  · rename_i htoo
    simp [htoo, Result.fail]
  · rename_i hfew
    simp [hfew]

/-- **A valid configuration has few words to test or a small count.** -/
theorem few_of_validate (hbase : 1 ≤ base) (h : c.validate base = .ok c') (hcount : maxStringCount < c'.stringCount) :
    ∑ l ∈ Finset.Icc c'.initial.length c'.maxLength, base ^ l ≤ maxStringCount := by
  obtain ⟨-, hcheck, -⟩ := (validate_ok_iff ..).1 h
  rw [← Nat.not_lt, ← Word.lt_estimate_iff hbase _ _ (by decide)]
  intro htoo
  rw [(checkCount_error_iff ..).2 ⟨⟨hcount, htoo⟩, rfl⟩] at hcheck
  cases hcheck

/-- **A valid configuration has at most as many words as its count says, and never more than the guard lets pass.** -/
theorem length_words_le (hbase : 1 ≤ base) (h : c.validate base = .ok c') :
    (c'.words base).length ≤ min c.stringCount maxStringCount := by
  obtain ⟨hover, -, hlength⟩ := starts_of_validate h
  have hwords : (Word.wordsFrom base c'.maxLength c'.initial).length = _ :=
    Word.length_wordsFrom (Nat.le_succ_of_le hlength)
  have hcount := stringCount_of_validate h
  rw [words_eq_take hbase c' hover, List.length_take, hwords, hcount]
  rcases Nat.lt_or_ge maxStringCount c.stringCount with hmany | hfew
  · have hsum := few_of_validate hbase h (hcount ▸ hmany)
    omega
  · omega

/-- **Validation refuses a configuration for its number of words exactly if nothing else is wrong with it**, the count
does not bound that number and the number is too great. -/
theorem validate_refuses_count_iff (hbase : 1 ≤ base) (c : SimulationConfig) :
    (∃ e, c.validate base = .error e ∧ e.kind = .stringCount) ↔
      (∀ s ∈ c.initial, s < base) ∧ (c.ordered.startsInRange = true ∨ c.stringCount ≤ 1) ∧
        maxStringCount < c.stringCount ∧
        maxStringCount < ∑ l ∈ Finset.Icc c.initial.length (max c.minLength c.maxLength), base ^ l := by
  rw [← Word.lt_estimate_iff hbase _ _ (by decide)]
  have herror : ∀ e, c.validate base = .error e ↔ (c.validateInPlace base).1 = .error e := fun e => by
    unfold validate
    rcases c.validateInPlace base with ⟨_ | _, left⟩ <;> simp
  have hvalidation := validation_validateInPlace c base
  simp only [herror]
  generalize c.validateInPlace base = outcome at hvalidation ⊢
  cases hvalidation with
  | foreign hmem hforeign =>
    -- this is found first, and is another kind of error
    refine iff_of_false ?_ fun ⟨hover, _⟩ => absurd (hover _ hmem) (Nat.not_lt.2 hforeign)
    rintro ⟨e, he, hkind⟩
    cases he
    cases hkind
  | inRange hover hstarts =>
    simp only [checkCount_error_iff]
    constructor
    · rintro ⟨e, ⟨htoo, rfl⟩, -⟩
      exact ⟨hover, .inl hstarts, htoo⟩
    · rintro ⟨-, -, htoo⟩
      exact ⟨_, ⟨htoo, rfl⟩, rfl⟩
  | outOfRange hover hstarts hmany =>
    refine iff_of_false ?_ fun ⟨_, hstart, _⟩ => hstart.elim hstarts (Nat.not_le.2 hmany)
    rintro ⟨e, he, hkind⟩
    cases he
    cases hkind
  | alone hover hstarts hone =>
    -- a single word is never too many
    have hfew : ¬ maxStringCount < c.stringCount := Nat.not_lt.2 (Nat.le_trans hone (by decide))
    refine iff_of_false ?_ fun ⟨_, _, hmany, _⟩ => hfew hmany
    rintro ⟨e, he, -⟩
    exact hfew ((checkCount_error_iff ..).1 he).1.1

end SimulationConfig

/-! ## Simulations -/

section

variable {α : Type} [Decider α]

/-- What the guard does for a simulation: one that succeeds has tested no more words than its count says and no more
than `maxStringCount`, and it is refused for its number of words exactly if nothing that is checked earlier is wrong,
the count is greater than that and so is the exact number of words, of all lengths from that of the initial word to the
greater bound. -/
structure WorkBounded (d : α) (c : SimulationConfig) : Prop where
  tested_le : ∀ r, simulate d c = .ok r → r.tested ≤ min c.stringCount maxStringCount
  refused_iff : (∃ e, simulate d c = .error e ∧ e.kind = .stringCount) ↔
    (∀ s ∈ c.initial, s < (Decider.inputAlphabet d).size) ∧
    ((min c.minLength c.maxLength ≤ c.initial.length ∧ c.initial.length ≤ max c.minLength c.maxLength) ∨
      c.stringCount ≤ 1) ∧
    maxStringCount < c.stringCount ∧
    maxStringCount <
      ∑ l ∈ Finset.Icc c.initial.length (max c.minLength c.maxLength), (Decider.inputAlphabet d).size ^ l

theorem Decider.Answers.workBounded {d : α} (h : Answers d) (c : SimulationConfig) : WorkBounded d c := by
  have hsimulates := h.simulates c
  constructor
  · intro r hr
    cases hvalid : c.validate (inputAlphabet d).size with
    | error e =>
      rw [(hsimulates.refuses e).2 hvalid] at hr
      cases hr
    | ok c' =>
      obtain ⟨r', hr', hfaithful⟩ := hsimulates.reports c' hvalid
      obtain rfl := Except.ok.inj (hr.symm.trans hr')
      have htested : r.tested = (c'.words (inputAlphabet d).size).length := hfaithful.runs.length_eq
      rw [htested]
      exact SimulationConfig.length_words_le h.size_pos hvalid
  · simp only [hsimulates.refuses]
    rw [SimulationConfig.validate_refuses_count_iff h.size_pos, SimulationConfig.startsInRange_ordered_iff]

end

/-- **The guard bounds the work.**  Whatever was done to a machine or to an automaton, a simulation of it tests at most
as many words as asked for and at most `maxStringCount`, and it is refused as too large exactly if it is. -/
theorem guard_bounds_work (c : SimulationConfig) :
    (∀ m : Machine, m.Reachable → WorkBounded m c) ∧ ∀ d : Automaton, d.Reachable → WorkBounded d c :=
  ⟨fun _ h => h.answers.workBounded c, fun _ h => h.answers.workBounded c⟩

/-- One word more than the limit is asked for.  Up to length 16 there are too many, up to length 2 only seven. -/
theorem shuttle_refused_and_parity_bounded :
    let large : SimulationConfig := ⟨16, 0, [], 100001, .unbounded⟩
    let small : SimulationConfig := ⟨2, 0, [], 100001, .unbounded⟩
    (Machine.shuttle .twoWay).Reachable ∧ Automaton.parity.Reachable ∧
      (∃ e, simulate (Machine.shuttle .twoWay) large = .error e ∧ e.kind = .stringCount) ∧
      ∃ r, simulate Automaton.parity small = .ok r ∧ r.tested = 7 ∧ r.tested ≤ min 100001 maxStringCount := by
  intro large small
  have hmachine := Machine.reachable_shuttle .twoWay
  have hautomaton := Automaton.reachable_parity
  have hsize : (Decider.inputAlphabet (Machine.shuttle .twoWay)).size = 2 := by decide +kernel
  have hrefused := (((guard_bounds_work large).1 _ hmachine).refused_iff).2
  have htested : SimulationReport.tested <$> simulate Automaton.parity small = .ok 7 := by decide +kernel
  refine ⟨hmachine, hautomaton, hrefused ?_, ?_⟩
  · rw [hsize]
    exact ⟨by decide, .inl (by decide), by decide, by decide +kernel⟩
  · obtain ⟨r, hr, hseven⟩ := (Result.map_ok_iff ..).1 htested
    exact ⟨r, hr, hseven, ((guard_bounds_work small).2 _ hautomaton).tested_le r hr⟩

end BoundedTuring
