import BoundedTuring.Decider
import BoundedTuring.Proofs.Execution.Safety
import BoundedTuring.Word.Shortlex
/-!
# Bounded runs

A run asks whether the machine has halted, then whether it may make another step, makes it, and then asks for the
time.  `run_of_halted`, `run_of_spent`, `run_of_crossed` and `run_advance` say what it does in each of these cases.
The last one lets a run be taken up after any of the steps it may make (`run_iterate_next`), so that without a time
bound it ends where the machine first halts, if that is within its steps, and at the step bound if not.  Who watches
sees the path to where it stops, and changes nothing (`exists_stopsAfter`); and runs that a relation kept by every step
relates are reported alike (`Bisimulation.run_eq`).
-/
namespace BoundedTuring
namespace Machine

/-- An execution halts after so many steps, and not before. -/
structure HaltsAfter (m : Machine) (e : Execution) (steps : Nat) (outcome : Outcome) : Prop where
  halted : m.halted? (m.next^[steps] e) = some outcome
  running : ∀ k < steps, m.halted? (m.next^[k] e) = none

section

variable {m : Machine} {e : Execution} {limits : Limits} {outcome : Outcome}

/-! ## Watching -/

/-- The configurations that the next so many steps lead to. -/
def path (m : Machine) : Nat → Execution → List Configuration
  | 0, _ => []
  | n + 1, e => (m.next e).configuration :: m.path n (m.next e)

/-- A run that stops after so many of the steps it may make: the machine was running before each of them, what stopped it
is the outcome, and who watched has seen where each of them led. -/
structure StopsAfter (m : Machine) (limits : Limits) (stepsLeft : Nat) (e : Execution) (n : Nat) (outcome : Outcome) :
    Prop where
  running : ∀ k < n, m.halted? (m.next^[k] e) = none
  halted : outcome.isHalted = true → m.halted? (m.next^[n] e) = some outcome
  spent : outcome = .stepBoundExceeded → n = stepsLeft
  crossed : outcome = .timeBoundExceeded → limits.stepCrossesTime = true
  watched : ∀ {σ : Type} (observe : σ → Configuration → σ) (seen : σ),
    watchFrom observe m limits stepsLeft e seen = (outcome, m.next^[n] e, (m.path n e).foldl observe seen)

/-- **Every run stops, and shows the path it took**, whichever bound or state stops it. -/
theorem exists_stopsAfter (m : Machine) (limits : Limits) : ∀ (stepsLeft : Nat) (e : Execution),
    ∃ n outcome, m.StopsAfter limits stepsLeft e n outcome
  | stepsLeft, e => by
    cases hhalted : m.halted? e with
    | some outcome =>
      have hneither : outcome ≠ .stepBoundExceeded ∧ outcome ≠ .timeBoundExceeded := by
        rcases halted_cases hhalted with ⟨rfl, -⟩ | ⟨rfl, -⟩ <;> exact ⟨nofun, nofun⟩
      refine ⟨0, outcome, nofun, fun _ => hhalted, fun h => absurd h hneither.1, fun h => absurd h hneither.2,
        fun observe seen => ?_⟩
      cases stepsLeft <;> simp [watchFrom, hhalted, path]
    | none =>
      cases stepsLeft with
      | zero =>
        exact ⟨0, .stepBoundExceeded, nofun, nofun, fun _ => rfl, nofun, fun observe seen => by
          simp [watchFrom, hhalted, path]⟩
      | succ stepsLeft =>
        have hnext := next_of_running hhalted
        cases hcrossed : limits.stepCrossesTime with
        | true =>
          refine ⟨1, .timeBoundExceeded, ?_, nofun, nofun, fun _ => hcrossed, fun observe seen => ?_⟩
          · intro k hk
            obtain rfl : k = 0 := by omega
            exact hhalted
          · simp [watchFrom, hhalted, hcrossed, path, hnext]
        | false =>
          obtain ⟨n, outcome, hrunning, hend, hspent, htime, hwatched⟩ :=
            exists_stopsAfter m limits stepsLeft (m.advance e)
          refine ⟨n + 1, outcome, fun k hk => ?_, ?_, fun h => congrArg Nat.succ (hspent h),
            htime, fun observe seen => ?_⟩
          · cases k with
            | zero => exact hhalted
            | succ k =>
              rw [Function.iterate_succ_apply, hnext]
              exact hrunning k (Nat.lt_of_succ_lt_succ hk)
          · rw [Function.iterate_succ_apply, hnext]
            exact hend
          · simp [watchFrom, hhalted, hcrossed, path, hnext, hwatched]

/-- **Watching a run does not change its report.** -/
theorem watch_fst {σ : Type} (observe : σ → Configuration → σ) (m : Machine) (limits : Limits) (e : Execution)
    (seen : σ) : (m.watch observe limits e seen).1 = m.run limits e := by
  obtain ⟨n, outcome, hstops⟩ := exists_stopsAfter m limits (limits.maxSteps - e.stepCount) e
  unfold run watch
  simp only [hstops.watched]

/-! ## Runs on words -/

/-- **A word over the input alphabet has an execution**, from the first state. -/
theorem execution_ok {w : Word} (hw : Word.IsOver m.alphabet.inputSize w) :
    ∃ tape, m.tapeFor w = .ok tape ∧ m.execution w = .ok (.start 0 tape) := by
  obtain ⟨tape, htape⟩ : ∃ tape, m.tapeFor w = .ok tape := ⟨_, (Tape.ofInput_ok_iff ..).2 ⟨hw, rfl⟩⟩
  exact ⟨tape, htape, (Result.bind_ok_iff ..).2 ⟨tape, htape, rfl⟩⟩

theorem watchInput_of_execution {w : Word} (hexecution : m.execution w = .ok e) {σ : Type}
    (observe : σ → Configuration → σ) (limits : Limits) (seen : σ) :
    ∃ seen', Decider.watchInput observe m w limits seen = .ok (m.run limits e, seen') := by
  refine ⟨(m.watch observe limits e seen).2, (Result.bind_ok_iff ..).2 ⟨_, hexecution, ?_⟩⟩
  rw [← watch_fst observe m limits e seen]
  rfl

/-- **To run on a word is to run its execution.** -/
theorem runInput_of_execution {w : Word} (hexecution : m.execution w = .ok e) (limits : Limits) :
    Decider.runInput m w limits = .ok (m.run limits e) := by
  obtain ⟨seen', hwatch⟩ := watchInput_of_execution hexecution (fun _ _ => ()) limits ()
  exact (Result.bind_ok_iff ..).2 ⟨_, hwatch, rfl⟩

theorem runInput_eq (m : Machine) (input : Word) (limits : Limits) :
    Decider.runInput m input limits = m.run limits <$> m.execution input := by
  cases hexecution : m.execution input with
  | error e =>
    unfold Decider.runInput Decider.watchInput instDeciderMachine
    dsimp only
    rw [hexecution]
    rfl
  | ok e => exact runInput_of_execution hexecution limits

/-! ## One turn of a run -/

theorem run_of_halted (hhalted : m.halted? e = some outcome) :
    m.run limits e = ⟨outcome, e.stepCount, limits.elapsed⟩ := by
  unfold run watch
  cases limits.maxSteps - e.stepCount <;> simp only [watchFrom, hhalted]

theorem run_of_spent (hrun : m.halted? e = none) (hspent : limits.maxSteps ≤ e.stepCount) :
    m.run limits e = ⟨.stepBoundExceeded, e.stepCount, limits.elapsed⟩ := by
  unfold run watch
  rw [Nat.sub_eq_zero_of_le hspent]
  simp only [watchFrom, hrun]

theorem run_of_crossed (hrun : m.halted? e = none) (hleft : e.stepCount < limits.maxSteps)
    (hcrossed : limits.stepCrossesTime = true) :
    m.run limits e = ⟨.timeBoundExceeded, e.stepCount + 1, limits.elapsed⟩ := by
  obtain ⟨stepsLeft, hsteps⟩ := Nat.exists_eq_succ_of_ne_zero (Nat.sub_ne_zero_of_lt hleft)
  unfold run watch
  rw [hsteps]
  simp only [watchFrom, hrun, hcrossed, if_true]
  rfl

theorem run_advance (hrun : m.halted? e = none) (hleft : e.stepCount < limits.maxSteps)
    (htime : limits.stepCrossesTime = false) : m.run limits (m.advance e) = m.run limits e := by
  -- the steps left go down as the step count goes up
  have hsteps : limits.maxSteps - e.stepCount = (limits.maxSteps - (m.advance e).stepCount) + 1 := by
    rw [advance_eq]
    dsimp only
    omega
  unfold run watch
  rw [hsteps]
  simp only [watchFrom, hrun, htime, Bool.false_eq_true, if_false]

/-! ## Counting steps -/

theorem stepCount_iterate_le (m : Machine) (e : Execution) : ∀ k, (m.next^[k] e).stepCount ≤ e.stepCount + k
  | 0 => Nat.le_refl _
  | k + 1 => by
    rw [Function.iterate_succ_apply']
    have ih := stepCount_iterate_le m e k
    by_cases hrun : m.halted? (m.next^[k] e) = none
    · rw [next_of_running hrun]
      exact Nat.succ_le_succ ih
    · rw [next_of_halted hrun]
      omega

theorem stepCount_iterate : ∀ k, (∀ j < k, m.halted? (m.next^[j] e) = none) →
    (m.next^[k] e).stepCount = e.stepCount + k
  | 0, _ => rfl
  | k + 1, hrun => by
    rw [Function.iterate_succ_apply', next_of_running (hrun k (Nat.lt_succ_self k))]
    have ih := stepCount_iterate k (fun j hj => hrun j (Nat.lt_succ_of_lt hj))
    exact congrArg Nat.succ ih

/-! ## Whole runs -/

/-- **A run may be taken up after any of the steps it may make.** -/
theorem run_iterate_next (htime : limits.stepCrossesTime = false) :
    ∀ j, e.stepCount + j ≤ limits.maxSteps → m.run limits (m.next^[j] e) = m.run limits e
  | 0, _ => rfl
  | j + 1, hj => by
    rw [Function.iterate_succ_apply']
    have ih := run_iterate_next htime j (Nat.le_of_succ_le hj)
    have hcount := stepCount_iterate_le m e j
    by_cases hrun : m.halted? (m.next^[j] e) = none
    · rw [next_of_running hrun, run_advance hrun (by omega) htime]
      exact ih
    · rw [next_of_halted hrun]
      exact ih

theorem run_of_haltsAfter {steps : Nat} (h : m.HaltsAfter e steps outcome) (htime : limits.stepCrossesTime = false)
    (hsteps : e.stepCount + steps ≤ limits.maxSteps) :
    m.run limits e = ⟨outcome, e.stepCount + steps, limits.elapsed⟩ := by
  rw [← run_iterate_next htime steps hsteps, run_of_halted h.halted, stepCount_iterate steps h.running]

theorem run_of_running {steps : Nat} (hrun : ∀ k ≤ steps, m.halted? (m.next^[k] e) = none)
    (htime : limits.stepCrossesTime = false) (hsteps : e.stepCount + steps = limits.maxSteps) :
    m.run limits e = ⟨.stepBoundExceeded, limits.maxSteps, limits.elapsed⟩ := by
  have hcount := stepCount_iterate steps (fun j hj => hrun j (Nat.le_of_lt hj))
  rw [← run_iterate_next htime steps (Nat.le_of_eq hsteps),
    run_of_spent (hrun steps (Nat.le_refl steps)) (by omega), hcount, hsteps]

/-- An execution halts first within some steps, or none of them halts it. -/
theorem haltsAfter_or_running (m : Machine) (e : Execution) : ∀ bound,
    (∃ steps ≤ bound, ∃ outcome, m.HaltsAfter e steps outcome) ∨ ∀ k ≤ bound, m.halted? (m.next^[k] e) = none
  | 0 => by
    cases hhalted : m.halted? e with
    | some outcome => exact .inl ⟨0, Nat.le_refl 0, outcome, hhalted, fun k hk => absurd hk (Nat.not_lt_zero k)⟩
    | none =>
      refine .inr (fun k hk => ?_)
      rw [Nat.le_zero.1 hk]
      exact hhalted
  | bound + 1 => by
    rcases haltsAfter_or_running m e bound with ⟨steps, hle, hfirst⟩ | hrun
    · exact .inl ⟨steps, Nat.le_succ_of_le hle, hfirst⟩
    · cases hhalted : m.halted? (m.next^[bound + 1] e) with
      | some outcome =>
        exact .inl ⟨bound + 1, Nat.le_refl _, outcome, hhalted, fun k hk => hrun k (Nat.le_of_lt_succ hk)⟩
      | none =>
        refine .inr (fun k hk => ?_)
        rcases Nat.le_succ_iff.1 hk with hle | rfl
        · exact hrun k hle
        · exact hhalted

end

/-! ## Bisimulations -/

/-- A relation between the executions of two machines that is kept by their steps and that shows in nothing that a run
looks at. -/
structure Bisimulation (m n : Machine) (R : Execution → Execution → Prop) : Prop where
  halted?_eq : ∀ {e f}, R e f → m.halted? e = n.halted? f
  stepCount_eq : ∀ {e f}, R e f → e.stepCount = f.stepCount
  advance : ∀ {e f}, R e f → m.halted? e = none → R (m.advance e) (n.advance f)

section

variable {m n : Machine} {R : Execution → Execution → Prop} {e f : Execution}

theorem Bisimulation.next (h : Bisimulation m n R) (hr : R e f) : R (m.next e) (n.next f) := by
  by_cases hrun : m.halted? e = none
  · rw [next_of_running hrun, next_of_running (h.halted?_eq hr ▸ hrun)]
    exact h.advance hr hrun
  · rw [next_of_halted hrun, next_of_halted (h.halted?_eq hr ▸ hrun)]
    exact hr

theorem Bisimulation.iterate (h : Bisimulation m n R) (hr : R e f) : ∀ k, R (m.next^[k] e) (n.next^[k] f)
  | 0 => hr
  | k + 1 => by
    rw [Function.iterate_succ_apply', Function.iterate_succ_apply']
    exact h.next (h.iterate hr k)

/-- The induction of `Bisimulation.run_eq`, on the steps that are left. -/
theorem Bisimulation.run_eq_of_left (h : Bisimulation m n R) (limits : Limits) : ∀ (stepsLeft : Nat) {e f : Execution},
    limits.maxSteps - e.stepCount ≤ stepsLeft → R e f → m.run limits e = n.run limits f
  | stepsLeft, e, f, hleft, hr => by
    have hcount := h.stepCount_eq hr
    have hsame := h.halted?_eq hr
    cases hhalted : m.halted? e with
    | some outcome => rw [run_of_halted hhalted, run_of_halted (hsame ▸ hhalted), hcount]
    | none =>
      have hhalted' : n.halted? f = none := hsame ▸ hhalted
      rcases Nat.lt_or_ge e.stepCount limits.maxSteps with hlt | hspent
      · cases hcrossed : limits.stepCrossesTime with
        | true => rw [run_of_crossed hhalted hlt hcrossed, run_of_crossed hhalted' (hcount ▸ hlt) hcrossed, hcount]
        | false =>
          rw [← run_advance hhalted hlt hcrossed, ← run_advance hhalted' (hcount ▸ hlt) hcrossed]
          cases stepsLeft with
          | zero => omega
          | succ stepsLeft =>
            refine h.run_eq_of_left limits stepsLeft ?_ (h.advance hr hhalted)
            rw [advance_eq]
            dsimp only
            omega
      · rw [run_of_spent hhalted hspent, run_of_spent hhalted' (hcount ▸ hspent), hcount]

/-- **Runs that a bisimulation relates are reported alike**, whatever bounds them. -/
theorem Bisimulation.run_eq (h : Bisimulation m n R) (hr : R e f) (limits : Limits) :
    m.run limits e = n.run limits f := h.run_eq_of_left limits _ (Nat.le_refl _) hr

end

/-- **A bounded run is the iterated step.**  From an ordinary state and without a time bound it reports where the
machine first halts, if the step bound lets it get there, and else the bound; so a report that says how the machine
halted stands under every greater bound, and a run may be taken up after some of its steps.  A time bound that the
first step crosses ends a run after that step, even if it halts the machine, unless no step may be made at all. -/
theorem run_eq_iterated_steps (m : Machine) {state : Nat} (hstate : state < m.acceptState) (tape : Tape) :
    let e := Execution.start state tape
    (∀ steps outcome, m.HaltsAfter e steps outcome → ∀ bound, steps ≤ bound →
      m.run ⟨bound, none⟩ e = ⟨outcome, steps, none⟩) ∧
    (∀ bound, (∀ steps outcome, m.HaltsAfter e steps outcome → bound < steps) →
      m.run ⟨bound, none⟩ e = ⟨.stepBoundExceeded, bound, none⟩) ∧
    (∀ bound greater, bound ≤ greater → (m.run ⟨bound, none⟩ e).outcome.isHalted = true →
      m.run ⟨greater, none⟩ e = m.run ⟨bound, none⟩ e) ∧
    (∀ steps outcome, m.HaltsAfter e steps outcome → ∀ bound < steps,
      m.run ⟨bound, none⟩ e = ⟨.stepBoundExceeded, bound, none⟩) ∧
    (∀ bound, ∀ j ≤ bound, m.run ⟨bound, none⟩ (m.next^[j] e) = m.run ⟨bound, none⟩ e) ∧
    (∀ bound, 1 ≤ bound → m.run ⟨bound, some 0⟩ e = ⟨.timeBoundExceeded, 1, some 0⟩) ∧
    m.run ⟨0, some 0⟩ e = ⟨.stepBoundExceeded, 0, some 0⟩ := by
  intro e
  have hordinary : m.halted? e = none := running_of_ordinary hstate
  have hhalts : ∀ steps outcome, m.HaltsAfter e steps outcome → ∀ bound, steps ≤ bound →
      m.run ⟨bound, none⟩ e = ⟨outcome, steps, none⟩ := by
    intro steps outcome h bound hle
    have hcount : e.stepCount + steps = steps := Nat.zero_add steps
    have hrun : m.run ⟨bound, none⟩ e = ⟨outcome, e.stepCount + steps, none⟩ :=
      run_of_haltsAfter h rfl (Nat.le_trans (Nat.le_of_eq hcount) hle)
    rwa [hcount] at hrun
  have hbound : ∀ bound, (∀ k ≤ bound, m.halted? (m.next^[k] e) = none) →
      m.run ⟨bound, none⟩ e = ⟨.stepBoundExceeded, bound, none⟩ :=
    fun bound hrun => run_of_running hrun rfl (Nat.zero_add bound)
  refine ⟨hhalts, ?never, ?raising, ?lowering, ?resuming, ?timed, ?spent⟩
  case never =>
    intro bound hlate
    rcases haltsAfter_or_running m e bound with ⟨steps, hle, outcome, hfirst⟩ | hrun
    · exact absurd (hlate steps outcome hfirst) (Nat.not_lt_of_le hle)
    · exact hbound bound hrun
  case raising =>
    intro bound greater hle hhalted
    rcases haltsAfter_or_running m e bound with ⟨steps, hsteps, outcome, hfirst⟩ | hrun
    · rw [hhalts steps outcome hfirst bound hsteps, hhalts steps outcome hfirst greater (Nat.le_trans hsteps hle)]
    · rw [hbound bound hrun] at hhalted
      exact absurd hhalted Bool.false_ne_true
  case lowering =>
    intro steps outcome h bound hlt
    exact hbound bound (fun k hk => h.running k (Nat.lt_of_le_of_lt hk hlt))
  case resuming =>
    intro bound j hj
    exact run_iterate_next rfl j (Nat.le_trans (Nat.le_of_eq (Nat.zero_add j)) hj)
  case timed =>
    intro bound hpos
    exact run_of_crossed hordinary hpos rfl
  case spent => exact run_of_spent hordinary (Nat.le_refl 0)

/-- Goes right over zeros and accepts on the first one. -/
def finder (mode : TapeMode) : Machine :=
  [.put ⟨0, 0⟩ ⟨0, 0, .right⟩ false, .put ⟨0, 1⟩ ⟨1, 1, .right⟩ false].foldl Machine.edit (blankBinary 3 mode)

/-- The finder halts on the last step it may make, and one step before that it does not. -/
theorem finder_on_last_step :
    let m := finder .leftEnd
    let e := Execution.start 0 ⟨#[2, 0, 1], 1, 4, 3, some 2⟩
    0 < m.acceptState ∧ m.HaltsAfter e 2 .accepted ∧
      m.run ⟨2, none⟩ e = ⟨.accepted, 2, none⟩ ∧ m.run ⟨1, none⟩ e = ⟨.stepBoundExceeded, 1, none⟩ ∧
      m.run ⟨9, none⟩ e = m.run ⟨2, none⟩ e ∧ m.run ⟨2, none⟩ (m.next^[1] e) = m.run ⟨2, none⟩ e ∧
      m.run ⟨2, some 0⟩ e = ⟨.timeBoundExceeded, 1, some 0⟩ := by
  intro m e
  have hstate : 0 < m.acceptState := by decide +kernel
  have hrunning : ∀ k < 2, m.halted? (m.next^[k] e) = none := by decide +kernel
  have hfirst : m.HaltsAfter e 2 .accepted := ⟨by decide +kernel, hrunning⟩
  obtain ⟨hhalts, -, hraise, hlower, hresume, htimed, -⟩ :=
    run_eq_iterated_steps m hstate ⟨#[2, 0, 1], 1, 4, 3, some 2⟩
  have hrun : m.run ⟨2, none⟩ e = ⟨.accepted, 2, none⟩ := hhalts 2 .accepted hfirst 2 (Nat.le_refl 2)
  refine ⟨hstate, hfirst, hrun, hlower 2 .accepted hfirst 1 (by decide), ?_, hresume 2 1 (by decide),
    htimed 2 (by decide)⟩
  exact hraise 2 9 (by decide) (by rw [hrun]; rfl)

end Machine
end BoundedTuring
