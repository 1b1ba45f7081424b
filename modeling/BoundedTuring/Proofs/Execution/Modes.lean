import BoundedTuring.Proofs.Execution.Bounded
import BoundedTuring.Proofs.Execution.Endless
import BoundedTuring.Proofs.Machine.Modes
/-!
# Runs off the marker

A machine with a marker and its twin on a two-way tape go the same way for as long as the head stays off the marker:
they are in lockstep, the first one cell further on.  A step keeps them there (`Lockstep.advance`), since the one that
would take the twin past its left end takes the other onto the marker, and so does a run (`Lockstep.iterate`).  Which
configurations a run comes through is what somebody who collects them has seen (`mem_watchFrom_collect`).
-/
namespace BoundedTuring
namespace Machine

/-- Executions of a machine with a marker and of one without that look alike, the first one cell further on. -/
structure Agree (m n : Machine) (e f : Execution) : Prop where
  state_eq : e.state = f.state
  head_eq : e.tape.head = f.tape.head + 1
  names_eq : ∀ i, ∃ name, m.alphabet.symbol (e.tape.read (i + 1)) = .ok name ∧
    n.alphabet.symbol (f.tape.read i) = .ok name

/-- Executions that agree in the indices of symbols, those of an alphabet without a marker and those beside one. -/
structure Lockstep (b : Alphabet) (e f : Execution) : Prop where
  state_eq : e.state = f.state
  stepCount_eq : e.stepCount = f.stepCount
  head_eq : e.tape.head = f.tape.head + 1
  read_eq : ∀ i, e.tape.read (i + 1) = b.besideMarker (f.tape.read i)

section

variable {m n : Machine} {e f : Execution}

namespace Lockstep

theorem agree (hl : Lockstep n.alphabet e f) (h : m.Twins n) (hf : n.Safe f) : m.Agree n e f := by
  refine ⟨hl.state_eq, hl.head_eq, fun i => ?_⟩
  have hlt : f.tape.read i < n.alphabet.size := hf.tape.read_lt h.right.built i
  obtain ⟨name, hname⟩ : ∃ name, n.alphabet.symbols[f.tape.read i]? = some name := ⟨_, Array.getElem?_eq_getElem hlt⟩
  refine ⟨name, (Alphabet.symbol_ok_iff ..).2 ?_, (Alphabet.symbol_ok_iff ..).2 hname⟩
  rw [hl.read_eq, h.alphabet.getElem?_besideMarker hlt, hname]

/-! ## One step -/

theorem halted?_eq (hl : Lockstep n.alphabet e f) (h : m.Twins n) : m.halted? e = n.halted? f := by
  unfold halted? acceptState rejectState Table.acceptState Table.rejectState
  rw [hl.state_eq, h.stateCount_eq]

theorem inForce_eq (hl : Lockstep n.alphabet e f) (h : m.Twins n) (hf : n.Safe f) (hrun : n.halted? f = none) :
    m.inForce e = (n.inForce f).rename n.alphabet.besideMarker := by
  have hcurrent : e.tape.current = n.alphabet.besideMarker f.tape.current := by
    unfold Tape.current
    rw [hl.head_eq, hl.read_eq]
  rw [inForce, hl.state_eq, hcurrent]
  exact h.lookup_eq (hf.key_inRange h.right hrun)

/-- One place further on, a move that leaves the integers at a natural place leaves the naturals one further on too. -/
theorem onNaturals_succ {direction : Direction} {head head' : Nat} (h : (head' : Int) = direction.onIntegers head) :
    direction.onNaturals (head + 1) = head' + 1 := by
  cases direction <;> simp only [Direction.onNaturals, Direction.onIntegers] at h ⊢ <;> omega

/-- **A step that does not reach the marker keeps the lockstep.** -/
theorem advance (hl : Lockstep n.alphabet e f) (h : m.Twins n) (he : m.Safe e) (hf : n.Safe f)
    (hrun : n.halted? f = none) (hoff : (m.advance e).tape.head ≠ 0) :
    Lockstep n.alphabet (m.advance e) (n.advance f) := by
  have hmarked : e.tape.marker ≠ none := by
    rw [he.tape.marker_eq, h.alphabet.marker_eq]
    exact Option.some_ne_none _
  have hunmarked : f.tape.marker = none :=
    hf.tape.marker_eq.trans (Alphabet.marker?_eq_none_iff.2 h.alphabet.right_mode)
  have hstill := (hf.inForce_admits h.right hrun).still
  have hstill' := h.stillAllowed_eq ▸ hstill
  rw [advance_eq, hl.inForce_eq h hf hrun] at hoff ⊢
  rw [advance_eq]
  generalize n.inForce f = t at hstill hstill' hoff ⊢
  have hhead := e.tape.apply_onNaturals hmarked hstill' (n.alphabet.besideMarker t.write)
  obtain ⟨hhead', htape'⟩ := f.tape.apply_onIntegers hunmarked hstill t.write
  -- the twin at its left end goes left just when the other goes onto the marker
  have hstays : ¬ (f.tape.head = 0 ∧ t.direction = .left) := by
    rintro ⟨hzero, hleft⟩
    refine hoff (hhead.trans ?_)
    rw [hl.head_eq, hzero, hleft]
    rfl
  simp only [if_neg hstays, Int.natCast_zero, Int.sub_zero, Int.add_zero] at hhead' htape'
  refine ⟨rfl, congrArg (· + 1) hl.stepCount_eq, ?_, fun i => ?_⟩
  · refine hhead.trans ?_
    rw [hl.head_eq]
    exact onNaturals_succ hhead'
  · have hread := htape' i
    rw [Tape.readAt_natCast, Tape.readAt_natCast] at hread
    simp only [Int.natCast_inj] at hread
    show (e.tape.apply (n.alphabet.besideMarker t.write) t.direction m.table.stillAllowed).read (i + 1) = _
    rw [e.tape.read_apply hmarked, hread, hl.head_eq, hl.read_eq]
    by_cases hi : i = f.tape.head
    · simp [hi]
    · simp [hi, Ne.symm hi]

/-! ## Runs -/

/-- **Off the marker, runs stay in lockstep.** -/
theorem iterate (hl : Lockstep n.alphabet e f) (h : m.Twins n) (he : m.Safe e) (hf : n.Safe f) :
    ∀ k, (∀ j ≤ k, (m.next^[j] e).tape.head ≠ 0) → Lockstep n.alphabet (m.next^[k] e) (n.next^[k] f)
  | 0, _ => hl
  | k + 1, hoff => by
    have ih := hl.iterate h he hf k (fun j hj => hoff j (Nat.le_succ_of_le hj))
    have hlast := hoff (k + 1) (Nat.le_refl _)
    rw [Function.iterate_succ_apply'] at hlast
    rw [Function.iterate_succ_apply', Function.iterate_succ_apply']
    by_cases hrun : n.halted? (n.next^[k] f) = none
    · rw [next_of_running (ih.halted?_eq h ▸ hrun)] at hlast ⊢
      rw [next_of_running hrun]
      exact ih.advance h (he.iterate h.left k) (hf.iterate h.right k) hrun hlast
    · rw [next_of_halted hrun, next_of_halted (ih.halted?_eq h ▸ hrun)]
      exact ih

/-- **Runs in lockstep are reported alike.** -/
theorem run_eq (hl : Lockstep n.alphabet e f) (h : m.Twins n) {limits : Limits} (htime : limits.stepCrossesTime = false)
    {bound : Nat} (hbound : e.stepCount + bound = limits.maxSteps)
    (hall : ∀ k ≤ bound, Lockstep n.alphabet (m.next^[k] e) (n.next^[k] f)) : m.run limits e = n.run limits f := by
  have hcount := hl.stepCount_eq
  rcases haltsAfter_or_running m e bound with ⟨steps, hle, outcome, hfirst⟩ | hrun
  · have hfirst' : n.HaltsAfter f steps outcome := by
      refine ⟨(hall steps hle).halted?_eq h ▸ hfirst.halted, fun k hk => ?_⟩
      exact (hall k (by omega)).halted?_eq h ▸ hfirst.running k hk
    rw [run_of_haltsAfter hfirst htime (by omega), run_of_haltsAfter hfirst' htime (by omega), hcount]
  · have hrun' : ∀ k ≤ bound, n.halted? (n.next^[k] f) = none := fun k hk =>
      (hall k hk).halted?_eq h ▸ hrun k hk
    rw [run_of_running hrun htime hbound, run_of_running hrun' htime (hcount ▸ hbound)]

end Lockstep

/-- **Freshly loaded, twins are in lockstep.** -/
theorem Twins.lockstep_start (h : m.Twins n) {input : Word} {s t : Tape} (hs : m.tapeFor input = .ok s)
    (ht : n.tapeFor input = .ok t) (state : Nat) : Lockstep n.alphabet (.start state s) (.start state t) := by
  obtain ⟨-, rfl⟩ := (Tape.ofInput_ok_iff ..).1 hs
  obtain ⟨hinput, rfl⟩ := (Tape.ofInput_ok_iff ..).1 ht
  refine ⟨rfl, rfl, ?_, fun i => ?_⟩
  · show m.alphabet.mode.initialHead = n.alphabet.mode.initialHead + 1
    rw [h.alphabet.left_mode, h.alphabet.right_mode]
    rfl
  · show (m.alphabet.marker?.toList ++ input).toArray.getD (i + 1) m.alphabet.blank =
      n.alphabet.besideMarker ((n.alphabet.marker?.toList ++ input).toArray.getD i n.alphabet.blank)
    rw [h.alphabet.marker_eq, Alphabet.marker?_eq_none_iff.2 h.alphabet.right_mode, Array.getD_eq_getD_getElem?,
      Array.getD_eq_getD_getElem?, List.getElem?_toArray, List.getElem?_toArray]
    show input[i]?.getD m.alphabet.blank = n.alphabet.besideMarker (input[i]?.getD n.alphabet.blank)
    cases hget : input[i]? with
    | none => exact h.alphabet.blank_eq
    | some symbol => exact (h.alphabet.besideMarker_of_lt_inputSize (hinput symbol (List.mem_of_getElem? hget))).symm

/-- **On the same word they stay so**, for as long as the head of the first is off the marker. -/
theorem Twins.lockstep (h : m.Twins n) {input : Word} (hinput : Word.IsOver m.alphabet.inputSize input) :
    ∃ e f, m.execution input = .ok e ∧ n.execution input = .ok f ∧ e.stepCount = 0 ∧ (∀ k, n.Safe (n.next^[k] f)) ∧
      ∀ steps, (∀ k ≤ steps, (m.next^[k] e).tape.head ≠ 0) →
        ∀ k ≤ steps, Lockstep n.alphabet (m.next^[k] e) (n.next^[k] f) := by
  have hinput' : Word.IsOver n.alphabet.inputSize input := by
    unfold Alphabet.inputSize at hinput ⊢
    rwa [← h.alphabet.input_eq]
  obtain ⟨s, hs, he⟩ := execution_ok hinput
  obtain ⟨t, ht, hf⟩ := execution_ok hinput'
  have hsafe := safe_start h.left hs .loaded h.left.acceptState_pos
  have hsafe' := safe_start h.right ht .loaded h.right.acceptState_pos
  refine ⟨_, _, he, hf, rfl, hsafe'.iterate h.right, fun steps hoff k hk => ?_⟩
  exact (h.lockstep_start hs ht 0).iterate h hsafe hsafe' k (fun j hj => hoff j (Nat.le_trans hj hk))

/-! ## What is seen of a run -/

theorem mem_path : ∀ (n : Nat) (e : Execution) (k : Nat), k < n → (m.next^[k + 1] e).configuration ∈ m.path n e
  | n + 1, e, 0, _ => List.mem_cons_self
  | n + 1, e, k + 1, hk => by
    rw [Function.iterate_succ_apply]
    exact List.mem_cons_of_mem _ (mem_path n (m.next e) k (Nat.lt_of_succ_lt_succ hk))

/-- **Every configuration that a run comes to within its steps is seen.** -/
theorem mem_watchFrom_collect {limits : Limits} (htime : limits.stepCrossesTime = false) (stepsLeft : Nat)
    (e : Execution) (seen : Array Configuration) (hseen : e.configuration ∈ seen) (k : Nat) (hk : k ≤ stepsLeft) :
    (m.next^[k] e).configuration ∈ (watchFrom collect m limits stepsLeft e seen).2.2 := by
  obtain ⟨n, outcome, hstops⟩ := exists_stopsAfter m limits stepsLeft e
  have hall : ∀ j ≤ n, (m.next^[j] e).configuration ∈ (watchFrom collect m limits stepsLeft e seen).2.2 := by
    intro j hj
    rw [hstops.watched]
    have hcollect : (m.path n e).foldl collect seen = seen ++ (m.path n e).toArray := by
      unfold collect
      simp
    rw [hcollect, Array.mem_append]
    cases j with
    | zero => exact .inl hseen
    | succ j => exact .inr (List.mem_toArray.2 (mem_path n e j hj))
  rcases Nat.le_total k n with hle | hge
  · exact hall k hle
  · -- a run that stops early has halted, and goes nowhere from there
    cases hout : outcome with
    | stepBoundExceeded =>
      obtain rfl := hstops.spent hout
      exact hall k hk
    | timeBoundExceeded => exact absurd (htime.symm.trans (hstops.crossed hout)) Bool.false_ne_true
    | accepted | rejected =>
      have hhalted := hstops.halted (by rw [hout]; rfl)
      have hstays : m.next (m.next^[n] e) = m.next^[n] e := next_of_halted (by rw [hhalted]; exact Option.some_ne_none _)
      obtain ⟨j, rfl⟩ := Nat.exists_eq_add_of_le hge
      rw [Nat.add_comm, Function.iterate_add_apply, Function.iterate_fixed hstays]
      exact hall n (Nat.le_refl n)

end

/-- **As long as the left end is not reached, both tapes do.**  If transitions by name, none of which names the marker,
can all be registered in a machine with a marker, they can be in one on a two-way tape; on every word both are in the
same state, with the same symbols from the head's place on and before it, for as long as the first has its head off the
marker; and if a run of the first never shows its head there, the second gives the same report. -/
theorem modes_agree_off_marker {states : Nat} {userSymbols : List String} {inputSize : Nat}
    {transitions : List NamedTransition} (hnames : ∀ t ∈ transitions, t.read ≠ markerName ∧ t.write ≠ markerName)
    {m : Machine} (hm : ofNamed states userSymbols inputSize transitions .leftEnd = .ok m) :
    ∃ n, ofNamed states userSymbols inputSize transitions .twoWay = .ok n ∧ m.alphabet.input = n.alphabet.input ∧
      ∀ input, Word.IsOver m.alphabet.inputSize input →
        ∃ e f, m.execution input = .ok e ∧ n.execution input = .ok f ∧
          (∀ steps, (∀ k ≤ steps, (m.next^[k] e).tape.head ≠ 0) →
            ∀ k ≤ steps, m.Agree n (m.next^[k] e) (n.next^[k] f)) ∧
          ∀ bound, ∃ report seen, Decider.watchInput collect m input ⟨bound, none⟩ #[] = .ok (report, seen) ∧
            Decider.runInput m input ⟨bound, none⟩ = .ok report ∧
            ((∀ c ∈ seen, c.head ≠ 0) → Decider.runInput n input ⟨bound, none⟩ = .ok report) := by
  obtain ⟨n, hn, h⟩ := exists_twin hnames hm
  refine ⟨n, hn, h.alphabet.input_eq, fun input hinput => ?_⟩
  obtain ⟨e, f, he, hf, hcount, hsafe, hlockstep⟩ := h.lockstep hinput
  refine ⟨e, f, he, hf, fun steps hoff k hk => (hlockstep steps hoff k hk).agree h (hsafe k), fun bound => ?_⟩
  refine ⟨m.run ⟨bound, none⟩ e, (m.watch collect ⟨bound, none⟩ e #[]).2, ?_, runInput_of_execution he _,
    fun hseen => ?_⟩
  · rw [← watch_fst collect m _ _ #[]]
    exact (Result.bind_ok_iff ..).2 ⟨_, he, rfl⟩
  · have hoff : ∀ k ≤ bound, (m.next^[k] e).tape.head ≠ 0 := fun k hk => by
      refine hseen (m.next^[k] e).configuration ?_
      refine mem_watchFrom_collect rfl _ e _ Array.mem_push_self k ?_
      rwa [hcount]
    have hall := hlockstep bound hoff
    have hstart : Lockstep n.alphabet e f := hall 0 (Nat.zero_le bound)
    rw [runInput_of_execution hf, hstart.run_eq h rfl (hcount ▸ Nat.zero_add bound) hall]

/-- Writes each digit over as the other one, and accepts at the end of the input. -/
def flips : List NamedTransition :=
  [⟨0, "0", 0, "1", "R", false⟩, ⟨0, "1", 0, "0", "R", false⟩, ⟨0, blankName, 1, blankName, "L", false⟩]

/-- On both tapes a word is flipped and accepted in one more step than it is long. -/
theorem flips_in_both_modes :
    (∀ t ∈ flips, t.read ≠ markerName ∧ t.write ≠ markerName) ∧
      ∃ m n e f, ofNamed 3 ["0", "1"] 2 flips .leftEnd = .ok m ∧ ofNamed 3 ["0", "1"] 2 flips .twoWay = .ok n ∧
        m.execution [0, 1] = .ok e ∧ n.execution [0, 1] = .ok f ∧ (∀ k ≤ 3, m.Agree n (m.next^[k] e) (n.next^[k] f)) ∧
        Decider.runInput m [0, 1] ⟨9, none⟩ = .ok ⟨.accepted, 3, none⟩ ∧
        Decider.runInput n [0, 1] ⟨9, none⟩ = .ok ⟨.accepted, 3, none⟩ := by
  have hnames : ∀ t ∈ flips, t.read ≠ markerName ∧ t.write ≠ markerName := by decide +kernel
  have hempty : Machine.empty 3 ["0", "1"] 2 .leftEnd = .ok (blankBinary 3 .leftEnd) :=
    (empty_ok_iff ..).2 ⟨Alphabet.ofList_binary .leftEnd, (Table.empty_ok_iff ..).2 ⟨by decide, rfl⟩⟩
  let m : Machine := (flips.foldlM putNamed (blankBinary 3 .leftEnd)).toOption.getD (blankBinary 3 .leftEnd)
  have hput : flips.foldlM putNamed (blankBinary 3 .leftEnd) = .ok m := by decide +kernel
  have hm : ofNamed 3 ["0", "1"] 2 flips .leftEnd = .ok m := (Result.bind_ok_iff ..).2 ⟨_, hempty, hput⟩
  have hinput : Word.IsOver m.alphabet.inputSize [0, 1] := by decide +kernel
  obtain ⟨n, hn, -, hall⟩ := modes_agree_off_marker hnames hm
  obtain ⟨e, f, he, hf, hagree, hreport⟩ := hall [0, 1] hinput
  have he' : m.execution [0, 1] = .ok (.start 0 ⟨#[2, 0, 1], 1, 4, 3, some 2⟩) := by decide +kernel
  obtain rfl := Except.ok.inj (he.symm.trans he')
  obtain ⟨report, seen, hwatch, hrun, hsame⟩ := hreport 9
  have hrun' : Decider.runInput m [0, 1] ⟨9, none⟩ = .ok ⟨.accepted, 3, none⟩ := by decide +kernel
  obtain rfl := Except.ok.inj (hrun.symm.trans hrun')
  have hoff : ∀ k ≤ 3, (m.next^[k] (.start 0 ⟨#[2, 0, 1], 1, 4, 3, some 2⟩)).tape.head ≠ 0 := by decide +kernel
  have hseen : ∃ configurations, Decider.watchInput collect m [0, 1] ⟨9, none⟩ #[] =
      .ok (⟨.accepted, 3, none⟩, configurations) ∧ ∀ c ∈ configurations, c.head ≠ 0 :=
    ⟨(m.watch collect ⟨9, none⟩ (.start 0 ⟨#[2, 0, 1], 1, 4, 3, some 2⟩) #[]).2, by decide +kernel, by decide +kernel⟩
  obtain ⟨configurations, hwatch', hseen⟩ := hseen
  have hsame' := hsame (fun c hc => hseen c ((Prod.mk.inj (Except.ok.inj (hwatch.symm.trans hwatch'))).2 ▸ hc))
  exact ⟨hnames, m, n, _, f, hm, hn, he, hf, hagree 3 hoff, hrun, hsame'⟩

end Machine
end BoundedTuring
