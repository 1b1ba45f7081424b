import BoundedTuring.Proofs.Execution.Bounded
/-!
# Traces

Who watches a run sees a trace: the configuration it starts from and then the successor of each, as many as the report
counts steps (`IsTrace`).  Watching is folding an observer over that trace, whoever observes (`Decider.Shows`), so all of
them get the same report.  For a machine the successor of a configuration is what the transition in force makes of it,
and the trace ends where the run does (`Machine.Reachable.shows`).
-/
namespace BoundedTuring

/-- A trace of so many steps: configurations from a first to a last one, each of them the next after the one before. -/
structure IsTrace (Next : Configuration → Configuration → Prop) (first last : Configuration) (steps : Nat)
    (cs : List Configuration) : Prop where
  length_eq : cs.length = steps + 1
  head_eq : cs.head? = some first
  last_eq : cs.getLast? = some last
  chain : cs.IsChain Next

namespace IsTrace

variable {Next : Configuration → Configuration → Prop} {first second last : Configuration} {steps : Nat}
  {cs : List Configuration}

theorem single (Next : Configuration → Configuration → Prop) (c : Configuration) : IsTrace Next c c 0 [c] :=
  ⟨rfl, rfl, rfl, .singleton c⟩

theorem cons (hnext : Next first second) (h : IsTrace Next second last steps cs) :
    IsTrace Next first last (steps + 1) (first :: cs) := by
  obtain ⟨hlength, hhead, hlast, hchain⟩ := h
  obtain ⟨rest, rfl⟩ := List.head?_eq_some_iff.1 hhead
  refine ⟨by rw [List.length_cons, hlength], rfl, ?_, ?_⟩
  · rw [List.getLast?_cons_cons, hlast]
  · exact List.isChain_cons_cons.2 ⟨hnext, hchain⟩

/-- **What holds at the start and is kept by every step holds all along a trace.** -/
theorem getElem?_induct (h : IsTrace Next first last steps cs) {P : Nat → Configuration → Prop} (hfirst : P 0 first)
    (hnext : ∀ i c c', Next c c' → P i c → P (i + 1) c') : ∀ (i : Nat) (c : Configuration), cs[i]? = some c → P i c
  | 0, c, hc => by
    rw [← List.head?_eq_getElem?, h.head_eq] at hc
    obtain rfl := Option.some.inj hc
    exact hfirst
  | i + 1, c, hc => by
    obtain ⟨hlt, rfl⟩ := List.getElem?_eq_some_iff.1 hc
    have ih := h.getElem?_induct hfirst hnext i cs[i] (List.getElem?_eq_getElem (Nat.lt_of_succ_lt hlt))
    exact hnext i _ _ (h.chain.getElem i hlt) ih

end IsTrace

/-! ## Watching -/

theorem foldl_collect (cs : List Configuration) : cs.foldl collect #[] = cs.toArray := by
  unfold collect
  simp

/-- What a run on a word reports and shows: to everyone the same report, and to who watches, the configurations of a
trace one after the other. -/
structure Decider.Shows {α : Type} [Decider α] (d : α) (w : Word) (limits : Limits) (report : RunReport)
    (cs : List Configuration) : Prop where
  reported : runInput d w limits = .ok report
  watched : ∀ {σ : Type} (observe : σ → Configuration → σ) (seen : σ),
    watchInput observe d w limits seen = .ok (report, cs.foldl observe seen)
  collected : watchInput collect d w limits #[] = .ok (report, cs.toArray)

/-- What everyone sees says it all. -/
theorem Decider.Shows.of_watched {α : Type} [Decider α] {d : α} {w : Word} {limits : Limits} {report : RunReport}
    {cs : List Configuration} (h : ∀ {σ : Type} (observe : σ → Configuration → σ) (seen : σ),
      watchInput observe d w limits seen = .ok (report, cs.foldl observe seen)) : Shows d w limits report cs where
  reported := (Result.bind_ok_iff ..).2 ⟨_, h (fun _ _ => ()) (), rfl⟩
  watched := h
  collected := by rw [h, foldl_collect]

theorem Decider.Shows.eq_of_collected {α : Type} [Decider α] {d : α} {w : Word} {limits : Limits}
    {report report' : RunReport} {cs cs' : List Configuration} (h : Shows d w limits report cs)
    (hcollect : watchInput collect d w limits #[] = .ok (report', cs'.toArray)) : report = report' ∧ cs = cs' := by
  obtain ⟨hreport, hcs⟩ := Prod.mk.inj (Except.ok.inj (h.collected.symm.trans hcollect))
  exact ⟨hreport, List.toArray_inj hcs⟩

namespace Machine

/-! ## Successors -/

/-- The tape of a machine that a configuration is on. -/
def tapeOf (m : Machine) (c : Configuration) : Tape :=
  ⟨c.tape, c.head, m.alphabet.size, m.alphabet.blank, m.alphabet.marker?⟩

/-- One configuration after another: the machine has not halted in the first, and the second is what the transition in
force makes of it. -/
def Successor (m : Machine) (c c' : Configuration) : Prop :=
  c.state ≠ m.acceptState ∧ c.state ≠ m.rejectState ∧
    ∃ t, m.table.get ⟨c.state, (m.tapeOf c).current⟩ = .ok t ∧
      let tape := (m.tapeOf c).apply t.write t.direction m.table.stillAllowed
      c' = ⟨t.next, tape.cells, tape.head, c.step + 1⟩

section

variable {m : Machine} {e : Execution}

theorem Safe.tapeOf_configuration (h : m.Safe e) : m.tapeOf e.configuration = e.tape := by
  obtain ⟨hsize, hblank, hmarker, -⟩ := h.tape
  show (⟨e.tape.cells, e.tape.head, m.alphabet.size, m.alphabet.blank, m.alphabet.marker?⟩ : Tape) = e.tape
  rw [← hsize, ← hblank, ← hmarker]

/-- **A step leads to the successor.** -/
theorem Safe.successor (h : m.Safe e) (hm : m.Reachable) (hrun : m.halted? e = none) :
    m.Successor e.configuration (m.next e).configuration := by
  obtain ⟨haccept, hreject⟩ := (halted?_eq_none_iff m e).1 hrun
  refine ⟨haccept, hreject, m.inForce e, ?_, ?_⟩
  · rw [h.tapeOf_configuration]
    exact (Table.get_ok_iff ..).2 ⟨h.key_inRange hm hrun, rfl⟩
  · rw [h.tapeOf_configuration, next_of_running hrun, advance_eq]
    rfl

/-- **Steps of a machine that does not halt make a trace.** -/
theorem isTrace_path (hm : m.Reachable) : ∀ (n : Nat) {e : Execution}, m.Safe e →
    (∀ k < n, m.halted? (m.next^[k] e) = none) →
    IsTrace m.Successor e.configuration (m.next^[n] e).configuration n (e.configuration :: m.path n e)
  | 0, _, _, _ => .single ..
  | n + 1, e, hsafe, hrun => by
    have hfirst : m.halted? e = none := hrun 0 (Nat.succ_pos n)
    refine .cons (hsafe.successor hm hfirst) ?_
    rw [Function.iterate_succ_apply]
    exact isTrace_path hm n (hsafe.iterate hm 1) fun k hk => hrun (k + 1) (Nat.succ_lt_succ hk)

/-! ## Watched runs -/

/-- **A watched run is a trace**, of as many steps as the report counts; what it reports is where the trace ends. -/
theorem exists_trace (hm : m.Reachable) (hsafe : m.Safe e) (hcount : e.stepCount = 0) (limits : Limits) :
    ∃ report cs last, (∀ {σ : Type} (observe : σ → Configuration → σ) (seen : σ),
        m.watch observe limits e seen = (report, cs.foldl observe seen)) ∧
      IsTrace m.Successor e.configuration last report.stepCount cs ∧
      (report.outcome = .accepted → last.state = m.acceptState) ∧
      (report.outcome = .rejected → last.state = m.rejectState) := by
  obtain ⟨n, outcome, hstops⟩ := exists_stopsAfter m limits (limits.maxSteps - e.stepCount) e
  have hsteps : (m.next^[n] e).stepCount = n := by
    rw [stepCount_iterate n hstops.running, hcount, Nat.zero_add]
  refine ⟨⟨outcome, n, limits.elapsed⟩, e.configuration :: m.path n e, (m.next^[n] e).configuration,
    fun observe seen => ?_, isTrace_path hm n hsafe hstops.running, ?_, ?_⟩
  · unfold watch
    simp only [hstops.watched, hsteps, List.foldl_cons]
  · rintro rfl
    rcases halted_cases (hstops.halted rfl) with ⟨-, hstate⟩ | ⟨hother, -⟩
    · exact hstate
    · cases hother
  · rintro rfl
    rcases halted_cases (hstops.halted rfl) with ⟨hother, -⟩ | ⟨-, hstate⟩
    · cases hother
    · exact hstate

/-- What a run of a machine on a word shows: a trace from the first state and the loaded word, to a halting state if that
is what is reported. -/
structure ShowsRun (m : Machine) (w : Word) (limits : Limits) (tape : Tape) (report : RunReport)
    (cs : List Configuration) (last : Configuration) : Prop where
  loaded : m.tapeFor w = .ok tape
  shows : Decider.Shows m w limits report cs
  isTrace : IsTrace m.Successor ⟨0, tape.cells, tape.head, 0⟩ last report.stepCount cs
  numbered : ∀ i (c : Configuration), cs[i]? = some c → c.step = i
  accepted : report.outcome = .accepted → last.state = m.acceptState
  rejected : report.outcome = .rejected → last.state = m.rejectState

theorem Reachable.shows (hm : m.Reachable) {w : Word} (hw : Word.IsOver m.alphabet.inputSize w) (limits : Limits) :
    ∃ tape report cs last, m.ShowsRun w limits tape report cs last := by
  obtain ⟨tape, hload, hexecution⟩ := execution_ok hw
  obtain ⟨report, cs, last, hwatch, htrace, haccepted, hrejected⟩ :=
    exists_trace hm (safe_start hm hload .loaded hm.acceptState_pos) rfl limits
  refine ⟨tape, report, cs, last, hload, .of_watched fun observe seen => ?_, htrace, ?_, haccepted, hrejected⟩
  · rw [← hwatch]
    exact (Result.bind_ok_iff ..).2 ⟨_, hexecution, rfl⟩
  · exact htrace.getElem?_induct (P := fun i (c : Configuration) => c.step = i) rfl
      fun i c c' ⟨_, _, _, _, hc'⟩ hstep => by rw [hc', hstep]

end

end Machine
end BoundedTuring
