import BoundedTuring.Description.Automaton
import BoundedTuring.Description.Machine
import BoundedTuring.Proofs.Faults
/-!
# What a line is refused for

An error that has no line number has exactly one once it was met in a check of a line (`Line.check_refusesOn`).  So a
reader of a line refuses on that line only (`Refusal.On`): each of them is made of checks and of smaller readers.
-/
namespace BoundedTuring

open Result (FailsOnly)

/-! ## Refusals of lines -/

/-- A refusal that was met on a line: a fault of its layout, or one that says where it is by one line number. -/
inductive Refusal.On (number : Nat) : Refusal → Prop
  | layout (expectation : Expectation) : On number (.layout number expectation)
  | error {fault : Fault} (h : fault.isWorded = true) : On number (.error ⟨fault, [number]⟩)

/-- A reader of a line that refuses on that line only. -/
abbrev RefusesOn {α : Type} (line : Line) (x : Reading α) : Prop := FailsOnly (Refusal.On line.number) x

namespace Line

variable {α : Type} (line : Line)

/-- **Checked for a line, an error has its number, and no other.** -/
theorem check_refusesOn {x : Result α} (h : FailsOnly Error.IsPlain x) : RefusesOn line (line.check x) := by
  cases x with
  | ok a => exact .ok a
  | error e =>
    obtain ⟨fault, hworded, rfl⟩ := h.of_error e rfl
    have honLine : (Error.ofFault fault).onLine line.number = ⟨fault, [line.number]⟩ :=
      if_neg (Fault.kind_ne_layout hworded)
    rw [check, honLine]
    exact .error (.error hworded)

theorem refuse_refusesOn {fault : Fault} (h : fault.isWorded = true) :
    RefusesOn line (line.refuse fault : Reading α) := line.check_refusesOn (.fail h)

theorem refuseLayout_refusesOn (expectation : Expectation) :
    RefusesOn line (line.refuseLayout expectation : Reading α) := .error (.layout expectation)

theorem fields_refusesOn : RefusesOn line line.fields := by
  unfold fields
  split
  · exact .ok _
  · exact line.refuseLayout_refusesOn _

theorem fieldsOf_refusesOn (what : String) (count : Nat) : RefusesOn line (line.fieldsOf what count) :=
  .bind line.fields_refusesOn fun _ => .ite (.pure _) (line.refuseLayout_refusesOn _)

theorem readNumber_refusesOn (name text : String) : RefusesOn line (line.readNumber name text) := by
  unfold readNumber
  split
  · exact .ok _
  · exact line.refuse_refusesOn rfl

end Line

namespace MachineDescription

theorem readHeader_refusesOn (mode : TapeMode) (line : Line) : RefusesOn line (readHeader mode line) := by
  refine .bind line.fields_refusesOn fun fields => ?_
  split
  · refine .bind (line.readNumber_refusesOn ..) fun states => .bind (line.readNumber_refusesOn ..) fun _ =>
      .bind (line.readNumber_refusesOn ..) fun _ => ?_
    refine .bind (line.check_refusesOn (Table.checkStateCount_plain states)) fun _ => ?_
    exact .ite (line.refuse_refusesOn rfl) (.pure _)
  · exact line.refuseLayout_refusesOn _

theorem readSymbols_refusesOn (mode : TapeMode) (header : Header) (line : Line) :
    RefusesOn line (readSymbols mode header line) :=
  .bind (line.fieldsOf_refusesOn ..) fun _ => line.check_refusesOn (Machine.empty_plain ..)

theorem readCount_refusesOn (line : Line) : RefusesOn line (readCount line) := by
  refine .bind line.fields_refusesOn fun fields => ?_
  split
  · exact line.readNumber_refusesOn ..
  · exact line.refuseLayout_refusesOn _

theorem readTransition_refusesOn (m : Machine) (line : Line) : RefusesOn line (readTransition m line) := by
  refine .bind line.fields_refusesOn fun fields => ?_
  split
  · refine .bind (line.readNumber_refusesOn ..) fun _ => .bind (line.readNumber_refusesOn ..) fun _ => ?_
    exact .bind (line.check_refusesOn (m.putByName_plain ..)) fun _ => .pure _
  · exact line.refuseLayout_refusesOn _

end MachineDescription

namespace AutomatonDescription

theorem readHeader_refusesOn (line : Line) : RefusesOn line (readHeader line) := by
  refine .bind line.fields_refusesOn fun fields => ?_
  split
  · refine .bind (line.readNumber_refusesOn ..) fun states => .bind (line.readNumber_refusesOn ..) fun _ =>
      .bind (line.readNumber_refusesOn ..) fun _ => .bind (line.readNumber_refusesOn ..) fun _ => ?_
    refine .bind (line.check_refusesOn (.ite (.ok ()) (.fail rfl))) fun _ => ?_
    exact .ite (line.refuse_refusesOn rfl) (.pure _)
  · exact line.refuseLayout_refusesOn _

theorem readSymbols_refusesOn (header : Header) (line : Line) : RefusesOn line (readSymbols header line) :=
  .bind (line.fieldsOf_refusesOn ..) fun _ => line.check_refusesOn (Automaton.ofSymbols_plain ..)

theorem acceptEach_refusesOn (line : Line) : ∀ (states : List String) (d : Automaton),
    RefusesOn line (acceptEach line d states)
  | [], d => .ok d
  | text :: rest, d => by
    refine .bind (line.readNumber_refusesOn ..) fun state => ?_
    refine .bind (line.check_refusesOn (.bind (d.checkState_plain state) fun _ => .pure _)) fun _ => ?_
    refine .ite (line.refuse_refusesOn rfl) (.bind ?_ fun d => acceptEach_refusesOn line rest d)
    exact line.check_refusesOn (.bind (d.checkState_plain state) fun _ => .pure _)

theorem readAccepting_refusesOn (d : Automaton) (count : Nat) (line : Line) :
    RefusesOn line (readAccepting d count line) := by
  refine .ite (.ite (.ok d) (line.refuseLayout_refusesOn _)) ?_
  exact .bind (line.fieldsOf_refusesOn ..) fun fields => acceptEach_refusesOn line fields d

theorem readTransition_refusesOn (d : Automaton) (line : Line) : RefusesOn line (readTransition d line) := by
  refine .bind line.fields_refusesOn fun fields => ?_
  split
  · refine .bind (line.readNumber_refusesOn ..) fun _ => .bind (line.readNumber_refusesOn ..) fun _ => ?_
    exact line.check_refusesOn (d.putByName_plain ..)
  · exact line.refuseLayout_refusesOn _

end AutomatonDescription

/-! ## Settings -/

namespace Settings

variable (a : InputAlphabet) (line : Line) (fields : List String)

theorem readFields_refusesOn (most : Nat) : RefusesOn line (readFields line most) :=
  .ite (.ok []) (.bind line.fields_refusesOn fun _ => .ite (line.refuseLayout_refusesOn _) (.pure _))

theorem numberAt_refusesOn (index : Nat) (name : String) (standard : Nat) :
    RefusesOn line (numberAt line fields index name standard) := by
  unfold numberAt
  split
  · exact line.readNumber_refusesOn ..
  · exact .ok _

theorem readRange_refusesOn : RefusesOn line (readRange line fields) := by
  have hnumber := numberAt_refusesOn line fields
  refine .bind (hnumber ..) fun _ => .ite (.pure _) (.ite (.bind (hnumber ..) fun _ => .pure _) (.ite ?_ (.pure _)))
  exact .bind (hnumber ..) fun _ => .bind (hnumber ..) fun _ => .pure _

theorem readInitial_refusesOn (index : Nat) (config : SimulationConfig) :
    RefusesOn line (readInitial a line fields index config) := by
  unfold readInitial
  split
  · exact .bind (line.check_refusesOn (a.tokenize_plain _)) fun _ => .pure _
  · exact .ok _

theorem readTrace_refusesOn : RefusesOn line (readTrace line fields) := by
  unfold readTrace
  split
  · split
    · exact .ok _
    · exact line.refuse_refusesOn rfl
  · exact .ok _

theorem readTimeBound_refusesOn : RefusesOn line (readTimeBound line fields) := by
  unfold readTimeBound
  split
  · exact .ok _
  · split
    · exact .map (numberAt_refusesOn ..)
    · exact .ok _
    · exact .ite (.map (line.readNumber_refusesOn ..)) (line.refuse_refusesOn rfl)

theorem checkTimeBound_refusesOn (maxTime : Option Nat) : RefusesOn line (checkTimeBound line maxTime) := by
  cases maxTime with
  | none => exact .ok ()
  | some time => exact .ite (line.refuse_refusesOn rfl) (.ok ())

theorem readFurther_refusesOn (config : SimulationConfig) : RefusesOn line (readFurther a line fields config) := by
  refine .bind (numberAt_refusesOn ..) fun _ => .bind (readInitial_refusesOn ..) fun _ => ?_
  refine .bind (readTrace_refusesOn ..) fun _ => .bind (readTimeBound_refusesOn ..) fun _ => ?_
  exact .bind (checkTimeBound_refusesOn ..) fun _ => .pure _

/-- Whichever way the further fields were read, the configuration is validated last. -/
theorem read_refusesOn : RefusesOn line (read a line) := by
  refine .bind (readFields_refusesOn ..) fun fields => .ite (.pure _) (.bind (readRange_refusesOn ..) fun config => ?_)
  have hvalidated (settings : Settings) : RefusesOn line (do
      let config ← line.check (settings.config.validate a.size)
      return { settings with config }) :=
    .bind (line.check_refusesOn (SimulationConfig.validate_plain ..)) fun _ => .pure _
  exact .ite (hvalidated _) (.bind (readFurther_refusesOn ..) hvalidated)

theorem readAutomaton_refusesOn : RefusesOn line (readAutomaton a line) := by
  refine .bind (readFields_refusesOn ..) fun fields => .ite (.pure _) (.bind (readRange_refusesOn ..) fun config => ?_)
  have hvalidated (config : SimulationConfig) : RefusesOn line (line.check (config.validate a.size)) :=
    line.check_refusesOn (SimulationConfig.validate_plain ..)
  exact .ite (hvalidated _) (.bind (readInitial_refusesOn ..) hvalidated)

end Settings
end BoundedTuring
