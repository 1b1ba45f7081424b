import BoundedTuring.Automaton
import BoundedTuring.Machine
import BoundedTuring.Proofs.Result
import BoundedTuring.Simulation.Config
/-!
# Faults of operations

The operations that the lines of a description ask for don't know of lines.  What they fail with has no line number, and
wording that does not look like one (`Error.IsPlain`).
-/
namespace BoundedTuring

open Result (FailsOnly)

/-! ## Wording -/

/-- Words that begin with another letter than a line number does. -/
def Unmarked (words : String) : Prop := ∃ c, words.toList.head? = some c ∧ c ≠ 'l'

namespace Unmarked

theorem ofList {c : Char} (hc : c ≠ 'l') (rest : List Char) : Unmarked (String.ofList (c :: rest)) :=
  ⟨c, by rw [String.toList_ofList]; rfl, hc⟩

theorem append {a : String} (h : Unmarked a) (b : String) : Unmarked (a ++ b) := by
  obtain ⟨c, hc, hne⟩ := h
  refine ⟨c, ?_, hne⟩
  rw [String.toList_append, List.head?_append, hc]
  rfl

theorem not_line {words : String} (h : Unmarked words) (number : Nat) :
    ¬ s!"line {number}: ".toList <+: words.toList := by
  rintro ⟨rest, hrest⟩
  obtain ⟨c, hc, hne⟩ := h
  rw [← hrest, String.toList_append, String.toList_append, List.append_assoc, List.append_assoc] at hc
  exact hne (Option.some.inj hc).symm

end Unmarked

/-- A fault with a wording of its own. -/
def Fault.isWorded : Fault → Bool
  | .layout _ | .other .. => false
  | _ => true

namespace Fault

variable {fault : Fault}

theorem kind_ne_layout (h : fault.isWorded = true) : fault.kind ≠ .layout := by
  cases fault
  case layout | other => cases h
  all_goals nofun

/-- **No wording looks like a line number.** -/
theorem unmarked_cause (h : fault.isWorded = true) : Unmarked fault.cause := by
  cases fault
  case layout | other => cases h
  all_goals
    unfold cause
    repeat with_reducible apply Unmarked.append
    exact .ofList (by decide) _

end Fault

/-! ## Faults of operations -/

/-- An error as operations fail with that don't know of lines. -/
def Error.IsPlain (e : Error) : Prop := ∃ fault : Fault, fault.isWorded = true ∧ e = .ofFault fault

/-- One of these of a certain kind. -/
def Error.IsPlainOf (kind : ErrorKind) (e : Error) : Prop := e.IsPlain ∧ e.kind = kind

namespace Result.FailsOnly

variable {α : Type} {fault : Fault}

theorem fail (h : fault.isWorded = true) : FailsOnly Error.IsPlain (Result.fail fault : Result α) :=
  .error ⟨fault, h, rfl⟩

/-- A condition that refuses, in front of the rest. -/
theorem guard {c : Prop} [Decidable c] (h : fault.isWorded = true) {f : Unit → Result α}
    (hf : FailsOnly Error.IsPlain (f ())) : FailsOnly Error.IsPlain (if c then Result.fail fault >>= f else f ()) :=
  .ite (.error ⟨fault, h, rfl⟩) hf

end Result.FailsOnly

theorem checkSymbols_plainOf (reserved : List String) : ∀ seen symbols : List String,
    FailsOnly (Error.IsPlainOf .alphabet) (checkSymbols reserved seen symbols)
  | _, [] => .ok ()
  | seen, symbol :: rest => by
    rw [checkSymbols]
    split
    · exact .error ⟨⟨_, rfl, rfl⟩, rfl⟩
    · exact checkSymbols_plainOf reserved (symbol :: seen) rest

namespace InputAlphabet

/-- **Symbols that make no input alphabet are refused as an alphabet.** -/
theorem ofListAvoiding_plainOf (reserved symbols : List String) :
    FailsOnly (Error.IsPlainOf .alphabet) (ofListAvoiding reserved symbols) := by
  unfold ofListAvoiding
  refine .ite (.error ⟨⟨_, rfl, rfl⟩, rfl⟩) ?_
  refine .bind (checkSymbols_plainOf reserved [] symbols) fun _ => ?_
  dsimp only
  split
  · exact .error ⟨⟨_, rfl, rfl⟩, rfl⟩
  · exact .pure _

theorem ofListAvoiding_plain (reserved symbols : List String) :
    FailsOnly Error.IsPlain (ofListAvoiding reserved symbols) :=
  (ofListAvoiding_plainOf reserved symbols).mono fun _ => And.left

theorem tokenize_plain (a : InputAlphabet) (text : String) : FailsOnly Error.IsPlain (a.tokenize text) := by
  unfold tokenize
  split
  · exact .ok _
  · exact .fail rfl

end InputAlphabet

namespace Alphabet

/-- **Nor are symbols that make no tape alphabet refused as anything else.** -/
theorem ofList_plainOf (userSymbols : List String) (inputSize : Nat) (mode : TapeMode) :
    FailsOnly (Error.IsPlainOf .alphabet) (ofList userSymbols inputSize mode) := by
  unfold ofList
  refine .ite (.error ⟨⟨_, rfl, rfl⟩, rfl⟩) ?_
  refine .ite (.error ⟨⟨_, rfl, rfl⟩, rfl⟩) ?_
  refine .bind (checkSymbols_plainOf ..) fun _ => ?_
  exact .bind (InputAlphabet.ofListAvoiding_plainOf ..) fun _ => .pure _

theorem ofList_plain (userSymbols : List String) (inputSize : Nat) (mode : TapeMode) :
    FailsOnly Error.IsPlain (ofList userSymbols inputSize mode) :=
  (ofList_plainOf userSymbols inputSize mode).mono fun _ => And.left

end Alphabet

namespace Table

theorem checkStateCount_plain (states : Nat) : FailsOnly Error.IsPlain (checkStateCount states) :=
  .ite (.ok ()) (.fail rfl)

theorem checkKey_plain (t : Table) (key : Key) : FailsOnly Error.IsPlain (t.checkKey key) :=
  .bind (.ite (.ok ()) (.fail rfl)) fun _ => .ite (.fail rfl) (.pure ())

theorem validate_plain (t : Table) (key : Key) (transition : Transition) :
    FailsOnly Error.IsPlain (t.validate key transition) := by
  refine .bind (t.checkKey_plain key) fun _ => .guard rfl (.guard rfl (.guard rfl ?_))
  exact .ite (.fail rfl) (.pure ())

theorem put_plain (t : Table) (key : Key) (transition : Transition) (replace : Bool) :
    FailsOnly Error.IsPlain (t.put key transition replace) :=
  .bind (t.validate_plain key transition) fun _ => .ite (.ite (.pure _) (.fail rfl)) (.pure _)

end Table

namespace Machine

theorem empty_plain (states : Nat) (userSymbols : List String) (inputSize : Nat) (mode : TapeMode) :
    FailsOnly Error.IsPlain (empty states userSymbols inputSize mode) := by
  refine .bind (Alphabet.ofList_plain userSymbols inputSize mode) fun a => .bind ?_ fun _ => .pure _
  exact .bind (Table.checkStateCount_plain states) fun _ => .pure _

theorem symbolIndex_plain (m : Machine) (symbol : String) : FailsOnly Error.IsPlain (m.symbolIndex symbol) := by
  unfold symbolIndex
  split
  · exact .ok _
  · exact .fail rfl

theorem putByName_plain (m : Machine) (state : Nat) (read : String) (next : Nat) (write direction : String)
    (replace : Bool) : FailsOnly Error.IsPlain (m.putByName state read next write direction replace) := by
  refine .bind (m.symbolIndex_plain read) fun _ => .bind (m.symbolIndex_plain write) fun _ => ?_
  split
  · exact .fail rfl
  · exact .bind (.bind (m.table.put_plain ..) fun _ => .pure _) fun _ => .pure _

end Machine

namespace Automaton

theorem ofSymbols_plain (states : Nat) (symbols : List String) :
    FailsOnly Error.IsPlain (ofSymbols states symbols) := by
  refine .bind (.ite (.ok ()) (.fail rfl)) fun _ => ?_
  exact .bind (InputAlphabet.ofListAvoiding_plain [] symbols) fun _ => .pure _

theorem checkState_plain (d : Automaton) (state : Nat) : FailsOnly Error.IsPlain (d.checkState state) :=
  .ite (.ok ()) (.fail rfl)

theorem put_plain (d : Automaton) (key : Key) (next : Nat) (replace : Bool) :
    FailsOnly Error.IsPlain (d.put key next replace) := by
  have hkey : FailsOnly Error.IsPlain (d.checkKey key) :=
    .bind (d.checkState_plain key.state) fun _ => .ite (.fail rfl) (.pure ())
  exact .bind hkey fun _ => .guard rfl (.guard rfl (.pure _))

theorem putByName_plain (d : Automaton) (state : Nat) (read : String) (next : Nat) (replace : Bool) :
    FailsOnly Error.IsPlain (d.putByName state read next replace) := by
  unfold putByName
  split
  · exact .fail rfl
  · exact d.put_plain ..

end Automaton

theorem SimulationConfig.validate_plain (c : SimulationConfig) (base : Nat) :
    FailsOnly Error.IsPlain (c.validate base) := by
  have hcount : ∀ c : SimulationConfig, FailsOnly Error.IsPlain (c.checkCount base) :=
    fun _ => .ite (.fail rfl) (.ok ())
  have hplace : FailsOnly Error.IsPlain (c.validateInPlace base).1 := by
    unfold validateInPlace
    split
    · exact .fail rfl
    · dsimp only
      split
      · exact hcount _
      · split
        · exact .fail rfl
        · exact hcount _
  unfold validate
  split
  · exact .ok _
  · rename_i e _ he
    exact .error (hplace.of_error e (congrArg Prod.fst he))

end BoundedTuring
