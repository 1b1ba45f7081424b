import BoundedTuring.Storage.Loading
import BoundedTuring.Bundled
import BoundedTuring.Text.Lowercase
/-!
# Registries

A registry holds machine descriptions under distinct names, in the order they were registered in.  It also counts
the machines whose descriptions it parsed itself.
-/
namespace BoundedTuring

structure RegisteredMachine where
  name : String
  description : MachineDescription
  deriving DecidableEq, Repr, Inhabited

structure Registry where
  machines : Array RegisteredMachine
  /-- How many of the machines were registered from a text or a directory. -/
  parsedCount : Nat
  deriving DecidableEq, Repr, Inhabited

structure MachineInfo where
  index : Nat
  name : String
  stateCount : Nat
  tapeAlphabet : Array String
  inputSize : Nat
  transitionCount : Nat
  mode : TapeMode
  deriving DecidableEq, Repr

namespace Registry

def empty : Registry := ⟨#[], 0⟩

def size (r : Registry) : Nat := r.machines.size

def names (r : Registry) : List String := r.machines.toList.map (·.name)

def indexOf? (r : Registry) (name : String) : Option Nat := r.machines.findIdx? (·.name == name)

/-! ## Registering -/

/-- Registers a machine under a name no other has, and gives its index. -/
def register (r : Registry) (name : String) (description : MachineDescription) : Result (Nat × Registry) :=
  if (r.indexOf? name).isSome then Result.fail (.nameTaken name)
  else .ok (r.size, { r with machines := r.machines.push ⟨name, description⟩ })

def countParsed (r : Registry) : Registry := { r with parsedCount := r.parsedCount + 1 }

/-- Parses a description for a tape with a left end and registers it. -/
def registerText (r : Registry) (name text : String) : Result (Nat × Registry) := do
  let description ← MachineDescription.parse .leftEnd text
  let (index, r) ← r.register name description
  return (index, r.countParsed)

/-- Registers a loaded machine under the stem of its file name and counts it, or skips it if the name is taken. -/
def registerLoaded : Nat × Registry → LoadedMachine → Nat × Registry
  | (added, r), m =>
    match r.register (Path.stem m.name) m.description with
    | .ok (_, r) => (added + 1, r.countParsed)
    | .error _ => (added, r)

/-- Registers what was loaded from a directory, and gives how many machines were added. -/
def registerLoads (r : Registry) (loads : Loads) : Nat × Registry :=
  loads.loaded.foldl registerLoaded (0, r)

def bundled : Registry :=
  bundledDescriptions.foldl (fun r (name, text) =>
    match r.registerText name text with
    | .ok (_, r) => r
    | .error _ => r) empty

/-! ## Looking up -/

def byIndex (r : Registry) (index : Nat) : Result RegisteredMachine :=
  match r.machines[index]? with
  | some m => .ok m
  | none => Result.fail (.machineIndexOutOfRange index)

def byName (r : Registry) (name : String) : Result RegisteredMachine :=
  match r.machines.find? (·.name == name) with
  | some m => .ok m
  | none => Result.fail (.nameNotFound name)

/-- Whether the lower case of a name holds that of a query. -/
def nameMatches (query name : String) : Bool := Text.occursIn (Text.lowercase query) (Text.lowercase name)

/-- The indices of the machines whose name matches a query. -/
def search (r : Registry) (query : String) : List Nat :=
  (List.range r.size).filter (fun index => (r.machines[index]?).any (fun m => nameMatches query m.name))

def info (r : Registry) (index : Nat) : Result MachineInfo := do
  let registered ← r.byIndex index
  let m := registered.description.machine
  return {
    index
    name := registered.name
    stateCount := m.stateCount
    tapeAlphabet := m.alphabet.symbols
    inputSize := m.alphabet.inputSize
    transitionCount := m.table.definedCount
    mode := m.mode }

end Registry
end BoundedTuring
