import BoundedTuring.Description.Automaton
import BoundedTuring.Description.Machine
import BoundedTuring.Storage.FileSystem
/-!
# Loading descriptions

Descriptions are read from files.  A directory is loaded by loading every file in it with the extension of
machine descriptions, and the results are sorted (`compareResults`): the machines that could be loaded by their paths,
and the errors after them, in the order they were met.
-/
namespace BoundedTuring

def descriptionExtension : String := "tm"

abbrev TextReader := String → Except FileFault String

def loadText (reader : TextReader) (path : String) : Result String :=
  match reader path with
  | .ok text => .ok text
  | .error fault => Result.fail (.fileNotRead path fault)

def loadMachine (reader : TextReader) (mode : TapeMode) (path : String) : Result MachineDescription := do
  MachineDescription.parse mode (← loadText reader path)

def loadAutomaton (reader : TextReader) (path : String) : Result AutomatonDescription := do
  AutomatonDescription.parse (← loadText reader path)

structure LoadedMachine where
  name : String
  path : String
  description : MachineDescription
  deriving DecidableEq, Repr

/-- What a directory was loaded to: machines and errors, one after the other. -/
structure Loads where
  toList : List (Result LoadedMachine)
  deriving Repr, Inhabited

namespace Loads

def loaded (l : Loads) : List LoadedMachine := l.toList.filterMap Except.toOption

def failed (l : Loads) : List Error := l.toList.filterMap (fun
  | .ok _ => none
  | .error e => some e)

/-- Loads a file of a directory, if its name has the extension. -/
def loadFile? (mode : TapeMode) (directory : String) : String × FileNode → Option (Result LoadedMachine)
  | (_, .directory) => none
  | (name, .file content) =>
    if Path.extension? name = some descriptionExtension then
      let path := Path.join directory name
      let reader : TextReader := fun _ => match content with
        | some text => .ok text
        | none => .error .notText
      match loadMachine reader mode path with
      | .ok description => some (.ok ⟨name, path, description⟩)
      | .error e => some (Result.fail (.machineNotLoaded path e.message))
    else none

/-- How one result compares with another: machines by their paths, and an error comes after every machine and is like
every other error. -/
def compareResults : Result LoadedMachine → Result LoadedMachine → Ordering
  | .ok a, .ok b => Path.compare a.path b.path
  | .ok _, .error _ => .lt
  | .error _, .ok _ => .gt
  | .error _, .error _ => .eq

/-- Sorts the results, and leaves those that are alike in the order they are in. -/
def ofResults (results : List (Result LoadedMachine)) : Loads :=
  ⟨results.mergeSort fun a b => (compareResults a b).isLE⟩

def ofListing (mode : TapeMode) (directory : String) (listing : List (String × FileNode)) : Loads :=
  ofResults (listing.filterMap (loadFile? mode directory))

def ofDirectory (fs : FileSystem) (mode : TapeMode) (directory : String) : Loads :=
  match fs.list directory with
  | .ok listing => ofListing mode directory listing
  | .error fault =>
    match fs.resolve directory with
    | .ok _ => ⟨[Result.fail (.directoryNotRead directory fault)]⟩
    | .error _ => ⟨[Result.fail (.directoryNotFound directory)]⟩

end Loads
end BoundedTuring
