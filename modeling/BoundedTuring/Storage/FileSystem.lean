import BoundedTuring.Error
import BoundedTuring.Storage.Path
/-!
# File systems

A file system says which names there are and what they stand for.  A path is followed name by name from the
starting place, which is a directory; every name passed through must be one too.
-/
namespace BoundedTuring

/-- What a name stands for.  A file whose bytes are not text has no content. -/
inductive FileNode where
  | file (content : Option String)
  | directory
  deriving DecidableEq, Repr

def FileNode.ofBytes (bytes : ByteArray) : FileNode := file (String.fromUTF8? bytes)

/-- The nodes of a file system, each with the names on the way to it. -/
structure FileSystem where
  nodes : List (List String × FileNode)
  deriving DecidableEq, Repr, Inhabited

namespace FileSystem

def node? (fs : FileSystem) : List String → Option FileNode
  | [] => some .directory
  | names => fs.nodes.lookup names

/-- The places on the way to a place where there is nothing yet. -/
def missing (fs : FileSystem) (names : List String) : List (List String) :=
  ((List.range names.length).map names.take).filter (fun place => (fs.node? place).isNone)

/-- Puts a node at a place, instead of the one that was there, and directories on the way to it. -/
def create (fs : FileSystem) (names : List String) (node : FileNode) : FileSystem :=
  let others := fs.nodes.filter (fun old => old.1 ≠ names)
  ⟨others ++ (fs.missing names).map (fun place => (place, .directory)) ++ [(names, node)]⟩

/-- Follows the pieces of a path from a place. -/
def follow (fs : FileSystem) : List String → List String → Except FileFault (List String)
  | place, [] => .ok place
  | place, piece :: rest =>
    if fs.node? place ≠ some .directory then .error .notDirectory
    else if piece = "" ∨ piece = "." then fs.follow place rest
    else if piece = ".." then fs.follow place.dropLast rest
    else if (fs.node? (place ++ [piece])).isSome then fs.follow (place ++ [piece]) rest
    else .error .notFound

/-- The names on the way to what a path stands for. -/
def resolve (fs : FileSystem) (path : String) : Except FileFault (List String) :=
  if path.isEmpty then .error .notFound else fs.follow [] (Path.pieces path)

def readText (fs : FileSystem) (path : String) : Except FileFault String := do
  match fs.node? (← fs.resolve path) with
  | some (.file (some content)) => return content
  | some (.file none) => .error .notText
  | some .directory => .error .isDirectory
  | none => .error .notFound

/-- The names in a directory and what they stand for, in no particular order. -/
def list (fs : FileSystem) (path : String) : Except FileFault (List (String × FileNode)) := do
  let place ← fs.resolve path
  match fs.node? place with
  | some .directory =>
    return fs.nodes.filterMap (fun (names, node) =>
      match names.getLast? with
      | some name => if names = place ++ [name] then some (name, node) else none
      | none => none)
  | _ => .error .notDirectory

end FileSystem
end BoundedTuring
