/-!
# Paths

A path names a file by the names on the way to it, with a slash after each but the last.  The extension of a file
name is what follows its last full stop, unless the name has none or starts with its only one; the stem is what
comes before it.

Paths are compared by their components, from the first on.
-/
namespace BoundedTuring
namespace Path

def pieces (path : String) : List String := (path.toList.splitOn '/').map String.ofList

def join (directory name : String) : String :=
  if directory.isEmpty then name
  else if directory.toList.getLast? = some '/' then directory ++ name
  else directory ++ "/" ++ name

def splitName (name : String) : String × Option String :=
  let last := name.toList.reverse
  let extension := (last.takeWhile (· != '.')).reverse
  let stem := ((last.dropWhile (· != '.')).drop 1).reverse
  if stem.isEmpty then (name, none) else (String.ofList stem, some (String.ofList extension))

def stem (name : String) : String := (splitName name).1

def extension? (name : String) : Option String := (splitName name).2

/-! ## Comparing -/

/-- What a path goes through: a name comes after every other component, and two names are compared as texts. -/
inductive Component where
  | root
  | here
  | parent
  | name (name : String)
  deriving DecidableEq, Repr

namespace Component

/-- The component that a piece stands for inside of a path, if it is not skipped. -/
def ofPiece? (piece : String) : Option Component :=
  if piece = "" ∨ piece = "." then none
  else if piece = ".." then some .parent
  else some (.name piece)

def rank : Component → Nat
  | root => 0
  | here => 1
  | parent => 2
  | name _ => 3

def Before : Component → Component → Prop
  | .name a, .name b => a < b
  | a, b => a.rank < b.rank

instance : LT Component := ⟨Before⟩

instance : DecidableLT Component
  | .name a, .name b => inferInstanceAs (Decidable (a < b))
  | .name a, .root => inferInstanceAs (Decidable (rank (.name a) < rank .root))
  | .name a, .here => inferInstanceAs (Decidable (rank (.name a) < rank .here))
  | .name a, .parent => inferInstanceAs (Decidable (rank (.name a) < rank .parent))
  | .root, b => inferInstanceAs (Decidable (rank .root < b.rank))
  | .here, b => inferInstanceAs (Decidable (rank .here < b.rank))
  | .parent, b => inferInstanceAs (Decidable (rank .parent < b.rank))

end Component

/-- How a path starts: at the root, or where it is followed from if it says so. -/
def start (path : String) : List Component :=
  if path.toList.head? = some '/' then [.root]
  else if (pieces path).head? = some "." then [.here]
  else []

def components (path : String) : List Component := start path ++ (pieces path).filterMap Component.ofPiece?

/-- One path comes before another. -/
def Before (a b : String) : Prop := components a < components b

/-- Compares two paths, which are alike if they have the same components. -/
def compare (a b : String) : Ordering := compareOfLessAndEq (components a) (components b)

end Path
end BoundedTuring
