import BoundedTuring.Error
import BoundedTuring.Text.Blank
import BoundedTuring.Text.Lowercase
/-!
# Input alphabets

An input alphabet is a sorted list of symbols, none of them the beginning of another.  So at each place of a
text at most one symbol can be read, and a text has at most one reading.
-/
namespace BoundedTuring

structure InputAlphabet where
  symbols : Array String
  deriving DecidableEq, Repr, Inhabited

/-! ## Checking symbols -/

/-- What is wrong with a symbol that comes after the ones in `seen`, the first of: it is empty, it holds white
space, its lower case holds a reserved name, it has been seen. -/
def flaw? (reserved seen : List String) (symbol : String) : Option SymbolFlaw :=
  if symbol.isEmpty then some .empty
  else if symbol.toList.any Text.isBlank then some .blank
  else if reserved.any (fun name => Text.occursIn name.toList (Text.lowercase symbol)) then some .reserved
  else if seen.contains symbol then some .repeated
  else none

def checkSymbols (reserved : List String) : List String → List String → Result Unit
  | _, [] => .ok ()
  | seen, symbol :: rest =>
    match flaw? reserved seen symbol with
    | some flaw => Result.fail (.badSymbol symbol flaw)
    | none => checkSymbols reserved (symbol :: seen) rest

def beginsWith (first second : String) : Bool := first.toList.isPrefixOf second.toList

/-- The first two neighbours of a list of which one begins the other. -/
def leadingPair? : List String → Option (String × String)
  | first :: second :: rest =>
    if beginsWith first second then some (first, second) else leadingPair? (second :: rest)
  | _ => none

/-- Sorted by code points, which is the order of the bytes. -/
def sortSymbols (symbols : List String) : List String := symbols.mergeSort (fun a b => !decide (b < a))

namespace InputAlphabet

/-- The input alphabet of some symbols, none of which may hold a reserved name. -/
def ofListAvoiding (reserved symbols : List String) : Result InputAlphabet := do
  if symbols.isEmpty then Result.fail .noInputSymbols
  checkSymbols reserved [] symbols
  let sorted := sortSymbols symbols
  match leadingPair? sorted with
  | some (first, second) => Result.fail (.leadingSymbol first second)
  | none => return ⟨sorted.toArray⟩

def ofList (symbols : List String) : Result InputAlphabet := ofListAvoiding [] symbols

def size (a : InputAlphabet) : Nat := a.symbols.size

def indexOf? (a : InputAlphabet) (symbol : String) : Option Nat := a.symbols.idxOf? symbol

def symbol (a : InputAlphabet) (index : Nat) : Result String :=
  match a.symbols[index]? with
  | some symbol => .ok symbol
  | none => Result.fail (.inputSymbolOutOfRange index (a.size - 1))

def containsAll (a : InputAlphabet) (w : Word) : Bool := w.all (· < a.size)

/-! ## Words and texts -/

/-- Reads a text symbol by symbol.  As soon as what was read since the last symbol is a symbol, it is taken for one:
`done` holds the indices of those taken, last first, and `start` what was read since. -/
def tokenizeFrom (a : InputAlphabet) (done : Word) (start : String) : List Char → Option Word
  | [] => if start.isEmpty then some done.reverse else none
  | c :: rest =>
    let start := start.push c
    match a.indexOf? start with
    | some index => tokenizeFrom a (index :: done) "" rest
    | none => tokenizeFrom a done start rest

/-- The word a text spells. -/
def tokenize (a : InputAlphabet) (text : String) : Result Word :=
  match a.tokenizeFrom [] "" text.toList with
  | some w => .ok w
  | none => Result.fail (.notTokenized text)

def render (a : InputAlphabet) (w : Word) : Result String := do
  let names ← w.mapM a.symbol
  return String.join names

end InputAlphabet
end BoundedTuring
