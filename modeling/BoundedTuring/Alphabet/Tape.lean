import BoundedTuring.Alphabet.Input
import BoundedTuring.TapeMode
/-!
# Tape alphabets

A tape alphabet lists the input symbols, then the other user symbols in order, then the special symbols of the
tape mode; the blank comes last.  So an input symbol has the same index in both alphabets.
-/
namespace BoundedTuring

def maxTapeAlphabetSize : Nat := 1000

structure Alphabet where
  mode : TapeMode
  input : InputAlphabet
  symbols : Array String
  deriving DecidableEq, Repr, Inhabited

namespace Alphabet

/-- The tape alphabet of the user symbols, of which the first `inputSize` are input symbols. -/
def ofList (userSymbols : List String) (inputSize : Nat) (mode : TapeMode) : Result Alphabet := do
  let userSize := userSymbols.length
  let specials := mode.specialSymbols
  let tapeSize := userSize + specials.length
  if inputSize < 1 ∨ userSize < inputSize then Result.fail (.inputSizeOutOfRange inputSize userSize)
  if maxTapeAlphabetSize < tapeSize then
    Result.fail (.tapeSizeOutOfRange tapeSize (inputSize + specials.length) maxTapeAlphabetSize)
  checkSymbols specials [] userSymbols
  let input ← InputAlphabet.ofListAvoiding specials (userSymbols.take inputSize)
  let work := sortSymbols (userSymbols.drop inputSize)
  return ⟨mode, input, input.symbols ++ work.toArray ++ specials.toArray⟩

def size (a : Alphabet) : Nat := a.symbols.size

def inputSize (a : Alphabet) : Nat := a.input.size

def blank (a : Alphabet) : Nat := a.size - 1

/-- The index of the marker, on a tape that has one. -/
def marker? (a : Alphabet) : Option Nat :=
  match a.mode with
  | .leftEnd => some (a.size - 2)
  | .twoWay => none

def indexOf? (a : Alphabet) (symbol : String) : Option Nat := a.symbols.idxOf? symbol

def symbol (a : Alphabet) (index : Nat) : Result String :=
  match a.symbols[index]? with
  | some symbol => .ok symbol
  | none => Result.fail (.tapeSymbolOutOfRange index (a.size - 1))

def tokenize (a : Alphabet) (text : String) : Result Word := a.input.tokenize text

def renderTape (a : Alphabet) (cells : List Nat) : Result String := do
  let names ← cells.mapM a.symbol
  return " ".intercalate names

/-- The user symbols, input symbols first. -/
def userSymbols (a : Alphabet) : List String :=
  a.symbols.toList.take (a.size - a.mode.specialSymbols.length)

end Alphabet
end BoundedTuring
