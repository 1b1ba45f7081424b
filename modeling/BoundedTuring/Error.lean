import BoundedTuring.Transition
import BoundedTuring.Word
/-!
# Errors

A `Fault` says what is wrong, with the values that make it so; `Fault.kind` is the family it belongs to and
`Fault.cause` its wording.  An `Error` is a fault together with the description lines it was met on, the
outermost first.  A fault of layout carries a picture of its line already and takes no further line numbers.
-/
namespace BoundedTuring

inductive ErrorKind where
  | stateCount
  | alphabet
  | symbol
  | testString
  | state
  | transition
  | direction
  | leftEnd
  | stringCount
  | configuration
  | layout
  | file
  deriving DecidableEq, Repr, Inhabited

def ErrorKind.heading : ErrorKind → String
  | stateCount => "Invalid number of states"
  | alphabet => "Invalid alphabet"
  | symbol => "Invalid symbol"
  | testString => "Invalid test string"
  | state => "Invalid state"
  | transition => "Invalid transition"
  | direction => "Invalid direction"
  | leftEnd => "Left-end violation"
  | stringCount => "Too many strings"
  | configuration => "Invalid configuration"
  | layout => "Description parsing error"
  | file => "File error"

inductive SymbolFlaw where
  | empty
  | blank
  | reserved
  | repeated
  deriving DecidableEq, Repr

def SymbolFlaw.cause : SymbolFlaw → String
  | empty => "it's the empty string"
  | blank => "it contains whitespace"
  | reserved => "it is/contains a special tape symbol"
  | repeated => "it has been defined more than once"

inductive Expectation where
  | fields
  | fieldCount (expected : Nat) (what : String) (found : Nat)
  | noAcceptingStates
  | settings (most found : Nat)
  deriving DecidableEq, Repr

def Expectation.cause : Expectation → String
  | fields => "Expected fields separated by single spaces"
  | fieldCount expected what found => s!"Expected {expected} field(s) for the {what}, found {found}"
  | noAcceptingStates => "Expected an empty line when there are no accepting states"
  | settings most found => s!"Expected at most {most} settings fields, found {found}"

inductive FileFault where
  | notFound
  | isDirectory
  | notDirectory
  | notText
  | system (cause : String)
  deriving DecidableEq, Repr

def FileFault.cause : FileFault → String
  | notFound => "No such file or directory (os error 2)"
  | isDirectory => "Is a directory (os error 21)"
  | notDirectory => "Not a directory (os error 20)"
  | notText => "stream did not contain valid UTF-8"
  | system cause => cause

/-- Everything that can be wrong.  A bound named `last` is the greatest value that would have been accepted. -/
inductive Fault where
  | stateCountOutOfRange (given least most : Nat)
  | noInputSymbols
  | badSymbol (symbol : String) (flaw : SymbolFlaw)
  | leadingSymbol (first second : String)
  | inputSizeOutOfRange (given last : Nat)
  | tapeSizeOutOfRange (given least most : Nat)
  | noRoomForSpecials (given specials : Nat)
  | inputSymbolOutOfRange (given last : Nat)
  | tapeSymbolOutOfRange (given last : Nat)
  | notTokenized (text : String)
  | foreignInput (input : Word) (size : Nat)
  | foreignInitial (symbol size : Nat)
  | initialLengthOutOfRange (length least most : Nat)
  | startStateOutOfRange (given last : Nat)
  | stateOutOfRange (given last : Nat)
  | acceptingTwice (state : Nat)
  | keyStateOutOfRange (given last : Nat)
  | keySymbolOutOfRange (given last : Nat)
  | nextStateOutOfRange (given last : Nat)
  | writtenSymbolOutOfRange (given last : Nat)
  | readSymbolOutOfRange (given last : Nat)
  | alreadyDefined (key : Key)
  | notTapeSymbol (text : String)
  | notInputSymbol (text : String)
  | directionNotAllowed (given : Direction) (allowed : List Direction)
  | notDirection (text : String)
  | markerOverwritten
  | markerTransition (state : Nat)
  | tooManyStrings (estimate most : Nat)
  | descriptionTooLong (size most : Nat)
  | missingLine (what : String) (number : Nat)
  | notNumber (name text : String)
  | notTraceFlag (text : String)
  | notTimeFlag (text : String)
  | timeOutOfRange (given most : Nat)
  | acceptingCountOutOfRange (given most : Nat)
  | nameTaken (name : String)
  | nameNotFound (name : String)
  | machineIndexOutOfRange (index : Nat)
  | bundledTwoWay
  | noMachineGiven
  | layout (picture : String)
  | fileNotRead (path : String) (fault : FileFault)
  | inputNotRead (fault : FileFault)
  | directoryNotFound (path : String)
  | directoryNotRead (path : String) (fault : FileFault)
  | machineNotLoaded (path message : String)
  | other (kind : ErrorKind) (cause : String)
  deriving DecidableEq, Repr

namespace Fault

def kind : Fault → ErrorKind
  | stateCountOutOfRange .. => .stateCount
  | noInputSymbols | badSymbol .. | leadingSymbol .. | inputSizeOutOfRange .. | tapeSizeOutOfRange ..
  | noRoomForSpecials .. => .alphabet
  | inputSymbolOutOfRange .. | tapeSymbolOutOfRange .. => .symbol
  | notTokenized .. | foreignInput .. | foreignInitial .. | initialLengthOutOfRange .. => .testString
  | startStateOutOfRange .. | stateOutOfRange .. | acceptingTwice .. => .state
  | keyStateOutOfRange .. | keySymbolOutOfRange .. | nextStateOutOfRange .. | writtenSymbolOutOfRange ..
  | readSymbolOutOfRange .. | alreadyDefined .. | notTapeSymbol .. | notInputSymbol .. => .transition
  | directionNotAllowed .. | notDirection .. => .direction
  | markerOverwritten | markerTransition .. => .leftEnd
  | tooManyStrings .. => .stringCount
  | descriptionTooLong .. | missingLine .. | notNumber .. | notTraceFlag .. | notTimeFlag .. | timeOutOfRange ..
  | acceptingCountOutOfRange .. | nameTaken .. | nameNotFound .. | machineIndexOutOfRange .. | bundledTwoWay
  | noMachineGiven => .configuration
  | layout .. => .layout
  | fileNotRead .. | inputNotRead .. | directoryNotFound .. | directoryNotRead .. | machineNotLoaded .. => .file
  | other kind _ => kind

def cause : Fault → String
  | stateCountOutOfRange given least most =>
    s!"Given number of states({given}) isn't in the range of [{least}, {most}]."
  | noInputSymbols => "Given input alphabet size(0) is less than 1."
  | badSymbol symbol flaw => s!"\"{symbol}\" isn't valid since {flaw.cause}."
  | leadingSymbol first second =>
    s!"Given input alphabet isn't valid since \"{first}\" is a prefix of \"{second}\"."
  | inputSizeOutOfRange given last => s!"Given input alphabet size({given}) isn't in the range of [1, {last}]."
  | tapeSizeOutOfRange given least most =>
    s!"Given tape alphabet size({given}) isn't in the range of [{least}, {most}]."
  | noRoomForSpecials given specials =>
    s!"Given tape alphabet size({given}) doesn't leave room for the {specials} special symbol(s)."
  | inputSymbolOutOfRange given last =>
    s!"Given input symbol index({given}) isn't in the range of [0, {last}]."
  | tapeSymbolOutOfRange given last => s!"Given tape symbol index({given}) isn't in the range of [0, {last}]."
  | notTokenized text => s!"Given string(\"{text}\") isn't defined over the input alphabet."
  | foreignInput input size =>
    s!"Given string({input.display}) isn't defined over the input alphabet of size {size}."
  | foreignInitial symbol size =>
    s!"Initial string contains symbol index {symbol}, but the input alphabet has {size} symbols."
  | initialLengthOutOfRange length least most =>
    s!"Initial string length({length}) isn't in the range of [{least}, {most}]."
  | startStateOutOfRange given last => s!"Given initial state({given}) isn't in the range of [0, {last}]."
  | stateOutOfRange given last => s!"Given state({given}) isn't in the range of [0, {last}]."
  | acceptingTwice state => s!"State {state} has been defined to be an accepting state more than once."
  | keyStateOutOfRange given last => s!"Given initial state({given}) isn't in the range of [0, {last}]."
  | keySymbolOutOfRange given last =>
    s!"Given initial symbol index({given}) isn't in the range of [0, {last}]."
  | nextStateOutOfRange given last => s!"Given next state({given}) isn't in the range of [0, {last}]."
  | writtenSymbolOutOfRange given last =>
    s!"Given written symbol index({given}) isn't in the range of [0, {last}]."
  | readSymbolOutOfRange given last => s!"Given symbol index({given}) isn't in the range of [0, {last}]."
  | alreadyDefined key =>
    s!"A transition from state {key.state} on symbol index {key.symbol} has already been defined."
  | notTapeSymbol text => s!"\"{text}\" isn't a tape symbol."
  | notInputSymbol text => s!"\"{text}\" isn't an input symbol."
  | directionNotAllowed given allowed =>
    let letters := ", ".intercalate (allowed.map Direction.letter)
    s!"Given direction({given.letter}) isn't one of {letters}."
  | notDirection text => s!"Given direction(\"{text}\") isn't one of L, R, S."
  | markerOverwritten => "The left-end marker at position 0 can't be overwritten."
  | markerTransition state =>
    s!"Transition from state {state} on the left-end marker must write the marker and move right."
  | tooManyStrings estimate most => s!"Testing up to {estimate} strings exceeds the limit of {most}."
  | descriptionTooLong size most => s!"Description size({size}) exceeds the limit of {most} bytes."
  | missingLine what number => s!"Given machine description didn't have a {what} line (line {number})."
  | notNumber name text => s!"Given {name}({text}) isn't a valid integer."
  | notTraceFlag text => s!"Given trace flag({text}) isn't a valid boolean."
  | notTimeFlag text => s!"Given time limit flag({text}) isn't a valid boolean."
  | timeOutOfRange given most => s!"Given max process time({given}) isn't in the range of [0, {most}]."
  | acceptingCountOutOfRange given most =>
    s!"Given number of accepting states({given}) isn't in the range of [0, {most}]."
  | nameTaken name => s!"Machine '{name}' is already registered"
  | nameNotFound name => s!"Machine '{name}' not found"
  | machineIndexOutOfRange index => s!"Machine index {index} out of range"
  | bundledTwoWay => "Bundled machines are written for the left-end marker tape"
  | noMachineGiven =>
    "No machine given; use --machine, --builtin, --automaton, or pipe a description on stdin"
  | layout picture => picture
  | fileNotRead path fault => s!"Failed to read file {path}: {fault.cause}"
  | inputNotRead fault => s!"Failed to read stdin: {fault.cause}"
  | directoryNotFound path => s!"Directory {path} does not exist"
  | directoryNotRead path fault => s!"Failed to read directory {path}: {fault.cause}"
  | machineNotLoaded path message => s!"Failed to load machine from {path}: {message}"
  | other _ cause => cause

end Fault

/-- A fault and the description lines it was met on, the outermost first. -/
structure Error where
  fault : Fault
  lines : List Nat
  deriving DecidableEq, Repr

namespace Error

def ofFault (fault : Fault) : Error := ⟨fault, []⟩

def kind (e : Error) : ErrorKind := e.fault.kind

/-- Says which line of a description the error was met on.  A picture of the line says so already. -/
def onLine (number : Nat) (e : Error) : Error :=
  if e.kind = .layout then e else { e with lines := number :: e.lines }

def cause (e : Error) : String :=
  String.join (e.lines.map (fun n => s!"line {n}: ")) ++ e.fault.cause

def message (e : Error) : String := e.kind.heading ++ ": " ++ e.cause

end Error

abbrev Result := Except Error

def Result.fail {α : Type} (fault : Fault) : Result α := .error (.ofFault fault)

end BoundedTuring
