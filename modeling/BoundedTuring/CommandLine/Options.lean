import BoundedTuring.Text.Numeral
/-!
# Command line options

The options of the command line and how its arguments are read.  A long option is `--name`, a short one a letter
after a dash, and several letters may share one dash.  An option that takes a value takes what follows its letter,
what follows an equals sign, or the next argument, unless that starts with a dash and is not a lone dash.  Only
`--input` may be given more than once.  A double dash ends the options; nothing may come after it.
-/
namespace BoundedTuring
namespace CommandLine

structure Options where
  machine : Option String
  builtin : Option String
  automaton : Option String
  list : Bool
  twoWay : Bool
  inputs : List String
  minLength : Option Nat
  maxLength : Option Nat
  count : Option Nat
  start : Option String
  maxSteps : Option Nat
  maxTime : Option Nat
  trace : Bool
  json : Bool
  deriving DecidableEq, Repr, Inhabited

def Options.unset : Options :=
  ⟨none, none, none, false, false, [], none, none, none, none, none, none, false, false⟩

/-- The options that stand for themselves. -/
inductive Switch where
  | list
  | twoWay
  | trace
  | json
  | help
  | version
  deriving DecidableEq, Repr

/-- The options that take a value. -/
inductive Setting where
  | machine
  | builtin
  | automaton
  | input
  | minLength
  | maxLength
  | count
  | start
  | maxSteps
  | maxTime
  deriving DecidableEq, Repr

inductive Flag where
  | switch (s : Switch)
  | setting (s : Setting)
  deriving DecidableEq, Repr

def longFlag? (name : String) : Option Flag := List.lookup name [
  ("machine", .setting .machine),
  ("builtin", .setting .builtin),
  ("automaton", .setting .automaton),
  ("list", .switch .list),
  ("two-way", .switch .twoWay),
  ("input", .setting .input),
  ("min-length", .setting .minLength),
  ("max-length", .setting .maxLength),
  ("count", .setting .count),
  ("start", .setting .start),
  ("max-steps", .setting .maxSteps),
  ("max-time", .setting .maxTime),
  ("trace", .switch .trace),
  ("json", .switch .json),
  ("help", .switch .help),
  ("version", .switch .version)]

def shortFlag? (letter : Char) : Option Flag := List.lookup letter [
  ('m', .setting .machine),
  ('b', .setting .builtin),
  ('a', .setting .automaton),
  ('l', .switch .list),
  ('i', .setting .input),
  ('n', .setting .count),
  ('d', .switch .trace),
  ('h', .switch .help),
  ('V', .switch .version)]

inductive Request where
  | run (options : Options)
  | help
  | version
  | misuse
  deriving DecidableEq, Repr

/-! ## Setting options -/

def once {α : Type} (old : Option α) (value : Option α) : Option (Option α) :=
  match old, value with
  | none, some value => some (some value)
  | _, _ => none

def path? (text : String) : Option String := if text.isEmpty then none else some text

/-- Sets an option to a value, unless it has one or the value is not of its kind. -/
def Options.set? (o : Options) (setting : Setting) (text : String) : Option Options :=
  let number := Text.numeral? text.toList
  match setting with
  | .machine => (once o.machine (path? text)).map (fun machine => { o with machine })
  | .builtin => (once o.builtin (some text)).map (fun builtin => { o with builtin })
  | .automaton => (once o.automaton (path? text)).map (fun automaton => { o with automaton })
  | .input => some { o with inputs := o.inputs ++ [text] }
  | .minLength => (once o.minLength number).map (fun minLength => { o with minLength })
  | .maxLength => (once o.maxLength number).map (fun maxLength => { o with maxLength })
  | .count => (once o.count number).map (fun count => { o with count })
  | .start => (once o.start (some text)).map (fun start => { o with start })
  | .maxSteps => (once o.maxSteps number).map (fun maxSteps => { o with maxSteps })
  | .maxTime => (once o.maxTime number).map (fun maxTime => { o with maxTime })

/-- What a switch makes of the options so far: more options, or a request that ends the reading. -/
def Options.switch (o : Options) : Switch → Except Request Options
  | .list => if o.list then .error .misuse else .ok { o with list := true }
  | .twoWay => if o.twoWay then .error .misuse else .ok { o with twoWay := true }
  | .trace => if o.trace then .error .misuse else .ok { o with trace := true }
  | .json => if o.json then .error .misuse else .ok { o with json := true }
  | .help => .error .help
  | .version => .error .version

/-- Whether no two options exclude each other: one machine at most, and a tape mode only for a machine. -/
def Options.isConsistent (o : Options) : Bool :=
  if o.automaton.isSome then o.machine.isNone && o.builtin.isNone && !o.twoWay
  else o.machine.isNone || o.builtin.isNone

/-! ## Reading arguments -/

/-- What comes of one argument: the options so far, perhaps with a setting that waits for its value. -/
structure Progress where
  options : Options
  waiting : Option Setting
  deriving DecidableEq, Repr

def assign (o : Options) (setting : Setting) (text : String) : Except Request Progress :=
  match o.set? setting text with
  | some o => .ok ⟨o, none⟩
  | none => .error .misuse

/-- Reads `name` or `name=value` after two dashes. -/
def readLong (o : Options) (text : List Char) : Except Request Progress :=
  let name := String.ofList (text.takeWhile (· != '='))
  match longFlag? name, text.dropWhile (· != '=') with
  | some (.switch s), [] => do return ⟨← o.switch s, none⟩
  | some (.setting s), [] => .ok ⟨o, some s⟩
  | some (.setting s), _ :: value => assign o s (String.ofList value)
  | _, _ => .error .misuse

def readShort (o : Options) : List Char → Except Request Progress
  | [] => .ok ⟨o, none⟩
  | letter :: rest =>
    match shortFlag? letter with
    | some (.switch s) =>
      match o.switch s with
      | .ok o => readShort o rest
      | .error request => .error request
    | some (.setting s) =>
      match rest with
      | [] => .ok ⟨o, some s⟩
      | '=' :: value => assign o s (String.ofList value)
      | value => assign o s (String.ofList value)
    | none => .error .misuse

/-- Whether an argument can't be the value of the setting before it. -/
def startsOption : List Char → Bool
  | '-' :: _ :: _ => true
  | _ => false

def readArgument (o : Options) : List Char → Except Request Progress
  | '-' :: '-' :: text => readLong o text
  | '-' :: letter :: rest => readShort o (letter :: rest)
  | _ => .error .misuse

/-- Reads the arguments from some options on, of which one may wait for its value. -/
def readArguments : Progress → List String → Request
  | ⟨o, none⟩, [] => if o.isConsistent then .run o else .misuse
  | ⟨_, some _⟩, [] => .misuse
  | ⟨o, some setting⟩, argument :: rest =>
    if startsOption argument.toList then .misuse
    else
      match assign o setting argument with
      | .ok progress => readArguments progress rest
      | .error request => request
  | ⟨o, none⟩, argument :: rest =>
    if argument = "--" then
      if rest.isEmpty && o.isConsistent then .run o else .misuse
    else
      match readArgument o argument.toList with
      | .ok progress => readArguments progress rest
      | .error request => request

def request (arguments : List String) : Request := readArguments ⟨.unset, none⟩ arguments

end CommandLine
end BoundedTuring
