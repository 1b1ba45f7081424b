import BoundedTuring.CommandLine.Command
/-!
# The program

Reads the one file or the standard input that the options name, and prints the answer.
-/
namespace BoundedTuring
namespace CommandLine

def faultOfError : IO.Error → FileFault
  | .noFileOrDirectory .. => .notFound
  | .inappropriateType .. => .isDirectory
  | e => .system (toString e)

def textOfBytes (bytes : ByteArray) : Except FileFault String :=
  match String.fromUTF8? bytes with
  | some text => .ok text
  | none => .error .notText

def readFileText (path : String) : IO (Except FileFault String) := do
  try return textOfBytes (← IO.FS.readBinFile path)
  catch e => return .error (faultOfError e)

def readInputText : IO (Option (Except FileFault String)) := do
  let input ← IO.getStdin
  if ← input.isTty then return none
  try return some (textOfBytes (← input.readBinToEnd))
  catch e => return some (.error (faultOfError e))

/-- What some options read. -/
def surroundings (o : Options) : IO Surroundings := do
  let file ← match o.readsFile? with
    | some path => readFileText path
    | none => pure (.error .notFound)
  let input ← if o.readsInput then readInputText else pure none
  return ⟨fun _ => file, input⟩

end CommandLine
end BoundedTuring

open BoundedTuring CommandLine in
def main (arguments : List String) : IO UInt32 := do
  let s ← match request arguments with
    | .run o => surroundings o
    | _ => pure ⟨fun _ => .error .notFound, none⟩
  let answer := respond arguments s
  (← IO.getStdout).putStr answer.output
  (← IO.getStderr).putStr answer.errors
  return answer.code.toUInt32
