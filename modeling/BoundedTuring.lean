import BoundedTuring.Main
import BoundedTuring.Proofs.Bundled.Matching
import BoundedTuring.Proofs.Description.LeftToRight
import BoundedTuring.Proofs.Description.Rearranged
import BoundedTuring.Proofs.Description.RoundTrip
import BoundedTuring.Proofs.Description.Simulation
import BoundedTuring.Proofs.Execution.Modes
import BoundedTuring.Proofs.Registry.History
import BoundedTuring.Proofs.Simulation.Guard
import BoundedTuring.Proofs.Execution.Padding
import BoundedTuring.Proofs.Description.LineEndings
import BoundedTuring.Proofs.Execution.Trace
import BoundedTuring.Proofs.Automaton.Trace
import BoundedTuring.Proofs.Simulation.Trace
import BoundedTuring.Proofs.Storage.Loading
import BoundedTuring.Proofs.Registry.Directory
import BoundedTuring.Proofs.Alphabet.Acceptance
import BoundedTuring.Proofs.Alphabet.Numbering
import BoundedTuring.Proofs.Table.Resize
import BoundedTuring.Proofs.Description.Settings.Defaults
import BoundedTuring.Proofs.Description.Settings.Agreement
import BoundedTuring.Proofs.Automaton.Bookkeeping
import BoundedTuring.Proofs.Execution.LookedUp
import BoundedTuring.Proofs.Execution.RunningOff
import BoundedTuring.Proofs.CommandLine.Inputs
import BoundedTuring.Proofs.CommandLine.Lengths
import BoundedTuring.Proofs.Bundled.OnePass
import BoundedTuring.Proofs.Table.Afresh
import BoundedTuring.Proofs.Registry.Search
import BoundedTuring.Proofs.Word.Successor
