import NearestMux.Main
import NearestMux.Signal.Bits
import NearestMux.Proofs.Search.Termination
import NearestMux.Proofs.Search.Distance
import NearestMux.Proofs.Search.ResetName
import NearestMux.Proofs.Signal.NormalForm
import NearestMux.Proofs.Signal.Grammar
import NearestMux.Proofs.Signal.Constant
import NearestMux.Proofs.Signal.Meaning
import NearestMux.Proofs.Signal.RoundTrip
import NearestMux.Proofs.Signal.Notations
import NearestMux.Proofs.Netlist.DeclaredWires
import NearestMux.Proofs.Hierarchy.Graph
import NearestMux.Proofs.Hierarchy.Order
import NearestMux.Proofs.Hierarchy.Cycle
import NearestMux.Proofs.Hierarchy.Parents
import NearestMux.Proofs.Netlist.WellFormed
import NearestMux.Proofs.Netlist.Malformed
import NearestMux.Proofs.Netlist.Mirroring
import NearestMux.Proofs.Netlist.Reordering
import NearestMux.Proofs.Search.Containment
import NearestMux.Proofs.Search.MarkedPorts
import NearestMux.Proofs.Search.Renaming
import NearestMux.Proofs.Search.SelectedPart
import NearestMux.Proofs.Search.Rules
import NearestMux.Proofs.Search.Permuting
import NearestMux.Proofs.Search.Locating
import NearestMux.Proofs.Search.Crossings
import NearestMux.Proofs.Hierarchy.Top
import NearestMux.Proofs.Netlist.Aliases
import NearestMux.Proofs.Search.Counting
import NearestMux.Proofs.Netlist.Patterns
import NearestMux.Proofs.Netlist.Workbench
import NearestMux.Proofs.Search.Sameness
import NearestMux.Proofs.Setup.Typing
