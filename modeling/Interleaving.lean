import Interleaving.ChannelSystem
import Interleaving.Dynamics
import Interleaving.Dynamics.ChannelSystem
import Interleaving.Dynamics.ProgramGraph
import Interleaving.Dynamics.Table
import Interleaving.Dynamics.Walk
import Interleaving.Environment
import Interleaving.EvalError
import Interleaving.Exploration
import Interleaving.Exploration.Limits
import Interleaving.Json
import Interleaving.Json.Form
import Interleaving.Json.Reader
import Interleaving.Location
import Interleaving.OrderedSet
import Interleaving.ProgramGraph
import Interleaving.ProgramGraph.Assembly
import Interleaving.ProgramGraph.Edge
import Interleaving.Registry
import Interleaving.Registry.Named
import Interleaving.Registry.Script
import Interleaving.Script.Expr
import Interleaving.Script.Parser
import Interleaving.Script.Token
import Interleaving.Text.Blank
import Interleaving.Text.Decimal
import Interleaving.Text.Extending
import Interleaving.Text.Hidden
import Interleaving.Text.Quoted
import Interleaving.Text.Ranges
import Interleaving.Text.Sorted
import Interleaving.Text.Unassigned
import Interleaving.TransitionSystem
import Interleaving.TransitionSystem.Listing
import Interleaving.Value
import Interleaving.Proofs.Reachability
import Interleaving.Proofs.TransitionSystem
import Interleaving.Proofs.Computation
import Interleaving.Proofs.Exploration.Progress
import Interleaving.Proofs.Exploration.Expansion
import Interleaving.Proofs.Exploration.Levels
import Interleaving.Proofs.Exploration.Labels
import Interleaving.Proofs.Exploration.Portrait
import Interleaving.Proofs.ChannelSystem.Moves
import Interleaving.Proofs.Script.Grammar
import Interleaving.Proofs.Script.Scanning
import Interleaving.Proofs.Script.Rendezvous
import Interleaving.Proofs.Exploration.Growth
import Interleaving.Proofs.Exploration.Failure
import Interleaving.Proofs.Exploration.StateLimit
import Interleaving.Proofs.Exploration.Comparison
import Interleaving.Proofs.ProgramGraph.Steps
import Interleaving.Proofs.ChannelSystem.Steps
import Interleaving.Proofs.Reordering
import Interleaving.Proofs.ChannelSystem.Renumbering
import Interleaving.Proofs.ChannelSystem.Symmetry
import Interleaving.Proofs.Script.Spelling
import Interleaving.Proofs.Script.Statements
import Interleaving.Proofs.Script.Language
import Interleaving.Proofs.Exploration.Asking
import Interleaving.Proofs.Exploration.Passage
import Interleaving.Proofs.Exploration.Termination
import Interleaving.Proofs.Exploration.Tightening
import Interleaving.Proofs.Exploration.Embedding
import Interleaving.Proofs.ChannelSystem.SingleProcess
import Interleaving.Proofs.TransitionSystem.Calls
import Interleaving.Proofs.Exploration.Soundness
import Interleaving.Proofs.Script.Kinds
import Interleaving.Proofs.ChannelSystem.Participants
import Interleaving.Proofs.Environment
import Interleaving.Proofs.Script.Variables
import Interleaving.Proofs.ChannelSystem.Independence
import Interleaving.Proofs.Environment.Propositions
import Interleaving.Proofs.Script.Plain
import Interleaving.Proofs.Exploration.Distinction
import Interleaving.Proofs.Json.Reading
import Interleaving.Proofs.Json.Forms
import Interleaving.Proofs.Exploration.Substitution
import Interleaving.Proofs.Registry.Extension
import Interleaving.Proofs.ProgramGraph.References
import Interleaving.Proofs.Registry.Reports
import Interleaving.Proofs.Paths
import Interleaving.Proofs.Exploration.Count
import Interleaving.Proofs.Script.Exact
import Interleaving.Proofs.Script.Composition
import Interleaving.Proofs.ProgramGraph.Enabled
import Interleaving.Proofs.Registry.Initialization
import Interleaving.Proofs.ChannelSystem.Starts
import Interleaving.Proofs.TransitionSystem.Facts
import Interleaving.Proofs.ProgramGraph.Additions
import Interleaving.Proofs.Exploration.Assignments
import Interleaving.Proofs.Exploration.Numbering
import Interleaving.Proofs.Exploration.Queue
import Interleaving.Proofs.Exploration.Rounds
import Interleaving.Proofs.ProgramGraph.Outgoing
import Interleaving.Proofs.Environment.Histories
import Interleaving.Peg
import Interleaving.Proofs.Peg
import Interleaving.Script.Dialect
import Interleaving.Proofs.Script.Dialect.Completeness
import Interleaving.Proofs.Script.Dialect.Readers
