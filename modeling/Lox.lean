import Lox.Main
import Lox.Prompt.Completion
import Lox.Sample
import Lox.Proofs.Reference.Evaluate
import Lox.Proofs.Binding.Node
import Lox.Proofs.Binding.Visit
import Lox.Proofs.Binding.Sound
import Lox.Proofs.Binding.Spot
import Lox.Proofs.Store.Forest
import Lox.Proofs.Store.Heap
import Lox.Proofs.Lockstep.Pair
import Lox.Proofs.Lockstep.Move
import Lox.Proofs.Lockstep.Place
import Lox.Proofs.Lockstep.Simulation
import Lox.Proofs.Lockstep.Variable
import Lox.Proofs.Lockstep.Operator
import Lox.Proofs.Lockstep.Object
import Lox.Proofs.Lockstep.Call
import Lox.Proofs.Lockstep.Class
import Lox.Proofs.Lockstep.Node
import Lox.Proofs.Lockstep.Run
import Lox.Proofs.Run.Congruence
import Lox.Proofs.Run.Host
import Lox.Proofs.Reading.Word
import Lox.Proofs.Reading.Tree
import Lox.Proofs.Reading.Contract
import Lox.Proofs.Reading.Reads
import Lox.Proofs.Reading.Expression
import Lox.Proofs.Reading.Apart
import Lox.Proofs.Reading.Refusal
import Lox.Proofs.Reading.Statement
import Lox.Proofs.Reading.Program
import Lox.Proofs.Binding.Legal
import Lox.Proofs.Lockstep.Session
import Lox.Proofs.Lockstep.Accepted
import Lox.Proofs.Run.Restored
import Lox.Proofs.Run.Table
import Lox.Proofs.Run.Split
import Lox.Proofs.Super.Static
import Lox.Proofs.Rendering.Program
import Lox.Proofs.Construct.Constructor
import Lox.Proofs.Reference.Steps
import Lox.Proofs.Binding.Inside
import Lox.Proofs.Loop.Clauses
import Lox.Proofs.Loop.Desugared
import Lox.Proofs.Loop.Meaning
import Lox.Proofs.Fault.Placed
import Lox.Proofs.Return.Unwound
import Lox.Proofs.Likeness.Grammar
import Lox.Proofs.Layout.Inserted
import Lox.Proofs.Run.Debug
import Lox.Proofs.Run.Refused
import Lox.Proofs.Reading.Steady
import Lox.Proofs.Likeness.Resolve
import Lox.Proofs.Likeness.Text
import Lox.Proofs.Likeness.Session
import Lox.Proofs.Likeness.Partner
import Lox.Proofs.Likeness.Renumbered
import Lox.Proofs.Likeness.Listing
import Lox.Proofs.Likeness.Numbering
import Lox.Proofs.Likeness.Echo
import Lox.Proofs.Likeness.Conversation
import Lox.Proofs.Upheld.Invariant
import Lox.Proofs.Upheld.Grammar
import Lox.Proofs.Position.Text
import Lox.Proofs.Position.Recovery
import Lox.Proofs.Position.Faithful
import Lox.Proofs.Position.Order
import Lox.Proofs.View.Piece
import Lox.Proofs.View.Shown
import Lox.Proofs.View.Distinct
import Lox.Proofs.View.Unambiguous
import Lox.Proofs.Analysis.Mention
import Lox.Proofs.Analysis.Reach
import Lox.Proofs.Analysis.Listing
import Lox.Proofs.Store.Chain
import Lox.Proofs.Store.Laws
import Lox.Proofs.Position.Caret
import Lox.Proofs.Growth.Change
import Lox.Proofs.Growth.Steps
import Lox.Proofs.Growth.Tree
import Lox.Proofs.Growth.Session
import Lox.Proofs.Growth.Chains
import Lox.Proofs.Growth.Fields
import Lox.Proofs.Growth.Property
import Lox.Proofs.Binding.Threaded
import Lox.Proofs.Binding.Frame
import Lox.Proofs.Naming.Leads
import Lox.Proofs.Naming.Fresh
import Lox.Proofs.Naming.Grammar
import Lox.Proofs.Naming.Reserved
import Lox.Proofs.Numbering.Lineage
import Lox.Proofs.Numbering.Makes
import Lox.Proofs.Numbering.Grammar
import Lox.Proofs.Numbering.Process
import Lox.Proofs.Recovery.Lexeme
import Lox.Proofs.Recovery.Resume
import Lox.Proofs.Recovery.Ample
import Lox.Proofs.Recovery.Grammar
import Lox.Proofs.Recovery.Progress
