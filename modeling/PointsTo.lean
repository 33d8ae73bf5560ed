import PointsTo.Main
import PointsTo.Queue
import PointsTo.Sorted
import PointsTo.Proofs.Variables
import PointsTo.Proofs.Fact
import PointsTo.Proofs.Update
import PointsTo.Proofs.Constraint
import PointsTo.Proofs.Links
import PointsTo.Proofs.Run
import PointsTo.Proofs.Targets
import PointsTo.Proofs.Correspondence
import PointsTo.Proofs.FixedPoint
import PointsTo.Proofs.Execution
import PointsTo.Proofs.Soundness
import PointsTo.Proofs.LeastSolution
import PointsTo.Proofs.Rearrangement
import PointsTo.Proofs.PossibleFacts
import PointsTo.Proofs.Termination
import PointsTo.Proofs.Limits
import PointsTo.Proofs.Flow
import PointsTo.Proofs.Extension
import PointsTo.Proofs.OrderIndependence
import PointsTo.Proofs.Reachability
import PointsTo.Proofs.Slots
import PointsTo.Proofs.Effect
import PointsTo.Proofs.ReturnedReceiver
import PointsTo.Proofs.IndexKeys
import PointsTo.Proofs.Lowering.Growth
import PointsTo.Proofs.Lowering.Declared
import PointsTo.Proofs.Lowering.Building
import PointsTo.Proofs.Lowering.Statements
import PointsTo.Proofs.Lowering.Bodies
import PointsTo.Proofs.Lowering.Complete
import PointsTo.Proofs.Lowering.Found
import PointsTo.Proofs.Lowering.DirectCalls
import PointsTo.Proofs.Lowering.InterfaceCalls
import PointsTo.Proofs.Built
import PointsTo.Proofs.Hierarchy
import PointsTo.Proofs.Receivers
import PointsTo.Proofs.Numbering
import PointsTo.Proofs.Identity
import PointsTo.Proofs.Lowering.Globals
import PointsTo.Proofs.Lowering.Memory
import PointsTo.Proofs.TrackedLiterals
import PointsTo.Proofs.RecordedCalls
import PointsTo.Proofs.RecursiveGroups
import PointsTo.Proofs.Quoted
import PointsTo.Proofs.Drawing
import PointsTo.Proofs.Lowering.Addresses
import PointsTo.Proofs.Lowering.OwnVariables
import PointsTo.Proofs.NumberedCalls
import PointsTo.Proofs.Operations
import PointsTo.Proofs.StaticOwners
import PointsTo.Proofs.StoreOperations
import PointsTo.Proofs.Answers
