import QuditCircuits.Decomposition.Full
import QuditCircuits.Gate.Diagram
import QuditCircuits.Proofs.Condition.Alternatives
import QuditCircuits.Proofs.Register.Controlled
import QuditCircuits.Proofs.Gate.WellFormed
import QuditCircuits.Proofs.Gate.Flattening
import QuditCircuits.Proofs.Amplitude
import QuditCircuits.Proofs.Synthesis.FlipAction
import QuditCircuits.Proofs.Synthesis.RotationAction
import QuditCircuits.Proofs.RealScalar
import QuditCircuits.Proofs.Register.ControlledProduct
import QuditCircuits.Proofs.Register.Positions
import QuditCircuits.Proofs.Operation.ControlledParts
import QuditCircuits.Proofs.Gate.Blocks
import QuditCircuits.Proofs.Condition.Canonical
import QuditCircuits.Proofs.Gate.Reachable
import QuditCircuits.Proofs.Decomposition.Rank
import QuditCircuits.Proofs.Decomposition.Worklist
import QuditCircuits.Proofs.Condition.Algebra
import QuditCircuits.Proofs.Gate.Admission
import QuditCircuits.Proofs.Operation.Layers
import QuditCircuits.Proofs.Synthesis.Extent
import QuditCircuits.Proofs.Synthesis.Size
import QuditCircuits.Proofs.Gate.Resolution
import QuditCircuits.Proofs.Condition.Enumeration
import QuditCircuits.Proofs.Decomposition.Register
import QuditCircuits.Proofs.Operation.Reachable
import QuditCircuits.Proofs.Decomposition.GlobalPhases
import QuditCircuits.Proofs.Register.EmbeddedProduct
import QuditCircuits.Proofs.Gate.Sizes
import QuditCircuits.Proofs.Gate.Faultless
import QuditCircuits.Proofs.Gate.Capabilities
import QuditCircuits.Proofs.Operation.Circuits
import QuditCircuits.Proofs.Register.Flips
import QuditCircuits.Proofs.Operation.Subregister
import QuditCircuits.Proofs.Decomposition.RaisedControls
import QuditCircuits.Proofs.Decomposition.SingleQubit
import QuditCircuits.Proofs.Condition.Validity
import QuditCircuits.Proofs.Condition.Equality
import QuditCircuits.Proofs.Decomposition.Outcome
import QuditCircuits.Proofs.Decomposition.Residue
import QuditCircuits.Proofs.Register.EmbeddingLaws
import QuditCircuits.Proofs.Parameter.Chains
import QuditCircuits.Proofs.Gate.Symbols
import QuditCircuits.Proofs.Decomposition.PhaseTables
import QuditCircuits.Proofs.Synthesis.Emission
import QuditCircuits.Proofs.Gate.Rebuilding
import QuditCircuits.Proofs.Gate.Completion
import QuditCircuits.Proofs.Register.Numbering
import QuditCircuits.Proofs.FreeArcs
import QuditCircuits.Proofs.Synthesis.UnitaryRoots
import QuditCircuits.Proofs.Synthesis.ControlledTurns
