import Tangent.Catalog.CText
import Tangent.Catalog.Mask
import Tangent.Catalog.Slopes
import Tangent.CodeModule.OptionsText
import Tangent.Main
import Tangent.Node.Outline
import Tangent.Node.Rebuild
import Tangent.Numeric.Double
import Tangent.Pattern.Transpose
import Tangent.Proofs.Additions
import Tangent.Proofs.Adjoint
import Tangent.Proofs.Always
import Tangent.Proofs.Bounds
import Tangent.Proofs.CellSets
import Tangent.Proofs.Cells
import Tangent.Proofs.Closed
import Tangent.Proofs.Compression
import Tangent.Proofs.Constancy
import Tangent.Proofs.Constructors
import Tangent.Proofs.Copies
import Tangent.Proofs.Denotation
import Tangent.Proofs.Densify
import Tangent.Proofs.Dependencies
import Tangent.Proofs.Directions
import Tangent.Proofs.DoubleEquality
import Tangent.Proofs.Elementwise
import Tangent.Proofs.Entries
import Tangent.Proofs.EqualUpTo
import Tangent.Proofs.FailedAdditions
import Tangent.Proofs.Freeze
import Tangent.Proofs.GatewayLayout
import Tangent.Proofs.Gateways
import Tangent.Proofs.GraphSize
import Tangent.Proofs.HigherDerivatives
import Tangent.Proofs.Interning
import Tangent.Proofs.Jacobian
import Tangent.Proofs.JacobianPattern
import Tangent.Proofs.Labels
import Tangent.Proofs.LayOut
import Tangent.Proofs.Literals
import Tangent.Proofs.LoadOrder
import Tangent.Proofs.Lookup
import Tangent.Proofs.Loops
import Tangent.Proofs.Machine
import Tangent.Proofs.Mirror
import Tangent.Proofs.Model
import Tangent.Proofs.NearestDouble
import Tangent.Proofs.Noninterference
import Tangent.Proofs.NormalForm
import Tangent.Proofs.Offsets
import Tangent.Proofs.Outlines
import Tangent.Proofs.PatternKeys
import Tangent.Proofs.PiecewiseLinear
import Tangent.Proofs.Pools
import Tangent.Proofs.Reals
import Tangent.Proofs.Registry
import Tangent.Proofs.Renamings
import Tangent.Proofs.Run
import Tangent.Proofs.ScalarLayout
import Tangent.Proofs.Schedule
import Tangent.Proofs.Scope
import Tangent.Proofs.Seeding
import Tangent.Proofs.Simplify
import Tangent.Proofs.Slopes
import Tangent.Proofs.SlotCount
import Tangent.Proofs.SmoothSlopes
import Tangent.Proofs.StructuralZeros
import Tangent.Proofs.SupportOrder
import Tangent.Proofs.Symbols
import Tangent.Proofs.Tables
import Tangent.Proofs.Tangents
import Tangent.Proofs.Transposition
import Tangent.Proofs.Validation
import Tangent.Proofs.Values
import Tangent.Proofs.WellFormed
import Tangent.Proofs.ZeroOperands
import Tangent.Routine.Schedule
import Tangent.Tape.Derivatives
import Tangent.Tape.Eval
