import OnePass.Main
import OnePass.Tree.Declarations
import OnePass.Proofs.Formula.RoundTrip
import OnePass.Proofs.Library.Order
import OnePass.Proofs.Library.Termination
import OnePass.Proofs.Program.Aliases
import OnePass.Proofs.Program.Comments
import OnePass.Proofs.Program.Containment
import OnePass.Proofs.Program.Contribution
import OnePass.Proofs.Program.Depth
import OnePass.Proofs.Program.Distinct
import OnePass.Proofs.Program.Frame
import OnePass.Proofs.Program.Imports
import OnePass.Proofs.Program.Layout
import OnePass.Proofs.Program.Location
import OnePass.Proofs.Program.Modules
import OnePass.Proofs.Program.Mutability
import OnePass.Proofs.Program.Overload
import OnePass.Proofs.Program.Placement
import OnePass.Proofs.Program.Precedence
import OnePass.Proofs.Program.Progress
import OnePass.Proofs.Program.Ranges
import OnePass.Proofs.Program.Recheck
import OnePass.Proofs.Program.Resolution
import OnePass.Proofs.Program.ReturnPaths
import OnePass.Proofs.Registry.Invariant
import OnePass.Proofs.Registry.Modules
import OnePass.Proofs.Token.Lossless
import OnePass.Proofs.Token.Rendering
import OnePass.Proofs.Typing.Uniform
import OnePass.Proofs.Registry.Shadowing
import OnePass.Proofs.Registry.Chains
import OnePass.Proofs.Typing.Reordering
import OnePass.Proofs.Registry.Suggestion
import OnePass.Proofs.Region.Brackets
import OnePass.Proofs.Program.TypeText
import OnePass.Proofs.Ty.Compatibility
import OnePass.Proofs.Ty.Promotion
import OnePass.Proofs.Diagnostic.Excerpt
import OnePass.Proofs.Program.CallOrder
import OnePass.Proofs.Program.Integers
