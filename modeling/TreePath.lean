import TreePath.Failure
import TreePath.Proofs.Engine.Build
import TreePath.Proofs.Engine.Run
import TreePath.Tree.KindDocument
import TreePath.Validation.Rule
import TreePath.Proofs.Tree.Independence
import TreePath.Proofs.Engine.Order
import TreePath.Proofs.Tree.Addressable
import TreePath.Proofs.Engine.Listing
import TreePath.Proofs.Tree.Growth
import TreePath.Proofs.Path.Limit
import TreePath.Proofs.Engine.Limit
import TreePath.Proofs.Tree.Respelling
import TreePath.Proofs.Tree.Normalization
import TreePath.Proofs.Engine.Reordering
import TreePath.Proofs.Engine.Absorption
import TreePath.Proofs.Tree.Reloading
import TreePath.Proofs.Validation.Reports
import TreePath.Proofs.Json.Numerals
import TreePath.Proofs.Json.RoundTrip
import TreePath.Proofs.Tree.RoundTrip
import TreePath.Proofs.Engine.Refinement
import TreePath.Proofs.Tree.Postorder
import TreePath.Proofs.Tree.Composition
import TreePath.Proofs.Path.Refusal
import TreePath.Proofs.Engine.PlainKey
import TreePath.Proofs.Tree.Nulls
import TreePath.Proofs.Number.Equality
import TreePath.Proofs.Json.Equality
import TreePath.Proofs.Tree.Equality
import TreePath.Proofs.Path.Display
import TreePath.Proofs.Engine.Cursor
