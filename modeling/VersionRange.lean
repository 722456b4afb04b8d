import VersionRange.Collection
import VersionRange.Constraint.Range
import VersionRange.Stored
import VersionRange.Proofs.Constraint.Position
import VersionRange.Proofs.Version.Target
import VersionRange.Proofs.Constraint.Operators
import VersionRange.Proofs.Constraint.Bounds
import VersionRange.Proofs.Expression.Term
import VersionRange.Proofs.Expression.Single
import VersionRange.Proofs.Expression.Comparison
import VersionRange.Proofs.Version.Order
import VersionRange.Proofs.Expression.Reading
import VersionRange.Proofs.Constraint.Convexity
import VersionRange.Proofs.Collection.Contiguity
import VersionRange.Proofs.Expression.Composition
import VersionRange.Proofs.Expression.RoundTrip
import VersionRange.Proofs.Version.Padding
import VersionRange.Proofs.Constraint.Padding
import VersionRange.Proofs.Expression.Padding
import VersionRange.Proofs.Expression.Stored
import VersionRange.Proofs.Expression.Construction
import VersionRange.Proofs.Expression.Spacing
import VersionRange.Proofs.Expression.Trimming
import VersionRange.Proofs.Expression.Ranges
import VersionRange.Proofs.Version.Precedence
import VersionRange.Proofs.Expression.Completion
import VersionRange.Proofs.Expression.Pieces
import VersionRange.Proofs.Expression.Faults
import VersionRange.Proofs.Version.Grammar
import VersionRange.Proofs.Constraint.Front
import VersionRange.Proofs.Expression.Truncation
import VersionRange.Proofs.Expression.BoundTexts
import VersionRange.Proofs.Expression.Build
import VersionRange.Proofs.Constraint.Universality
import VersionRange.Proofs.Expression.Universality
import VersionRange.Proofs.Collection.Sorting
import VersionRange.Proofs.Collection.Reading
import VersionRange.Proofs.Expression.Representation
import VersionRange.Proofs.Expression.Alone
