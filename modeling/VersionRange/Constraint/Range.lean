import VersionRange.Bound
import VersionRange.Constraint.Basic

/-! Bounds of a constraint.

A bound is given where the admitted versions form a range with that edge. A
constraint that matches by position has bounds only if its target leaves nothing
open.
-/

set_option autoImplicit false

namespace VersionRange.Constraint

def isConcrete (constraint : Constraint) : Bool :=
  constraint.target.release.parts.all Part.isValue && constraint.target.suffix != .anyRevision

def floorBound (constraint : Constraint) (inclusive : Bool) : Bound :=
  ⟨constraint.floor.toVersion, inclusive⟩

/-- The lower edge; without one, the range is open below or is no range. -/
def lower? (constraint : Constraint) : Option Bound :=
  match constraint.operator with
  | .greaterThanOrEqual | .tilde | .caret => some (constraint.floorBound true)
  | .implicit | .equal => if constraint.isConcrete then some (constraint.floorBound true) else none
  | .greaterThan => if constraint.isConcrete then some (constraint.floorBound false) else none
  | .notEqual | .lessThan | .lessThanOrEqual => none

def upper? (constraint : Constraint) : Option Bound :=
  match constraint.operator with
  | .lessThan => some (constraint.floorBound false)
  | .tilde | .caret =>
    constraint.ceiling?.map fun ceiling => ⟨Precedence.toVersion ⟨ceiling, .bare⟩, false⟩
  | .implicit | .equal | .lessThanOrEqual =>
    if constraint.isConcrete then some (constraint.floorBound true) else none
  | .notEqual | .greaterThan | .greaterThanOrEqual => none

end VersionRange.Constraint
