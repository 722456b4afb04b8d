import VersionRange.Constraint.Basic
import VersionRange.Constraint.Position

/-! Which versions a constraint admits.

Equality, its negation, greater-than and at-most match by position, so `=2`
admits `2.0.0-alpha`. Less-than, at-least, tilde and caret compare with the
target's lowest version, so `>=2` does not.
-/

set_option autoImplicit false

namespace VersionRange

namespace Constraint

def locate (constraint : Constraint) (version : Version) : Position :=
  version.toPrecedence.locate constraint.target

def compareFloor (constraint : Constraint) (version : Version) : Ordering :=
  compare version.toPrecedence constraint.floor

/-- Whether a version stays below the ceiling. Release numbers alone decide, which shuts out
pre-releases of the ceiling. -/
def isBelowCeiling (constraint : Constraint) (version : Version) : Bool :=
  match constraint.ceiling? with
  | none => true
  | some ceiling => (compare version.release ceiling).isLT

def admits (constraint : Constraint) (version : Version) : Bool :=
  match constraint.operator with
  | .implicit | .equal => (constraint.locate version).isMatch
  | .notEqual => !(constraint.locate version).isMatch
  | .lessThan => (constraint.compareFloor version).isLT
  | .lessThanOrEqual => constraint.locate version != .greater
  | .greaterThan => constraint.locate version == .greater
  | .greaterThanOrEqual => (constraint.compareFloor version).isGE
  | .tilde | .caret =>
    (constraint.compareFloor version).isGE && constraint.isBelowCeiling version

def isUniversal (constraint : Constraint) : Bool :=
  constraint.operator.isEquality && constraint.target.release.major.isWildcard

end Constraint

/-- Whether a version stands in an operator's relation to another one, which serves as the target
and so matches everything where it leaves parts open. -/
def Version.satisfies (version : Version) (operator : Operator) (other : Version) : Bool :=
  (Constraint.ofVersion operator other).admits version

end VersionRange
