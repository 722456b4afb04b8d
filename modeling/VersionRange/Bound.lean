import VersionRange.Version.Basic

/-! Edges of a range of versions. -/

set_option autoImplicit false

namespace VersionRange

structure Bound where
  version : Version
  inclusive : Bool
  deriving Repr, Inhabited

namespace Bound

/-- Bounds are equal when their versions are, whatever the texts of those. -/
instance : BEq Bound where
  beq a b := a.version == b.version && a.inclusive == b.inclusive

def admitsAbove (bound : Bound) (version : Version) : Bool :=
  match compare version bound.version with
  | .gt => true
  | .eq => bound.inclusive
  | .lt => false

def admitsBelow (bound : Bound) (version : Version) : Bool :=
  match compare version bound.version with
  | .lt => true
  | .eq => bound.inclusive
  | .gt => false

def render (bound : Bound) : List Char :=
  bound.version.text.toList ++
    (if bound.inclusive then " [inclusive]" else " [exclusive]").toList

end Bound

end VersionRange
