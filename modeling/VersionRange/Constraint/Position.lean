import VersionRange.Version.Basic

/-! Positions relative to a target.

A version is compared with a target part by part, most significant first. The
comparison ends at the first difference, or at the first wildcard of the target:
from there on every version lies within the target.
-/

set_option autoImplicit false

namespace VersionRange

inductive Position where
  | less
  | equal
  | greater
  /-- All parts in front of the target's first wildcard agree. -/
  | within
  deriving DecidableEq, Repr, Inhabited

namespace Position

def ofOrdering : Ordering → Position
  | .lt => .less
  | .eq => .equal
  | .gt => .greater

def isMatch : Position → Bool
  | .equal | .within => true
  | _ => false

def orElse (position : Position) (rest : Unit → Position) : Position :=
  match position with
  | .equal => rest ()
  | position => position

end Position

def Part.locateAll : List Part → List Part → Position
  | part :: parts, target :: targets =>
    if target.isWildcard then .within
    else (Position.ofOrdering (compare part target)).orElse fun _ => locateAll parts targets
  | _, _ => .equal

/-- Locate a revision, whose first difference decides. One that ends early lies below what the
target goes on with. -/
def Suffix.locateNumbers : List Nat → List Nat → Position
  | [], [] => .equal
  | [], _ :: _ => .less
  | _ :: _, [] => .greater
  | number :: numbers, target :: targets =>
    (Position.ofOrdering (compare number target)).orElse fun _ => locateNumbers numbers targets

/-- Locate a suffix. A revision lies above all that has none, and a pre-release below the bare
release. -/
def Suffix.locate (suffix target : Suffix) : Position :=
  match target, suffix with
  | .anyRevision, _ => .within
  | .revision wanted, .revision numbers => locateNumbers numbers wanted
  | .revision _, .anyRevision => .greater
  | .revision _, _ => .less
  | _, .revision _ | _, .anyRevision => .greater
  | .bare, .bare => .equal
  | .bare, .preRelease _ => .less
  | .preRelease _, .bare => .greater
  | .preRelease wanted, .preRelease identifiers => .ofOrdering (compare identifiers wanted)

def Precedence.locate (version target : Precedence) : Position :=
  (Part.locateAll version.release.parts target.release.parts).orElse fun _ =>
    version.suffix.locate target.suffix

end VersionRange
