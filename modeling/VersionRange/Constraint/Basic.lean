import VersionRange.Operator
import VersionRange.Version.Basic

/-! Constraints.

A constraint is an operator with a target. The operators read the target in two
ways. Those that match by position use its parts under the padding policy, with
wildcards left in; those that describe a range use the lowest version it admits.
Tilde and caret ranges also end below a ceiling, which depends on the parts as
they are written.
-/

set_option autoImplicit false

namespace VersionRange

structure Constraint where
  operator : Operator
  /-- The target as it is written. -/
  version : Version
  padding : Padding
  text : String
  deriving Repr, Inhabited

/-- Tilde lets the patch grow, or the minor too where none is written. -/
def Release.tildeCeiling? (release : Release) : Option Release :=
  match release.major, release.minor with
  | .value major, .value minor => some (ofNumbers major (minor + 1) 0)
  | .value major, _ => some (ofNumbers (major + 1) 0 0)
  | _, _ => none

/-- Caret keeps the leftmost part that is not zero. Parts that are not written are never
raised, so of zeros alone the last written one is. -/
def Release.caretCeiling? (release : Release) : Option Release :=
  match release.major, release.minor, release.patch with
  | .value 0, .value 0, .value patch => some (ofNumbers 0 0 (patch + 1))
  | .value 0, .value minor, _ => some (ofNumbers 0 (minor + 1) 0)
  | .value major, _, _ => some (ofNumbers (major + 1) 0 0)
  | _, _, _ => none

namespace Constraint

/-- A constraint against a version at hand. Its unwritten parts match everything, whichever policy
the version was read with. -/
def ofVersion (operator : Operator) (version : Version) : Constraint where
  operator := operator
  version := version
  padding := .wildcard
  text := operator.symbol ++ version.text

/-- What a blank expression stands for: every version, with nothing written. -/
def any (padding : Padding) : Constraint :=
  let release : Release := ⟨.wildcard, .absent, .absent⟩
  { operator := .implicit
    version := ⟨⟨release, release.impliedSuffix padding⟩, none, "*"⟩
    padding := padding
    text := "" }

def target (constraint : Constraint) : Precedence :=
  ⟨constraint.version.release.resolve constraint.padding, constraint.version.suffix⟩

def floor (constraint : Constraint) : Precedence :=
  constraint.target.floor

def ceiling? (constraint : Constraint) : Option Release :=
  match constraint.operator with
  | .tilde => constraint.version.release.tildeCeiling?
  | .caret => constraint.version.release.caretCeiling?
  | _ => none

def render (constraint : Constraint) : List Char :=
  constraint.operator.symbol.toList ++ constraint.version.text.toList

end Constraint

end VersionRange
