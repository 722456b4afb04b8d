import VersionRange.Suffix

/-! Versions and their order.

The release numbers and the suffix decide the order, equality and hash of a
version. Build metadata and the text that a version was read from are kept
along with them and never compared.
-/

set_option autoImplicit false

namespace VersionRange

structure Release where
  major : Part
  minor : Part
  patch : Part
  deriving DecidableEq, Repr, Inhabited

namespace Release

instance : Ord Release where
  compare := compareLex (compareOn Release.major) <| compareLex (compareOn Release.minor) <|
    compareOn Release.patch

instance : Std.TransOrd Release :=
  inferInstanceAs <| Std.TransCmp (compareLex _ _)

theorem compare_eq_then (a b : Release) :
    compare a b = (compare a.major b.major).then
      ((compare a.minor b.minor).then (compare a.patch b.patch)) :=
  rfl

instance : Std.LawfulEqOrd Release where
  eq_of_compare {a b} same := by
    simp only [compare_eq_then, Ordering.then_eq_eq, Std.LawfulEqOrd.compare_eq_iff_eq] at same
    cases a
    cases b
    simp_all

def ofNumbers (major minor patch : Nat) : Release :=
  ⟨.value major, .value minor, .value patch⟩

def parts (release : Release) : List Part :=
  [release.major, release.minor, release.patch]

def resolve (padding : Padding) (release : Release) : Release :=
  ⟨release.major.resolve padding, release.minor.resolve padding, release.patch.resolve padding⟩

def floor (release : Release) : Release :=
  ofNumbers release.major.floor release.minor.floor release.patch.floor

def render (release : Release) : List Char :=
  ['.'].intercalate (release.parts.map Part.render)

/-- The suffix of a target that writes none. A patch that is left open leaves the revision open
too, unless unwritten parts are zero. -/
def impliedSuffix (padding : Padding) (release : Release) : Suffix :=
  match padding, release.patch with
  | .wildcard, .absent | .wildcard, .wildcard => .anyRevision
  | _, _ => .bare

end Release

structure Precedence where
  release : Release
  suffix : Suffix
  deriving DecidableEq, Repr, Inhabited

namespace Precedence

instance : Ord Precedence where
  compare := compareLex (compareOn Precedence.release) (compareOn Precedence.suffix)

instance : Std.TransOrd Precedence :=
  inferInstanceAs <| Std.TransCmp (compareLex _ _)

theorem compare_eq_then (a b : Precedence) :
    compare a b = (compare a.release b.release).then (compare a.suffix b.suffix) :=
  rfl

instance : Std.LawfulEqOrd Precedence where
  eq_of_compare {a b} same := by
    simp only [compare_eq_then, Ordering.then_eq_eq, Std.LawfulEqOrd.compare_eq_iff_eq] at same
    cases a
    cases b
    simp_all

def floor (precedence : Precedence) : Precedence :=
  ⟨precedence.release.floor, precedence.suffix.floor⟩

def render (precedence : Precedence) : List Char :=
  precedence.release.render ++ precedence.suffix.render

end Precedence

structure Version extends Precedence where
  build : Option String
  text : String
  deriving Repr, Inhabited

def Precedence.toVersion (precedence : Precedence) : Version where
  toPrecedence := precedence
  build := none
  text := String.ofList precedence.render

namespace Version

instance : Ord Version where
  compare := compareOn Version.toPrecedence

instance : Std.TransOrd Version :=
  inferInstanceAs <| Std.TransCmp (compareOn _)

instance : BEq Version where
  beq a b := compare a b == .eq

/-- The fields that go into the hash, in this order. -/
def hashed (version : Version) :
    Part × Part × Part × Option (List Part) × Option (List Identifier) :=
  (version.release.major, version.release.minor, version.release.patch, version.suffix.revision?,
    version.suffix.preRelease?)

instance : Hashable Version where
  hash version := hash version.hashed

def ofNumbers (major minor patch : Nat) : Version :=
  Precedence.toVersion ⟨.ofNumbers major minor patch, .bare⟩

def hasRevision (version : Version) : Bool :=
  version.suffix.revision?.isSome

def isPreRelease (version : Version) : Bool :=
  version.suffix.preRelease?.isSome

def render (version : Version) : List Char :=
  version.toPrecedence.render ++
    match version.build with
    | none => []
    | some build => '+' :: build.toList

end Version

end VersionRange
