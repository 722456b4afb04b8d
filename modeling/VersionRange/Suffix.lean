import VersionRange.Identifier
import VersionRange.Part

/-! The text between the release numbers and the build metadata.

A suffix of numbers alone is a revision and lies above the bare release; any
other suffix is a pre-release and lies below it. A target that leaves its patch
open stands for every revision.
-/

set_option autoImplicit false

namespace VersionRange

inductive Suffix where
  /-- Identifiers of which at least one is not a number. -/
  | preRelease (identifiers : List Identifier)
  /-- Nothing is written. -/
  | bare
  /-- Numbers alone. -/
  | revision (numbers : List Nat)
  /-- Stands for every revision. -/
  | anyRevision
  deriving DecidableEq, Repr, Inhabited

namespace Suffix

/-- Of two pre-releases, or two revisions, the first difference decides and a longer list is above
a shorter one that it extends. -/
protected def compare : Suffix → Suffix → Ordering
  | .preRelease a, .preRelease b => Ord.compare a b
  | .preRelease _, _ => .lt
  | _, .preRelease _ => .gt
  | .bare, .bare => .eq
  | .bare, _ => .lt
  | _, .bare => .gt
  | .revision a, .revision b => Ord.compare a b
  | .revision _, .anyRevision => .lt
  | .anyRevision, .revision _ => .gt
  | .anyRevision, .anyRevision => .eq

instance : Ord Suffix where
  compare := Suffix.compare

instance : Std.TransOrd Suffix where
  eq_swap {a b} := by
    match a, b with
    | .preRelease p, .preRelease q =>
      exact (Std.OrientedOrd.eq_swap : compare p q = (compare q p).swap)
    | .revision r, .revision s =>
      exact (Std.OrientedOrd.eq_swap : compare r s = (compare s r).swap)
    | .preRelease _, .bare | .preRelease _, .revision _ | .preRelease _, .anyRevision
    | .bare, .preRelease _ | .bare, .bare | .bare, .revision _ | .bare, .anyRevision
    | .revision _, .preRelease _ | .revision _, .bare | .revision _, .anyRevision
    | .anyRevision, .preRelease _ | .anyRevision, .bare | .anyRevision, .revision _
    | .anyRevision, .anyRevision => rfl
  isLE_trans {a b c} first second := by
    match a, b, c with
    | .preRelease p, .preRelease q, .preRelease r =>
      have first : (compare p q).isLE := first
      have second : (compare q r).isLE := second
      show (compare p r).isLE
      exact Std.TransOrd.isLE_trans first second
    | .revision r, .revision s, .revision t =>
      have first : (compare r s).isLE := first
      have second : (compare s t).isLE := second
      show (compare r t).isLE
      exact Std.TransOrd.isLE_trans first second
    | .preRelease _, _, .bare | .preRelease _, _, .revision _ | .preRelease _, _, .anyRevision
    | .bare, _, .bare | .bare, _, .revision _ | .bare, _, .anyRevision
    | .revision _, _, .anyRevision | .anyRevision, _, .anyRevision => rfl
    | .bare, .preRelease _, _ | .revision _, .preRelease _, _ | .anyRevision, .preRelease _, _
    | .revision _, .bare, _ | .anyRevision, .bare, _ | .anyRevision, .revision _, _ => contradiction
    | _, .bare, .preRelease _ | _, .revision _, .preRelease _ | _, .anyRevision, .preRelease _
    | _, .revision _, .bare | _, .anyRevision, .bare | _, .anyRevision, .revision _ => contradiction

instance : Std.LawfulEqOrd Suffix where
  compare_self {a} := by
    match a with
    | .preRelease p => exact (Std.ReflOrd.compare_self : compare p p = .eq)
    | .revision r => exact (Std.ReflOrd.compare_self : compare r r = .eq)
    | .bare | .anyRevision => rfl
  eq_of_compare {a b} same := by
    match a, b with
    | .preRelease p, .preRelease q =>
      have same : compare p q = .eq := same
      exact congrArg preRelease (Std.LawfulEqOrd.eq_of_compare same)
    | .revision r, .revision s =>
      have same : compare r s = .eq := same
      exact congrArg revision (Std.LawfulEqOrd.eq_of_compare same)
    | .bare, .bare | .anyRevision, .anyRevision => rfl
    | .preRelease _, .bare | .preRelease _, .revision _ | .preRelease _, .anyRevision
    | .bare, .preRelease _ | .bare, .revision _ | .bare, .anyRevision
    | .revision _, .preRelease _ | .revision _, .bare | .revision _, .anyRevision
    | .anyRevision, .preRelease _ | .anyRevision, .bare | .anyRevision, .revision _ =>
      contradiction

def ofTokens (tokens : List (List Char)) : Suffix :=
  if tokens.all Text.isNumeral then .revision (tokens.map Text.numeralValue)
  else .preRelease (tokens.map Identifier.ofToken)

def revision? : Suffix → Option (List Part)
  | .revision numbers => some (numbers.map .value)
  | .anyRevision => some [.wildcard]
  | _ => none

def preRelease? : Suffix → Option (List Identifier)
  | .preRelease identifiers => some identifiers
  | _ => none

/-- The lowest suffix that a target's suffix admits: where every revision is admitted, none need
be written. -/
def floor : Suffix → Suffix
  | .anyRevision => .bare
  | suffix => suffix

def render : Suffix → List Char
  | .preRelease identifiers => '-' :: ['.'].intercalate (identifiers.map Identifier.render)
  | .bare => []
  | .revision numbers => '-' :: ['.'].intercalate (numbers.map Text.numeral)
  | .anyRevision => ['-', '*']

end Suffix

end VersionRange
