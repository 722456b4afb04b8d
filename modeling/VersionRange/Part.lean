import VersionRange.Text.Numeral

/-! Positional parts of a version.

A part of a concrete version is a number. A target, the version to the right of
an operator, may also leave parts out or write a wildcard for them; a padding
policy says what the unwritten ones stand for.
-/

set_option autoImplicit false

namespace VersionRange

inductive Part where
  /-- Not written. -/
  | absent
  /-- A number of any size. -/
  | value (number : Nat)
  /-- Stands for every number. -/
  | wildcard
  deriving DecidableEq, Hashable, Repr, Inhabited

inductive Padding where
  /-- Unwritten parts match everything. -/
  | wildcard
  /-- Unwritten parts are zero. -/
  | zero
  deriving DecidableEq, Repr, Inhabited

namespace Part

protected def compare : Part → Part → Ordering
  | .absent, .absent => .eq
  | .absent, _ => .lt
  | _, .absent => .gt
  | .value m, .value n => Ord.compare m n
  | .value _, .wildcard => .lt
  | .wildcard, .value _ => .gt
  | .wildcard, .wildcard => .eq

instance : Ord Part where
  compare := Part.compare

instance : Std.TransOrd Part where
  eq_swap {a b} := by
    match a, b with
    | .value m, .value n => exact (Std.OrientedOrd.eq_swap : compare m n = (compare n m).swap)
    | .absent, .absent | .absent, .value _ | .absent, .wildcard | .value _, .absent
    | .value _, .wildcard | .wildcard, .absent | .wildcard, .value _ | .wildcard, .wildcard => rfl
  isLE_trans {a b c} first second := by
    match a, b, c with
    | .value m, .value n, .value k =>
      have first : (compare m n).isLE := first
      have second : (compare n k).isLE := second
      show (compare m k).isLE
      exact Std.TransOrd.isLE_trans first second
    | .absent, _, .absent | .absent, _, .value _ | .absent, _, .wildcard
    | .value _, _, .wildcard | .wildcard, _, .wildcard => rfl
    | .value _, .absent, _ | .wildcard, .absent, _ | .wildcard, .value _, _ => contradiction
    | _, .value _, .absent | _, .wildcard, .absent | _, .wildcard, .value _ => contradiction

instance : Std.LawfulEqOrd Part where
  compare_self {a} := by
    match a with
    | .value n => exact (Std.ReflOrd.compare_self : compare n n = .eq)
    | .absent | .wildcard => rfl
  eq_of_compare {a b} same := by
    match a, b with
    | .value m, .value n =>
      have same : compare m n = .eq := same
      exact congrArg value (Std.LawfulEqOrd.eq_of_compare same)
    | .absent, .absent | .wildcard, .wildcard => rfl
    | .absent, .value _ | .absent, .wildcard | .value _, .absent | .value _, .wildcard
    | .wildcard, .absent | .wildcard, .value _ => contradiction

def value? : Part → Option Nat
  | .value n => some n
  | _ => none

def isValue : Part → Bool
  | .value _ => true
  | _ => false

def isWildcard : Part → Bool
  | .wildcard => true
  | _ => false

def isAbsent : Part → Bool
  | .absent => true
  | _ => false

/-- The number zero; a part that is not written is not zero. -/
def isZero : Part → Bool
  | .value 0 => true
  | _ => false

def resolve (padding : Padding) : Part → Part
  | .absent =>
    match padding with
    | .zero => .value 0
    | .wildcard => .wildcard
  | part => part

def floor : Part → Nat
  | .value n => n
  | _ => 0

def render : Part → List Char
  | .absent => []
  | .value n => Text.numeral n
  | .wildcard => ['*']

end Part

end VersionRange
