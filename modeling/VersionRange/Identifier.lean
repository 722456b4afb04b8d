import VersionRange.Text.Numeral

/-! Identifiers of a pre-release.

An identifier written with digits alone is a number; any other keeps its text.
-/

set_option autoImplicit false

namespace VersionRange

inductive Identifier where
  | numeric (number : Nat)
  | alphanumeric (text : String)
  deriving DecidableEq, Hashable, Repr, Inhabited

namespace Identifier

protected def compare : Identifier → Identifier → Ordering
  | .numeric m, .numeric n => Ord.compare m n
  | .numeric _, .alphanumeric _ => .lt
  | .alphanumeric _, .numeric _ => .gt
  | .alphanumeric a, .alphanumeric b => Ord.compare a b

instance : Ord Identifier where
  compare := Identifier.compare

instance : Std.TransOrd Identifier where
  eq_swap {a b} := by
    match a, b with
    | .numeric m, .numeric n => exact (Std.OrientedOrd.eq_swap : compare m n = (compare n m).swap)
    | .numeric _, .alphanumeric _ | .alphanumeric _, .numeric _ => rfl
    | .alphanumeric s, .alphanumeric t =>
      exact (Std.OrientedOrd.eq_swap : compare s t = (compare t s).swap)
  isLE_trans {a b c} first second := by
    match a, b, c with
    | .numeric m, .numeric n, .numeric k =>
      have first : (compare m n).isLE := first
      have second : (compare n k).isLE := second
      show (compare m k).isLE
      exact Std.TransOrd.isLE_trans first second
    | .alphanumeric s, .alphanumeric t, .alphanumeric u =>
      have first : (compare s t).isLE := first
      have second : (compare t u).isLE := second
      show (compare s u).isLE
      exact Std.TransOrd.isLE_trans first second
    | .numeric _, _, .alphanumeric _ => rfl
    | .alphanumeric _, .numeric _, _ => contradiction
    | _, .alphanumeric _, .numeric _ => contradiction

instance : Std.LawfulEqOrd Identifier where
  compare_self {a} := by
    match a with
    | .numeric n => exact (Std.ReflOrd.compare_self : compare n n = .eq)
    | .alphanumeric s => exact (Std.ReflOrd.compare_self : compare s s = .eq)
  eq_of_compare {a b} same := by
    match a, b with
    | .numeric m, .numeric n =>
      have same : compare m n = .eq := same
      exact congrArg numeric (Std.LawfulEqOrd.eq_of_compare same)
    | .alphanumeric s, .alphanumeric t =>
      have same : compare s t = .eq := same
      exact congrArg alphanumeric (Std.LawfulEqOrd.eq_of_compare same)
    | .numeric _, .alphanumeric _ | .alphanumeric _, .numeric _ => contradiction

def ofToken (token : List Char) : Identifier :=
  if Text.isNumeral token then .numeric (Text.numeralValue token)
  else .alphanumeric (String.ofList token)

def render : Identifier → List Char
  | .numeric n => Text.numeral n
  | .alphanumeric text => text.toList

end Identifier

end VersionRange
