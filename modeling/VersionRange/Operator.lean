/-! Comparison operators.

Several operators have more than one spelling. The table of spellings serves
both for reading an operator and for listing what is supported.
-/

set_option autoImplicit false

namespace VersionRange

inductive Operator where
  /-- None is written; reads as equality. -/
  | implicit
  | equal
  | notEqual
  | lessThan
  | lessThanOrEqual
  | greaterThan
  | greaterThanOrEqual
  /-- Up to the next minor release, or the next major one if no minor is written. -/
  | tilde
  /-- Up to the next change of the leftmost part that is not zero. -/
  | caret
  deriving DecidableEq, Repr, Inhabited

structure InvalidOperator where
  text : String
  deriving DecidableEq, Repr

def InvalidOperator.message (error : InvalidOperator) : String :=
  "Invalid operator \"" ++ error.text ++ "\""

namespace Operator

def symbol : Operator → String
  | .implicit => ""
  | .equal => "="
  | .notEqual => "!="
  | .lessThan => "<"
  | .lessThanOrEqual => "<="
  | .greaterThan => ">"
  | .greaterThanOrEqual => ">="
  | .tilde => "~"
  | .caret => "^"

def spellings : List (String × Operator) :=
  [("", .implicit), ("=", .equal), ("==", .equal), ("!=", .notEqual), ("<", .lessThan),
    ("<=", .lessThanOrEqual), ("=<", .lessThanOrEqual), (">", .greaterThan),
    (">=", .greaterThanOrEqual), ("=>", .greaterThanOrEqual), ("~", .tilde), ("~>", .tilde),
    ("^", .caret)]

def supported : List String :=
  spellings.map Prod.fst

/-- Read an operator; the text is not trimmed. -/
def parse (text : String) : Except InvalidOperator Operator :=
  match spellings.lookup text with
  | some operator => .ok operator
  | none => .error ⟨text⟩

def isEquality : Operator → Bool
  | .implicit | .equal => true
  | _ => false

@[simp] theorem parse_symbol (operator : Operator) : parse operator.symbol = .ok operator := by
  cases operator <;> rfl

end Operator

end VersionRange
