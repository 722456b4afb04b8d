import VersionRange.Expression.Basic
import VersionRange.Expression.Term
import VersionRange.Version.Target

/-! Reading expressions.

A blank text admits everything. Any other is cut at its double bars into groups,
which are read from left to right; each is split into terms before its first
term is read. The first fault met is reported, with the text it was met in.
-/

set_option autoImplicit false

namespace VersionRange

inductive Fault where
  /-- Nothing is written on one side of a double bar. -/
  | emptyGroup
  /-- An operator is followed by the end of its group or by a comma. -/
  | missingVersion
  | invalidOperator (error : InvalidOperator)
  | invalidVersion (error : InvalidVersion)
  deriving DecidableEq, Repr

def Fault.message : Fault → String
  | .emptyGroup => "empty constraint group"
  | .missingVersion => "operator without a version"
  | .invalidOperator error => error.message
  | .invalidVersion error => error.message

/-- A fault with the text that it was met in: the whole expression for an empty group, the group
for a missing version, and otherwise the term. -/
structure InvalidExpression where
  text : String
  fault : Fault
  deriving DecidableEq, Repr

def InvalidExpression.message (error : InvalidExpression) : String :=
  "Could not parse version constraint \"" ++ error.text ++ "\": " ++ error.fault.message

/-- Read a term; its operator is read first. White space around the target is dropped, also where
it is not among the blanks that separate terms. -/
def Term.toConstraint (padding : Padding) (term : Term) : Except InvalidExpression Constraint :=
  let text := String.ofList term.text
  match Operator.parse (String.ofList term.operator) with
  | .error error => .error ⟨text, .invalidOperator error⟩
  | .ok operator =>
    match Version.parseTarget padding (String.ofList (Text.trim term.target)) with
    | .error error => .error ⟨text, .invalidVersion error⟩
    | .ok version => .ok ⟨operator, version, padding, text⟩

namespace Expression

def splitBars : List Char → List (List Char)
  | [] => [[]]
  | '|' :: '|' :: rest => [] :: splitBars rest
  | c :: rest => (splitBars rest).modifyHead (c :: ·)

def pieces (text : List Char) : List (List Char) :=
  (splitBars text).map Text.trim

def parseGroup (padding : Padding) (whole : String) (piece : List Char) :
    Except InvalidExpression (List Constraint) :=
  if piece.isEmpty then .error ⟨whole, .emptyGroup⟩
  else
    match Term.splitAll? piece with
    | none => .error ⟨String.ofList piece, .missingVersion⟩
    | some terms => terms.mapM (Term.toConstraint padding)

def parse (padding : Padding) (text : String) : Except InvalidExpression Expression :=
  if (Text.trim text.toList).isEmpty then .ok ⟨[[.any padding]], padding, text⟩
  else do
    let groups ← (pieces text.toList).mapM (parseGroup padding text)
    return ⟨groups, padding, text⟩

end Expression

end VersionRange
