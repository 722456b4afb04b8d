import VersionRange.Expression.Parser
import VersionRange.Version.Strict

/-! Stored forms.

A version and an expression are stored as the text that they were read from. The
padding policy is not part of it: a stored expression is read back with unwritten
parts that match everything.
-/

set_option autoImplicit false

namespace VersionRange

def Version.encode (version : Version) : String :=
  version.text

def Version.decode (stored : String) : Except InvalidVersion Version :=
  Version.parse stored

def Expression.encode (expression : Expression) : String :=
  expression.text

def Expression.decode (stored : String) : Except InvalidExpression Expression :=
  Expression.parse .wildcard stored

end VersionRange
