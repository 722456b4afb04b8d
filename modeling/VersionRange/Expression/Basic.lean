import VersionRange.Constraint.Admission

/-! Constraint expressions.

An expression is a list of groups, any of which may hold; a group is a list of
constraints, all of which have to hold. An expression without groups restricts
nothing.
-/

set_option autoImplicit false

namespace VersionRange

structure Expression where
  groups : List (List Constraint)
  padding : Padding
  text : String
  deriving Repr, Inhabited

namespace Expression

/-- The expression that restricts nothing and that no text was read for. -/
def unrestricted : Expression :=
  ⟨[], .wildcard, ""⟩

def admits (expression : Expression) (version : Version) : Bool :=
  expression.groups.isEmpty ||
    expression.groups.any fun group => group.all fun constraint => constraint.admits version

def isUniversal (expression : Expression) : Bool :=
  expression.groups.isEmpty || expression.groups.any fun group => group.all Constraint.isUniversal

def renderGroup (group : List Constraint) : List Char :=
  [',', ' '].intercalate (group.map Constraint.render)

def render (expression : Expression) : List Char :=
  [' ', '|', '|', ' '].intercalate (expression.groups.map renderGroup)

end Expression

end VersionRange
