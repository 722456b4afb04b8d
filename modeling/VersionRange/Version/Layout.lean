import VersionRange.Text.Cut
import VersionRange.Version.Basic

/-! The pieces of a version text.

Concrete versions and targets share one layout: release numbers, a suffix after
the first hyphen, build metadata after the first plus sign. Neither mark can
occur before its piece starts, so the text is cut before any piece is read.
-/

set_option autoImplicit false

namespace VersionRange

structure InvalidVersion where
  text : String
  deriving DecidableEq, Repr

/-- The text is quoted as it is, without escapes. -/
def InvalidVersion.message (error : InvalidVersion) : String :=
  "Invalid version string \"" ++ error.text ++ "\""

structure Layout where
  numbers : List Char
  suffix : Option (List Char)
  build : Option (List Char)
  deriving DecidableEq, Repr

namespace Layout

/-- The plus sign is looked for first, since build metadata may hold hyphens. -/
def ofText (text : List Char) : Layout :=
  let (front, build) := Text.cut '+' text
  let (numbers, suffix) := Text.cut '-' front
  ⟨numbers, suffix, build⟩

def tokens (piece : List Char) : List (List Char) :=
  piece.splitOn '.'

def isTokenChar (c : Char) : Bool :=
  c.isAlphanum || c == '-'

def isToken (token : List Char) : Bool :=
  !token.isEmpty && token.all isTokenChar

def readSuffix? (condition : List Char → Bool) (layout : Layout) : Option (Option Suffix) :=
  match layout.suffix with
  | none => some none
  | some piece =>
    if (tokens piece).all condition then some (some (.ofTokens (tokens piece))) else none

def readBuild? (layout : Layout) : Option (Option String) :=
  match layout.build with
  | none => some none
  | some piece => if (tokens piece).all isToken then some (some (String.ofList piece)) else none

end Layout

end VersionRange
