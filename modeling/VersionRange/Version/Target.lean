import VersionRange.Version.Layout

/-! Targets, the versions to the right of an operator.

A target may leave out its minor and patch, write a wildcard for any part,
start with the letter v and write numbers with leading zeros. Its padding policy
decides whether a patch that is left open also leaves the revision open.
-/

set_option autoImplicit false

namespace VersionRange

def Part.ofToken? (token : List Char) : Option Part :=
  if Text.isNumeral token then some (.value (Text.numeralValue token))
  else if token == ['*'] || token == ['x'] || token == ['X'] then some .wildcard
  else none

namespace Layout

def dropLetter : List Char → List Char
  | 'v' :: rest => rest
  | text => text

def readParts? (layout : Layout) : Option Release :=
  match (tokens (dropLetter layout.numbers)).mapM Part.ofToken? with
  | some [major] => some ⟨major, .absent, .absent⟩
  | some [major, minor] => some ⟨major, minor, .absent⟩
  | some [major, minor, patch] => some ⟨major, minor, patch⟩
  | _ => none

end Layout

def Version.parseTarget (padding : Padding) (text : String) : Except InvalidVersion Version :=
  let layout := Layout.ofText text.toList
  match layout.readParts?, layout.readSuffix? Layout.isToken, layout.readBuild? with
  | some release, some suffix, some build =>
    .ok ⟨⟨release, suffix.getD (release.impliedSuffix padding)⟩, build, text⟩
  | _, _, _ => .error ⟨text⟩

end VersionRange
