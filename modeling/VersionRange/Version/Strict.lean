import VersionRange.Version.Layout

/-! Concrete versions.

All three release numbers are written, numbers are canonical numerals in the
release and in the suffix, and nothing stands before or after the version.
-/

set_option autoImplicit false

namespace VersionRange

namespace Layout

def isStrictToken (token : List Char) : Bool :=
  isToken token && (Text.isCanonicalNumeral token || !token.all Char.isDigit)

def readNumbers? (layout : Layout) : Option Release :=
  match tokens layout.numbers with
  | [major, minor, patch] =>
    if [major, minor, patch].all Text.isCanonicalNumeral then
      some (.ofNumbers (Text.numeralValue major) (Text.numeralValue minor)
        (Text.numeralValue patch))
    else none
  | _ => none

def isStrict (layout : Layout) : Bool :=
  (tokens layout.numbers).length == 3 && (tokens layout.numbers).all Text.isCanonicalNumeral &&
    layout.suffix.all (fun piece => (tokens piece).all isStrictToken) &&
    layout.build.all (fun piece => (tokens piece).all isToken)

end Layout

namespace Version

def isValid (text : String) : Bool :=
  (Layout.ofText text.toList).isStrict

def parse (text : String) : Except InvalidVersion Version :=
  let layout := Layout.ofText text.toList
  match layout.readNumbers?, layout.readSuffix? Layout.isStrictToken, layout.readBuild? with
  | some release, some suffix, some build => .ok ⟨⟨release, suffix.getD .bare⟩, build, text⟩
  | _, _, _ => .error ⟨text⟩

end Version

end VersionRange
