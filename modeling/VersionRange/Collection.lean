import VersionRange.Version.Strict

/-! Collections of versions.

Equal versions may differ in their build metadata and in their texts, so sorting
is stable in both directions and keeps such versions in the order they had.
-/

set_option autoImplicit false

namespace VersionRange

structure Collection where
  versions : List Version
  deriving Repr, Inhabited

namespace Collection

instance : BEq Collection where
  beq a b := a.versions == b.versions

/-- Read every text as a concrete version. The first one that is none ends the reading. -/
def parse (texts : List String) : Except InvalidVersion Collection := do
  return ⟨← texts.mapM Version.parse⟩

def sort (collection : Collection) : Collection :=
  ⟨collection.versions.mergeSort fun a b => (compare a b).isLE⟩

/-- Sort in descending order; equal versions keep their order here too. -/
def sortDescending (collection : Collection) : Collection :=
  ⟨collection.versions.mergeSort fun a b => (compare b a).isLE⟩

def reverse (collection : Collection) : Collection :=
  ⟨collection.versions.reverse⟩

end Collection

end VersionRange
