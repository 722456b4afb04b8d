import VersionRange.Proofs.Version.Target

/-! Targets under both padding policies.

The policy has no part in whether a text is read. It shows in the suffix alone,
where none is written and the patch is left open: then the target stands for
every revision or for the bare release. The floor is the bare release either way.
-/

set_option autoImplicit false

namespace VersionRange

namespace Release

theorem floor_impliedSuffix (padding : Padding) (release : Release) :
    (release.impliedSuffix padding).floor = .bare := by
  unfold impliedSuffix
  split <;> rfl

theorem impliedSuffix_of_isValue {release : Release} (written : release.patch.isValue)
    (padding : Padding) : release.impliedSuffix padding = .bare := by
  unfold impliedSuffix
  split
  · next patch => simp [patch, Part.isValue] at written
  · next patch => simp [patch, Part.isValue] at written
  · rfl

end Release

namespace Version

/-- Whether two targets can come from one text: they differ at most in a suffix that is not written
and stands behind a patch that is left open. -/
structure SharesText (first second : Version) : Prop where
  release : first.release = second.release
  build : first.build = second.build
  text : first.text = second.text
  floor : first.suffix.floor = second.suffix.floor
  suffix : first.release.patch.isValue → first.suffix = second.suffix

theorem SharesText.symm {first second : Version} (shared : first.SharesText second) :
    second.SharesText first where
  release := shared.release.symm
  build := shared.build.symm
  text := shared.text.symm
  floor := shared.floor.symm
  suffix := by
    intro written
    rw [← shared.release] at written
    exact (shared.suffix written).symm

theorem exists_parseTarget {padding : Padding} {text : String} {version : Version}
    (read : parseTarget padding text = .ok version) (other : Padding) :
    ∃ again, parseTarget other text = .ok again ∧ version.SharesText again := by
  obtain ⟨release, suffix, build, parts, tokens, metadata, rfl⟩ := parseTarget_eq_ok_iff.mp read
  refine ⟨_, parseTarget_eq_ok_iff.mpr
    ⟨release, suffix, build, parts, tokens, metadata, rfl⟩, rfl, rfl, rfl, ?_, ?_⟩
  · cases suffix with
    | none => exact (release.floor_impliedSuffix padding).trans (release.floor_impliedSuffix other).symm
    | some suffix => rfl
  · intro written
    cases suffix with
    | none =>
      exact (Release.impliedSuffix_of_isValue written padding).trans
        (Release.impliedSuffix_of_isValue written other).symm
    | some suffix => rfl

theorem sharesText_of_parseTarget {padding other : Padding} {text : String} {version again : Version}
    (read : parseTarget padding text = .ok version) (reread : parseTarget other text = .ok again) :
    version.SharesText again := by
  obtain ⟨found, same, shared⟩ := exists_parseTarget read other
  rw [reread] at same
  cases same
  exact shared

end Version

end VersionRange
