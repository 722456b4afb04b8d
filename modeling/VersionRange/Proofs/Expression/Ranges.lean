import VersionRange.Proofs.Constraint.Bounds
import VersionRange.Proofs.Expression.Reading

/-! What tilde and caret keep.

A range ends below a ceiling that raises one part of the target and drops the less
significant ones. Numbers that have reached the floor lie below it exactly when they
agree with the target up to the raised part. So a range admits what has reached its
floor and keeps those parts, pre-releases and revisions included.
-/

set_option autoImplicit false

namespace VersionRange

namespace Release

section

variable {x y z a b c : Nat} (reached : compare (ofNumbers x y z) (ofNumbers a b c) ≠ .lt)
include reached

theorem lt_nextMajor_iff : compare (ofNumbers x y z) (ofNumbers (a + 1) 0 0) = .lt ↔ x = a := by
  rw [Ne, compare_ofNumbers_eq_lt] at reached
  rw [compare_ofNumbers_eq_lt]
  omega

theorem lt_nextMinor_iff :
    compare (ofNumbers x y z) (ofNumbers a (b + 1) 0) = .lt ↔ x = a ∧ y = b := by
  rw [Ne, compare_ofNumbers_eq_lt] at reached
  rw [compare_ofNumbers_eq_lt]
  omega

theorem lt_nextPatch_iff :
    compare (ofNumbers x y z) (ofNumbers a b (c + 1)) = .lt ↔ x = a ∧ y = b ∧ z = c := by
  rw [Ne, compare_ofNumbers_eq_lt] at reached
  rw [compare_ofNumbers_eq_lt]
  omega

end

variable {release target ceiling : Release} {a : Nat}

theorem lt_tildeCeiling_iff (numbers : ∃ x y z, release = ofNumbers x y z)
    (major : target.major = .value a) (found : target.tildeCeiling? = some ceiling)
    (reached : compare release target.floor ≠ .lt) :
    compare release ceiling = .lt ↔
      release.major = .value a ∧ ∀ b, target.minor = .value b → release.minor = .value b := by
  obtain ⟨x, y, z, rfl⟩ := numbers
  rw [floor, major] at reached
  unfold tildeCeiling? at found
  rw [major] at found
  cases minor : target.minor with
  | value b =>
    rw [minor] at found reached
    cases found
    rw [Part.floor, Part.floor] at reached
    rw [lt_nextMinor_iff reached]
    simp [ofNumbers]
  | absent | wildcard =>
    rw [minor] at found
    cases found
    rw [Part.floor] at reached
    rw [lt_nextMajor_iff reached]
    simp [ofNumbers]

theorem lt_caretCeiling_iff (numbers : ∃ x y z, release = ofNumbers x y z)
    (major : target.major = .value a) (found : target.caretCeiling? = some ceiling)
    (reached : compare release target.floor ≠ .lt) :
    compare release ceiling = .lt ↔
      release.major = .value a ∧ (a = 0 → ∀ b, target.minor = .value b →
        release.minor = .value b ∧ (b = 0 → ∀ c, target.patch = .value c →
          release.patch = .value c)) := by
  obtain ⟨x, y, z, rfl⟩ := numbers
  rw [floor, major] at reached
  unfold caretCeiling? at found
  rw [major] at found
  -- the patch is raised behind two zeros, the minor behind one, and otherwise the major
  split at found
  · next c zero minor patch =>
    cases zero
    cases found
    rw [minor, patch] at reached
    simp only [Part.floor] at reached
    rw [lt_nextPatch_iff reached]
    simp [ofNumbers, minor, patch]
  · next b zero minor unpatched =>
    cases zero
    cases found
    rw [minor] at reached
    simp only [Part.floor] at reached
    rw [lt_nextMinor_iff reached]
    have unwritten (none : b = 0) (c : Nat) : target.patch ≠ .value c := by
      intro patch
      exact unpatched c patch none
    simp +contextual [ofNumbers, minor, unwritten]
  · next m same unraised _ =>
    cases same
    cases found
    rw [Part.floor] at reached
    rw [lt_nextMajor_iff reached]
    have kept (zero : a = 0) (b : Nat) : target.minor ≠ .value b := by
      intro minor
      exact unraised b minor zero
    simp +contextual [ofNumbers, kept]
  · contradiction

theorem tildeCeiling?_of_wildcard (major : target.major = .wildcard) :
    target.tildeCeiling? = none := by
  rw [tildeCeiling?, major]

theorem caretCeiling?_of_wildcard (major : target.major = .wildcard) :
    target.caretCeiling? = none := by
  rw [caretCeiling?, major]

theorem exists_tildeCeiling (major : target.major = .value a) :
    ∃ ceiling, target.tildeCeiling? = some ceiling := by
  unfold tildeCeiling?
  rw [major]
  split <;> simp_all

theorem exists_caretCeiling (major : target.major = .value a) :
    ∃ ceiling, target.caretCeiling? = some ceiling := by
  unfold caretCeiling?
  rw [major]
  split <;> simp_all

end Release

namespace Version

/-- The target with a zero for each part that is no number. Its suffix is kept, unless it stands for
every revision; then there is none. -/
def zeroed (target : Version) : Version where
  release := .ofNumbers (target.release.major.value?.getD 0) (target.release.minor.value?.getD 0)
    (target.release.patch.value?.getD 0)
  suffix :=
    match target.suffix with
    | .preRelease identifiers => .preRelease identifiers
    | .bare | .anyRevision => .bare
    | .revision numbers => .revision numbers
  build := none
  text := target.text

theorem toPrecedence_zeroed (target : Version) :
    target.zeroed.toPrecedence = target.toPrecedence.floor := by
  have number (part : Part) : part.value?.getD 0 = part.floor := by cases part <;> rfl
  have kept : target.zeroed.suffix = target.suffix.floor := by
    unfold zeroed
    cases target.suffix <;> rfl
  rw [Precedence.floor, ← kept, Release.floor, ← number, ← number, ← number]
  rfl

theorem release_reached {version target : Version} (reached : (compare version target.zeroed).isGE) :
    compare version.release target.release.floor ≠ .lt := by
  have floor : target.zeroed.release = target.release.floor :=
    congrArg Precedence.release (toPrecedence_zeroed target)
  intro below
  change (compare version.toPrecedence target.zeroed.toPrecedence).isGE at reached
  rw [Precedence.compare_eq_then, floor, below] at reached
  contradiction

end Version

namespace Constraint

theorem compareFloor_eq (constraint : Constraint) (version : Version) :
    constraint.compareFloor version = compare version constraint.version.zeroed := by
  have floor : constraint.floor = constraint.version.zeroed.toPrecedence := by
    change Precedence.mk constraint.floor.release constraint.version.suffix.floor = _
    rw [release_floor, Version.toPrecedence_zeroed, Precedence.floor]
  rw [compareFloor, floor]
  rfl

theorem admits_endless {constraint : Constraint} (range : constraint.IsRange)
    (endless : constraint.ceiling? = none) (version : Version) :
    constraint.admits version ↔ (compare version constraint.version.zeroed).isGE := by
  rw [admits_range range, isBelowCeiling, endless, Bool.and_true, compareFloor_eq]

theorem admits_ending {constraint : Constraint} {ceiling : Release} {version : Version}
    {kept : Prop} (range : constraint.IsRange) (ending : constraint.ceiling? = some ceiling)
    (keeps : compare version.release constraint.version.release.floor ≠ .lt →
      (compare version.release ceiling = .lt ↔ kept)) :
    constraint.admits version ↔ (compare version constraint.version.zeroed).isGE ∧ kept := by
  rw [admits_range range, isBelowCeiling, ending, Bool.and_eq_true, compareFloor_eq,
    Ordering.isLT_iff_eq_lt]
  apply and_congr_right
  intro reached
  exact keeps (Version.release_reached reached)

end Constraint

namespace Expression

/-- A tilde or caret in front of a target admits what has reached the floor and keeps the target's
major; tilde keeps a minor that is a number too, and caret keeps one behind a zero, and with two
zeros in front of it a patch. A target that leaves its major open has nothing to keep. -/
theorem ranges_keep_front {padding : Padding} {text candidate : String} {target version : Version}
    (read : Version.parseTarget padding text = .ok target)
    (concrete : Version.parse candidate = .ok version) :
    let tilde := Constraint.ofTarget .tilde padding target
    let caret := Constraint.ofTarget .caret padding target
    let reached := (compare version target.zeroed).isGE
    parse padding ("~" ++ text) = .ok ⟨[[tilde]], padding, "~" ++ text⟩ ∧
      parse padding ("^" ++ text) = .ok ⟨[[caret]], padding, "^" ++ text⟩ ∧
      (target.release.major = .wildcard ∧
          (tilde.admits version ↔ reached) ∧ (caret.admits version ↔ reached) ∨
        ∃ a, target.release.major = .value a ∧
          (tilde.admits version ↔ reached ∧ version.release.major = .value a ∧
            ∀ b, target.release.minor = .value b → version.release.minor = .value b) ∧
          (caret.admits version ↔ reached ∧ version.release.major = .value a ∧
            (a = 0 → ∀ b, target.release.minor = .value b → version.release.minor = .value b ∧
              (b = 0 → ∀ c, target.release.patch = .value c →
                version.release.patch = .value c)))) := by
  intro tilde caret reached
  have written : target.text = text := Version.text_of_parseTarget read
  have tildeRange : tilde.IsRange := .inl rfl
  have caretRange : caret.IsRange := .inr rfl
  refine ⟨?_, ?_, ?_⟩
  · have spelled : Operator.parse "~" = .ok .tilde := rfl
    have parsed := parse_single spelled read
    rwa [← written] at parsed ⊢
  · have spelled : Operator.parse "^" = .ok .caret := rfl
    have parsed := parse_single spelled read
    rwa [← written] at parsed ⊢
  · have numbers := (Version.parse_eq_ok_iff.mp concrete).1.release
    cases major : target.release.major with
    | absent => exact absurd major (Version.major_ne_absent_of_parseTarget read)
    | wildcard =>
      left
      refine ⟨rfl, ?_, ?_⟩
      · exact Constraint.admits_endless tildeRange (Release.tildeCeiling?_of_wildcard major) version
      · exact Constraint.admits_endless caretRange (Release.caretCeiling?_of_wildcard major) version
    | value a =>
      right
      refine ⟨a, rfl, ?_, ?_⟩
      · obtain ⟨ceiling, found⟩ := Release.exists_tildeCeiling major
        exact Constraint.admits_ending tildeRange found
          (Release.lt_tildeCeiling_iff numbers major found)
      · obtain ⟨ceiling, found⟩ := Release.exists_caretCeiling major
        exact Constraint.admits_ending caretRange found
          (Release.lt_caretCeiling_iff numbers major found)

/-- A target that leaves its patch and its revision open, with the least version that it stands for;
and a target with a pre-release, with a later one of its own patch and one of the next. -/
theorem ranges_keep_front_open :
    let range : Version := ⟨⟨⟨.value 1, .value 2, .absent⟩, .anyRevision⟩, none, "1.2"⟩
    let least : Version := ⟨⟨.ofNumbers 1 2 0, .bare⟩, none, "1.2.0"⟩
    let patch : Version := ⟨⟨.ofNumbers 0 0 3, .preRelease [.alphanumeric "rc"]⟩, none, "v0.0.03-rc"⟩
    let later : Version := ⟨⟨.ofNumbers 0 0 3, .preRelease [.alphanumeric "rd"]⟩, none, "0.0.3-rd"⟩
    let next : Version := ⟨⟨.ofNumbers 0 0 4, .preRelease [.alphanumeric "a"]⟩, none, "0.0.4-a"⟩
    Version.parseTarget .wildcard "1.2" = .ok range ∧ Version.parse "1.2.0" = .ok least ∧
      (Constraint.ofTarget .tilde .wildcard range).admits least ∧
      (Constraint.ofTarget .caret .wildcard range).admits least ∧
      Version.parseTarget .zero "v0.0.03-rc" = .ok patch ∧
      Version.parse "0.0.3-rd" = .ok later ∧ Version.parse "0.0.4-a" = .ok next ∧
      (Constraint.ofTarget .tilde .zero patch).admits later ∧
      (Constraint.ofTarget .caret .zero patch).admits later ∧
      (Constraint.ofTarget .tilde .zero patch).admits next ∧
      ¬(Constraint.ofTarget .caret .zero patch).admits next := by
  intro range least patch later next
  have rangeRead : Version.parseTarget .wildcard "1.2" = .ok range := by rfl
  have leastRead : Version.parse "1.2.0" = .ok least := by rfl
  have patchRead : Version.parseTarget .zero "v0.0.03-rc" = .ok patch := by rfl
  have laterRead : Version.parse "0.0.3-rd" = .ok later := by rfl
  have nextRead : Version.parse "0.0.4-a" = .ok next := by rfl
  have leastKept : (Constraint.ofTarget .tilde .wildcard range).admits least := by decide
  have laterKept : (Constraint.ofTarget .caret .zero patch).admits later := by decide
  have nextKept : (Constraint.ofTarget .tilde .zero patch).admits next := by decide
  obtain ⟨_, _, ⟨opened, _⟩ | ⟨_, major, tilde, caret⟩⟩ := ranges_keep_front rangeRead leastRead
  · contradiction
  obtain ⟨_, _, ⟨opened, _⟩ | ⟨_, same, tildeLater, caretLater⟩⟩ :=
    ranges_keep_front patchRead laterRead
  · contradiction
  obtain ⟨_, _, ⟨opened, _⟩ | ⟨_, again, _, caretNext⟩⟩ := ranges_keep_front patchRead nextRead
  · contradiction
  cases major
  cases same
  cases again
  refine ⟨rangeRead, leastRead, leastKept, caret.mpr ⟨(tilde.mp leastKept).1, rfl, ?_⟩, patchRead,
    laterRead, nextRead, tildeLater.mpr ⟨(caretLater.mp laterKept).1, rfl, ?_⟩, laterKept, nextKept, ?_⟩
  · intro zero
    contradiction
  · intro b minor
    cases minor
    rfl
  · intro kept
    -- behind two zeros the patch would have to be kept
    have patch := ((caretNext.mp kept).2.2 rfl 0 rfl).2 rfl 3 rfl
    contradiction

end Expression

end VersionRange
