import VersionRange.Proofs.Expression.Padding

/-! Constraints against a version at hand.

A constraint that is built from an operator and a version answers as the one that
is read from the operator's symbol and the version's text. How the version came to
be read leaves no trace: its policy can only have dropped a revision that stands
behind an open patch, where the walk does not get.
-/

set_option autoImplicit false

namespace VersionRange

namespace Version

/-- The ways to come by a version: reading it, building it from numbers, and reading a target. -/
inductive IsObtained : Version → Prop where
  | read {text : String} {version : Version} (concrete : parse text = .ok version) :
      IsObtained version
  | built (major minor patch : Nat) : IsObtained (.ofNumbers major minor patch)
  | target {padding : Padding} {text : String} {version : Version}
      (partially : parseTarget padding text = .ok version) : IsObtained version

theorem isConcrete_ofNumbers (major minor patch : Nat) : (ofNumbers major minor patch).IsConcrete :=
  isConcrete_toVersion ⟨major, minor, patch, rfl⟩ rfl

theorem IsObtained.exists_parseTarget {version : Version} (obtained : version.IsObtained) :
    ∃ padding, parseTarget padding version.text = .ok version := by
  cases obtained with
  | read concrete =>
    obtain ⟨form, rfl⟩ := parse_eq_ok_iff.mp concrete
    exact ⟨.wildcard, parseTarget_of_parse concrete .wildcard⟩
  | built major minor patch =>
    have concrete := parse_eq_ok_iff.mpr ⟨isConcrete_ofNumbers major minor patch, rfl⟩
    exact ⟨.wildcard, parseTarget_of_parse concrete .wildcard⟩
  | @target padding text _ partially =>
    rw [text_of_parseTarget partially]
    exact ⟨padding, partially⟩

end Version

namespace Constraint

/-- Whether two constraints answer alike. The suffixes of their targets may differ. -/
structure Alike (first second : Constraint) : Prop where
  operator : first.operator = second.operator
  padding : first.padding = second.padding
  render : first.render = second.render
  text : first.text = second.text
  lower : first.lower? = second.lower?
  upper : first.upper? = second.upper?
  isUniversal : first.isUniversal = second.isUniversal
  admits : ∀ version, first.admits version = second.admits version

variable {first second : Constraint}

theorem OpensTo.lower?_eq (opens : first.OpensTo second) (policy : first.padding = .wildcard) :
    first.lower? = second.lower? := by
  unfold lower?
  simp only [← opens.operator, opens.isConcrete_eq policy, opens.floorBound_eq]

theorem OpensTo.upper?_eq (opens : first.OpensTo second) (policy : first.padding = .wildcard) :
    first.upper? = second.upper? := by
  unfold upper?
  simp only [← opens.operator, opens.isConcrete_eq policy, opens.floorBound_eq, opens.ceiling?_eq]

theorem OpensTo.admits_eq (opens : first.OpensTo second) (policy : first.padding = .wildcard)
    (version : Version) : first.admits version = second.admits version := by
  have walk : second.locate version = first.locate version := by
    rw [opens.locate_eq, locate_eq_orElse, policy]
  unfold admits
  simp only [← opens.operator, walk, opens.compareFloor_eq, isBelowCeiling, opens.ceiling?_eq]

theorem OpensTo.alike (opens : first.OpensTo second) (policy : first.padding = .wildcard) :
    first.Alike second where
  operator := opens.operator
  padding := policy.trans opens.policy.symm
  render := by rw [render, render, opens.operator, opens.version.text]
  text := opens.text
  lower := opens.lower?_eq policy
  upper := opens.upper?_eq policy
  isUniversal := by
    rw [isUniversal, isUniversal, target, target, opens.operator, opens.version.release, policy,
      opens.policy]
  admits := opens.admits_eq policy

theorem opensTo_ofVersion (operator : Operator) {version again : Version}
    (shared : version.SharesText again) :
    (ofVersion operator version).OpensTo (ofVersion operator again) where
  operator := rfl
  version := shared
  text := by rw [ofVersion, ofVersion, shared.text]
  policy := rfl

end Constraint

namespace Expression

/-- An operator's symbol in front of the text of a version, however that was obtained, is read as
a constraint that answers as the one built from the two. Under which policy the version was read
does not show. -/
theorem parse_agrees_with_ofVersion (operator : Operator) :
    (∀ version : Version, version.IsObtained →
      ∃ constraint, parse .wildcard (operator.symbol ++ version.text) =
          .ok ⟨[[constraint]], .wildcard, operator.symbol ++ version.text⟩ ∧
        constraint.Alike (.ofVersion operator version)) ∧
    ∀ (text : String) (padded opened : Version), Version.parseTarget .zero text = .ok padded →
      Version.parseTarget .wildcard text = .ok opened →
      (Constraint.ofVersion operator padded).Alike (.ofVersion operator opened) := by
  constructor
  · intro version obtained
    obtain ⟨padding, read⟩ := obtained.exists_parseTarget
    obtain ⟨again, reread, shared⟩ := Version.exists_parseTarget read .wildcard
    refine ⟨_, parse_single (Operator.parse_symbol operator) reread, ?_⟩
    exact Constraint.OpensTo.alike ⟨rfl, shared.symm, rfl, rfl⟩ rfl
  · intro text padded opened read reread
    have shared := Version.sharesText_of_parseTarget read reread
    exact (Constraint.opensTo_ofVersion operator shared).alike rfl

/-- A padded target, which has no revision, as if it were read without padding. -/
theorem parse_agrees_with_ofVersion_padded :
    let padded : Version := ⟨⟨⟨.value 1, .value 2, .absent⟩, .bare⟩, none, "1.2"⟩
    let opened : Version := ⟨⟨⟨.value 1, .value 2, .absent⟩, .anyRevision⟩, none, "1.2"⟩
    padded.IsObtained ∧ Version.parseTarget .zero "1.2" = .ok padded ∧
      Version.parseTarget .wildcard "1.2" = .ok opened ∧
      (∃ constraint, parse .wildcard ">1.2" = .ok ⟨[[constraint]], .wildcard, ">1.2"⟩ ∧
        constraint.Alike (.ofVersion .greaterThan padded)) ∧
      (Constraint.ofVersion .greaterThan padded).Alike (.ofVersion .greaterThan opened) := by
  intro padded opened
  have read : Version.parseTarget .zero "1.2" = .ok padded := by rfl
  have reread : Version.parseTarget .wildcard "1.2" = .ok opened := by rfl
  obtain ⟨built, policies⟩ := parse_agrees_with_ofVersion .greaterThan
  exact ⟨.target read, read, reread, built padded (.target read), policies _ _ _ read reread⟩

end Expression

end VersionRange
