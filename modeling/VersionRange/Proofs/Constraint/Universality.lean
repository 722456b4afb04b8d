import VersionRange.Proofs.Constraint.Bounds

/-! Constraints that admit every version.

A constraint that restricts something shuts out a concrete version: its own floor, a
version below the floor or one behind all that its target stands for. There always is
one below, since no pre-release is the lowest of a release. Without a number for the
first part nothing lies behind a target, so at-most restricts no more than equality.
-/

set_option autoImplicit false

namespace VersionRange

theorem Identifier.compare_zeros_eq_lt {identifiers : List Identifier}
    (text : identifiers.any isAlphanumeric) :
    compare (List.replicate identifiers.length (numeric 0) ++ [alphanumeric "-"]) identifiers = .lt := by
  induction identifiers with
  | nil => contradiction
  | cons identifier identifiers ih =>
    rw [List.length_cons, List.replicate_succ, List.cons_append, List.compare_cons_cons]
    cases identifier with
    | alphanumeric text => rfl
    | numeric n =>
      have rest := ih text
      change (compare 0 n).then _ = .lt
      rcases Nat.eq_zero_or_pos n with rfl | positive
      · exact rest
      · rw [Nat.compare_eq_lt.mpr positive]
        rfl

namespace Suffix

theorem exists_lower {suffix : Suffix} (concrete : suffix.isConcrete) :
    ∃ lower, lower.isConcrete ∧ compare lower suffix = .lt := by
  cases suffix with
  | preRelease identifiers =>
    simp only [isConcrete, Bool.and_eq_true] at concrete
    -- the first text is above the zero in its place; the hyphen keeps the zeros from being a revision
    refine ⟨.preRelease (List.replicate identifiers.length (.numeric 0) ++ [.alphanumeric "-"]), ?_, ?_⟩
    · have numbers : ∀ n, (Identifier.numeric n).isWritten := fun _ => rfl
      have text : (Identifier.alphanumeric "-").isWritten := by decide
      simp [isConcrete, numbers, text, Identifier.isAlphanumeric]
    · exact Identifier.compare_zeros_eq_lt concrete.2
  | bare | revision _ => exact ⟨.preRelease [.alphanumeric "-"], by decide, rfl⟩
  | anyRevision => contradiction

end Suffix

namespace Constraint

variable {constraint : Constraint}

theorem locate_of_wildcard (unwritten : constraint.target.release.major = .wildcard)
    (version : Version) : constraint.locate version = .within := by
  rw [locate, Precedence.locate, Release.parts, Release.parts, unwritten]
  rfl

theorem locate_nextMajor {major : Nat} (written : constraint.target.release.major = .value major) :
    constraint.locate (.ofNumbers (major + 1) 0 0) = .greater := by
  have above : compare (Part.value (major + 1)) (.value major) = .gt :=
    Nat.compare_eq_gt.mpr (Nat.lt_succ_self major)
  have walk : Part.locateAll (Release.ofNumbers (major + 1) 0 0).parts
      constraint.target.release.parts = .greater := by
    rw [Release.parts, Release.parts, written, Part.locateAll]
    simp only [Release.ofNumbers, above]
    rfl
  rw [locate, Precedence.locate]
  exact congrArg (Position.orElse · _) walk

theorem isMatch_floor (constraint : Constraint) :
    (constraint.locate constraint.floor.toVersion).isMatch := by
  have follows := constraint.locate_follows constraint.floor.toVersion
  rw [compareFloor_floor] at follows
  rcases follows with within | equal
  · rw [within]
    rfl
  · rw [equal]
    rfl

theorem exists_below_floor (concrete : constraint.floor.toVersion.IsConcrete) :
    ∃ version : Version, version.IsConcrete ∧ constraint.compareFloor version = .lt := by
  obtain ⟨lower, form, below⟩ := Suffix.exists_lower concrete.suffix
  refine ⟨Precedence.toVersion ⟨constraint.floor.release, lower⟩,
    Version.isConcrete_toVersion concrete.release form, ?_⟩
  change (compare constraint.floor.release constraint.floor.release).then
    (compare lower constraint.floor.suffix) = .lt
  rw [Std.ReflOrd.compare_self]
  exact below

theorem admits_of_isUniversal (universal : constraint.isUniversal) (version : Version) :
    constraint.admits version := by
  rw [isUniversal, Bool.and_eq_true, Part.isWildcard_iff] at universal
  obtain ⟨equality, unwritten⟩ := universal
  have within := locate_of_wildcard unwritten version
  cases operator : constraint.operator with
  | implicit | equal =>
    simp only [admits, operator, within]
    rfl
  | _ =>
    rw [operator] at equality
    contradiction

theorem admits_of_atMost (operator : constraint.operator = .lessThanOrEqual)
    (unwritten : constraint.target.release.major = .wildcard) (version : Version) :
    constraint.admits version := by
  simp only [admits, operator, locate_of_wildcard unwritten version]
  rfl

theorem exists_behind (written : constraint.target.release.major ≠ .wildcard) :
    ∃ version : Version, version.IsConcrete ∧ constraint.locate version = .greater := by
  have resolved := constraint.target_written constraint.target.release.major (by simp [Release.parts])
  cases major : constraint.target.release.major with
  | absent => exact absurd major resolved
  | wildcard => exact absurd major written
  | value n =>
    refine ⟨.ofNumbers (n + 1) 0 0, ?_, locate_nextMajor major⟩
    exact Version.isConcrete_toVersion ⟨n + 1, 0, 0, rfl⟩ rfl

theorem exists_not_admits (concrete : constraint.floor.toVersion.IsConcrete)
    (restricted : constraint.isUniversal = false)
    (written : constraint.operator = .lessThanOrEqual →
      constraint.target.release.major ≠ .wildcard) :
    ∃ version : Version, version.IsConcrete ∧ constraint.admits version = false := by
  -- each operator shuts out the floor, a version below it, or one behind all that matches
  have matched := constraint.isMatch_floor
  obtain ⟨lower, lowerForm, below⟩ := exists_below_floor concrete
  rw [isUniversal] at restricted
  cases operator : constraint.operator with
  | implicit | equal =>
    have number : constraint.target.release.major ≠ .wildcard := by
      intro unwritten
      rw [operator, unwritten] at restricted
      contradiction
    obtain ⟨version, form, greater⟩ := exists_behind number
    exact ⟨version, form, by simp only [admits, operator, greater]; rfl⟩
  | lessThanOrEqual =>
    obtain ⟨version, form, greater⟩ := exists_behind (written operator)
    exact ⟨version, form, by simp only [admits, operator, greater]; rfl⟩
  | notEqual => exact ⟨_, concrete, by simp only [admits, operator, matched]; rfl⟩
  | greaterThan =>
    have other : constraint.locate constraint.floor.toVersion ≠ .greater := by
      intro greater
      rw [greater] at matched
      contradiction
    exact ⟨_, concrete, by simp only [admits, operator, beq_eq_false_iff_ne.mpr other]⟩
  | lessThan => exact ⟨_, concrete, by simp only [admits, operator, compareFloor_floor]; rfl⟩
  | greaterThanOrEqual => exact ⟨lower, lowerForm, by simp only [admits, operator, below]; rfl⟩
  | tilde | caret => exact ⟨lower, lowerForm, by simp only [admits, operator, below]; rfl⟩

end Constraint

end VersionRange
