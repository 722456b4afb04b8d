import VersionRange.Proofs.Constraint.Position
import VersionRange.Proofs.Version.Precedence

/-! What stands in front of a wildcard.

The walk ends at the target's first wildcard, unless it has ended in front of it. So
whatever matches by position asks for the parts in front of that wildcard alone, and
sees neither what the target writes behind it nor how the version goes on.
-/

set_option autoImplicit false

namespace VersionRange

namespace Part

variable {parts front targets : List Part} {k : Nat}

theorem locateAll_eq_compare (same : parts.length = front.length)
    (closed : front.any isWildcard = false) :
    locateAll parts front = .ofOrdering (compare parts front) := by
  induction front generalizing parts with
  | nil =>
    rw [List.length_nil, List.length_eq_zero_iff] at same
    subst same
    rfl
  | cons target front ih =>
    match parts, same with
    | part :: parts, same =>
      simp only [List.any_cons, Bool.or_eq_false_iff] at closed
      rw [locateAll, if_neg (by simp [closed.1]), ih (by simpa using same) closed.2,
        List.compare_cons_cons]
      cases compare part target <;> rfl

theorem locateAll_wildcard (parts : List Part) (more : front.length < parts.length)
    (closed : front.any isWildcard = false) (rest : List Part) :
    locateAll parts (front ++ .wildcard :: rest) =
      (Position.ofOrdering (compare (parts.take front.length) front)).orElse fun _ => .within := by
  have same : (parts.take front.length).length = front.length := by
    rw [List.length_take]
    omega
  rw [locateAll_append, locateAll_eq_compare same closed]
  cases left : parts.drop front.length with
  | nil =>
    rw [List.drop_eq_nil_iff] at left
    omega
  | cons part parts => rfl

theorem split_of_findIdx? (first : targets.findIdx? isWildcard = some k) :
    k < targets.length ∧ (targets.take k).any isWildcard = false ∧
      ∃ rest, targets = targets.take k ++ .wildcard :: rest := by
  obtain ⟨inside, wild, before⟩ := List.findIdx?_eq_some_iff_getElem.mp first
  refine ⟨inside, ?_, targets.drop (k + 1), ?_⟩
  · rw [List.any_eq_false]
    intro part member
    obtain ⟨i, short, rfl⟩ := List.mem_take_iff_getElem.mp member
    exact before i (by omega)
  · have found : targets[k] = .wildcard := isWildcard_iff.mp wild
    rw [← found, ← List.drop_eq_getElem_cons inside, List.take_append_drop]

end Part

namespace Constraint

section

variable {constraint : Constraint} {k : Nat}
  (first : constraint.target.release.parts.findIdx? Part.isWildcard = some k) (version : Version)
include first

theorem locate_of_findIdx? : constraint.locate version =
    (Position.ofOrdering (compare (version.release.parts.take k)
      (constraint.target.release.parts.take k))).orElse fun _ => .within := by
  obtain ⟨inside, closed, rest, split⟩ := Part.split_of_findIdx? first
  have short : (constraint.target.release.parts.take k).length = k := by
    rw [List.length_take]
    omega
  have more : (constraint.target.release.parts.take k).length < version.release.parts.length := by
    rw [short]
    exact inside
  have walk := Part.locateAll_wildcard version.release.parts more closed rest
  rw [← split, short] at walk
  rw [locate, Precedence.locate, walk]
  -- the walk has ended by here, so the suffix is not looked at
  cases compare (version.release.parts.take k) (constraint.target.release.parts.take k) <;> rfl

theorem isMatch_iff : (constraint.locate version).isMatch ↔
    version.release.parts.take k = constraint.target.release.parts.take k := by
  have same : compare (version.release.parts.take k) (constraint.target.release.parts.take k) = .eq ↔
      version.release.parts.take k = constraint.target.release.parts.take k :=
    Std.LawfulEqOrd.compare_eq_iff_eq
  rw [locate_of_findIdx? first, ← same]
  generalize compare (version.release.parts.take k) (constraint.target.release.parts.take k) = order
  cases order <;> decide

theorem eq_greater_iff : constraint.locate version = .greater ↔
    List.Lex (fun a b : Part => compare a b = .lt) (constraint.target.release.parts.take k)
      (version.release.parts.take k) := by
  rw [locate_of_findIdx? first, ← compare_eq_lt_iff_lex fun _ _ => Iff.rfl,
    ← Std.OrientedCmp.gt_iff_lt]
  generalize compare (version.release.parts.take k) (constraint.target.release.parts.take k) = order
  cases order <;> decide

end

/-- On a target with a wildcard the operators that match by position compare the parts in front of
the first wildcard. So they answer alike on versions, and for targets, that agree up to there. -/
theorem wildcard_matches_front {constraint : Constraint} {k : Nat}
    (first : constraint.target.release.parts.findIdx? Part.isWildcard = some k) :
    (∀ version : Version,
      let front := version.release.parts.take k
      let wanted := constraint.target.release.parts.take k
      let above := List.Lex (fun a b : Part => compare a b = .lt) wanted front
      (constraint.operator ∈ [.implicit, .equal] → (constraint.admits version ↔ front = wanted)) ∧
      (constraint.operator = .notEqual → (constraint.admits version ↔ front ≠ wanted)) ∧
      (constraint.operator = .greaterThan → (constraint.admits version ↔ above)) ∧
      (constraint.operator = .lessThanOrEqual → (constraint.admits version ↔ ¬above))) ∧
    ∀ other : Constraint, other.operator = constraint.operator →
      constraint.operator ∈ [.implicit, .equal, .notEqual, .greaterThan, .lessThanOrEqual] →
      other.target.release.parts.findIdx? Part.isWildcard = some k →
      other.target.release.parts.take k = constraint.target.release.parts.take k →
      ∀ version again : Version, version.release.parts.take k = again.release.parts.take k →
        constraint.admits version = other.admits again := by
  constructor
  · intro version front wanted above
    have matched := isMatch_iff first version
    have greater := eq_greater_iff first version
    refine ⟨?_, ?_, ?_, ?_⟩
    · intro operator
      simp only [List.mem_cons, List.not_mem_nil, or_false] at operator
      rcases operator with operator | operator <;> simpa only [admits, operator] using matched
    · intro operator
      simp only [admits, operator, Bool.not_eq_true', Bool.eq_false_iff]
      exact not_congr matched
    · intro operator
      simpa only [admits, operator, beq_iff_eq] using greater
    · intro operator
      simp only [admits, operator, bne_iff_ne]
      exact not_congr greater
  · intro other same positional found wanted version again front
    -- both walks end at their first wildcard and have seen the same numbers
    have walk : constraint.locate version = other.locate again := by
      rw [locate_of_findIdx? first, locate_of_findIdx? found, wanted, front]
    simp only [List.mem_cons, List.not_mem_nil, or_false] at positional
    rcases positional with operator | operator | operator | operator | operator <;>
      rw [operator] at same <;> simp only [admits, operator, same, walk]

/-- A number, a pre-release and an unwritten part behind the wildcard, of which nothing shows. -/
theorem wildcard_matches_front_greater :
    let target : Version :=
      ⟨⟨⟨.value 1, .wildcard, .value 3⟩, .preRelease [.alphanumeric "rc"]⟩, none, "1.x.3-rc"⟩
    let constraint := ofVersion .greaterThan target
    let version : Version := ⟨⟨.ofNumbers 2 0 0, .preRelease [.alphanumeric "a"]⟩, none, "2.0.0-a"⟩
    let other := ofVersion .greaterThan ⟨⟨⟨.value 1, .absent, .absent⟩, .anyRevision⟩, none, "1"⟩
    constraint.target.release.parts.findIdx? Part.isWildcard = some 1 ∧
      other.target.release.parts.findIdx? Part.isWildcard = some 1 ∧
      constraint.admits version ∧ ¬constraint.admits (.ofNumbers 1 9 0) ∧
      other.admits (.ofNumbers 2 7 1) := by
  intro target constraint version other
  have first : constraint.target.release.parts.findIdx? Part.isWildcard = some 1 := by decide
  have found : other.target.release.parts.findIdx? Part.isWildcard = some 1 := by decide
  obtain ⟨matching, agree⟩ := wildcard_matches_front first
  have admitted : constraint.admits version :=
    ((matching version).2.2.1 rfl).mpr (.rel (by decide))
  refine ⟨first, found, admitted, ?_, ?_⟩
  · intro below
    have above := ((matching (.ofNumbers 1 9 0)).2.2.1 rfl).mp below
    cases above with
    | rel less => contradiction
    | cons rest => cases rest
  · have same := agree other rfl (by decide) found rfl version (.ofNumbers 2 7 1) (by decide)
    exact same.symm.trans admitted

end Constraint

end VersionRange
