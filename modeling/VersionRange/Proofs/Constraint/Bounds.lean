import VersionRange.Proofs.Constraint.Operators
import VersionRange.Proofs.Version.Order

/-! Bounds and admission.

Admission follows the walk, the floor and the release numbers of the ceiling,
while bounds compare whole versions. They describe the same versions, but for
the pre-releases of a ceiling, which lie below it and are not admitted. The
floor stays below the ceiling, so a range always admits its lower edge.
-/

set_option autoImplicit false

namespace VersionRange

namespace Bound

theorem admitsAbove_eq (bound : Bound) (version : Version) :
    bound.admitsAbove version = if bound.inclusive then (compare version bound.version).isGE
      else (compare version bound.version).isGT := by
  unfold admitsAbove
  cases compare version bound.version <;> cases bound.inclusive <;> rfl

theorem admitsBelow_eq (bound : Bound) (version : Version) :
    bound.admitsBelow version = if bound.inclusive then (compare version bound.version).isLE
      else (compare version bound.version).isLT := by
  unfold admitsBelow
  cases compare version bound.version <;> cases bound.inclusive <;> rfl

end Bound

namespace Release

theorem floor_lt_tildeCeiling {release ceiling : Release}
    (found : release.tildeCeiling? = some ceiling) : compare release.floor ceiling = .lt := by
  unfold tildeCeiling? at found
  split at found
  · next major minor =>
    cases found
    rw [floor, major, minor]
    exact compare_ofNumbers_eq_lt.mpr (.inr ⟨rfl, .inl (Nat.lt_succ_self _)⟩)
  · next major _ =>
    cases found
    rw [floor, major]
    exact compare_ofNumbers_eq_lt.mpr (.inl (Nat.lt_succ_self _))
  · contradiction

theorem floor_lt_caretCeiling {release ceiling : Release}
    (found : release.caretCeiling? = some ceiling) : compare release.floor ceiling = .lt := by
  unfold caretCeiling? at found
  split at found
  · next major minor patch =>
    cases found
    rw [floor, major, minor, patch]
    exact compare_ofNumbers_eq_lt.mpr (.inr ⟨rfl, .inr ⟨rfl, Nat.lt_succ_self _⟩⟩)
  · next major minor _ =>
    cases found
    rw [floor, major, minor]
    exact compare_ofNumbers_eq_lt.mpr (.inr ⟨rfl, .inl (Nat.lt_succ_self _)⟩)
  · next major _ _ =>
    cases found
    rw [floor, major]
    exact compare_ofNumbers_eq_lt.mpr (.inl (Nat.lt_succ_self _))
  · contradiction

end Release

namespace Constraint

def withinBounds (constraint : Constraint) (version : Version) : Bool :=
  constraint.lower?.all (·.admitsAbove version) && constraint.upper?.all (·.admitsBelow version)

def IsRange (constraint : Constraint) : Prop :=
  constraint.operator = .tilde ∨ constraint.operator = .caret

/-- Less-than and at-least, and the other comparisons but not-equal on a closed target. -/
def IsInterval (constraint : Constraint) : Prop :=
  constraint.operator = .lessThan ∨ constraint.operator = .greaterThanOrEqual ∨
    constraint.operator ∈ [.implicit, .equal, .greaterThan, .lessThanOrEqual] ∧
      constraint.target.hasWildcard = false

theorem compareFloor_floor (constraint : Constraint) :
    constraint.compareFloor constraint.floor.toVersion = .eq :=
  Std.ReflOrd.compare_self

theorem floor_lt_ceiling {constraint : Constraint} {ceiling : Release}
    (found : constraint.ceiling? = some ceiling) :
    compare constraint.floor.release ceiling = .lt := by
  rw [release_floor]
  unfold ceiling? at found
  split at found
  · exact Release.floor_lt_tildeCeiling found
  · exact Release.floor_lt_caretCeiling found
  · contradiction

theorem admits_range {constraint : Constraint} (range : constraint.IsRange) (version : Version) :
    constraint.admits version =
      ((constraint.compareFloor version).isGE && constraint.isBelowCeiling version) := by
  unfold admits
  rcases range with operator | operator <;> rw [operator]

theorem lower?_range {constraint : Constraint} (range : constraint.IsRange) :
    constraint.lower? = some (constraint.floorBound true) := by
  unfold lower?
  rcases range with operator | operator <;> rw [operator]

theorem upper?_range {constraint : Constraint} (range : constraint.IsRange) :
    constraint.upper? =
      constraint.ceiling?.map fun ceiling => ⟨Precedence.toVersion ⟨ceiling, .bare⟩, false⟩ := by
  unfold upper?
  rcases range with operator | operator <;> rw [operator]

theorem admitsBelow_ceiling (ceiling : Release) (version : Version) :
    (Bound.mk (Precedence.toVersion ⟨ceiling, .bare⟩) false).admitsBelow version ↔
      compare version.release ceiling = .lt ∨ version.release = ceiling ∧ version.isPreRelease := by
  rw [Bound.admitsBelow_eq]
  change ((compare version.release ceiling).then (compare version.suffix .bare)).isLT ↔ _
  rw [Ordering.isLT_iff_eq_lt, Ordering.then_eq_lt, Suffix.compare_bare_eq_lt,
    Std.LawfulEqOrd.compare_eq_iff_eq]
  rfl

theorem admits_range_iff {constraint : Constraint} (range : constraint.IsRange) (version : Version) :
    constraint.admits version ↔ constraint.withinBounds version ∧
      ∀ bound, constraint.upper? = some bound →
        ¬(version.isPreRelease ∧ version.release = bound.version.release) := by
  have above : (constraint.floorBound true).admitsAbove version =
      (constraint.compareFloor version).isGE := by
    rw [Bound.admitsAbove_eq]
    rfl
  rw [admits_range range, withinBounds, lower?_range range, upper?_range range, Option.all_some,
    above, isBelowCeiling]
  cases constraint.ceiling? with
  | none => simp
  | some ceiling =>
    simp only [Option.map_some, Option.all_some, Option.some.injEq, forall_eq', Bool.and_eq_true,
      admitsBelow_ceiling, Ordering.isLT_iff_eq_lt, and_assoc, and_congr_right_iff]
    intro _
    constructor
    · intro below
      -- numbers below those of the ceiling are not those of the ceiling
      refine ⟨.inl below, ?_⟩
      rintro ⟨_, same⟩
      have equal : compare version.release ceiling = .eq :=
        Std.LawfulEqOrd.compare_eq_iff_eq.mpr same
      rw [below] at equal
      contradiction
    · rintro ⟨below | ⟨same, form⟩, other⟩
      · exact below
      · exact absurd ⟨form, same⟩ other

theorem admitsAbove_floor (constraint : Constraint) (inclusive : Bool) (version : Version) :
    (constraint.floorBound inclusive).admitsAbove version =
      if inclusive then (constraint.compareFloor version).isGE
      else (constraint.compareFloor version).isGT :=
  Bound.admitsAbove_eq _ _

theorem admitsBelow_floor (constraint : Constraint) (inclusive : Bool) (version : Version) :
    (constraint.floorBound inclusive).admitsBelow version =
      if inclusive then (constraint.compareFloor version).isLE
      else (constraint.compareFloor version).isLT :=
  Bound.admitsBelow_eq _ _

theorem admits_interval {constraint : Constraint} (interval : constraint.IsInterval)
    (version : Version) : constraint.admits version = constraint.withinBounds version := by
  unfold withinBounds lower? upper?
  rw [isConcrete_eq]
  rcases interval with operator | operator | ⟨operator, closed⟩
  · simp [admits, operator, admitsBelow_floor]
  · simp [admits, operator, admitsAbove_floor]
  · -- on a closed target the walk finds the order relative to the floor, as the bounds do
    have walk := locate_eq_of_closed closed version
    simp only [List.mem_cons, List.not_mem_nil, or_false] at operator
    rcases operator with operator | operator | operator | operator <;>
      simp only [admits, operator, walk, closed, Bool.not_false, if_true, Option.all_some,
        Option.all_none, admitsAbove_floor, admitsBelow_floor] <;>
      cases constraint.compareFloor version <;> rfl

theorem withinBounds_of_not_interval {constraint : Constraint} (range : ¬constraint.IsRange)
    (interval : ¬constraint.IsInterval) (version : Version) : constraint.withinBounds version := by
  unfold withinBounds lower? upper?
  rw [isConcrete_eq]
  cases operator : constraint.operator with
  | implicit | equal | greaterThan | lessThanOrEqual =>
    have unresolved : constraint.target.hasWildcard = true := by
      simpa [IsInterval, operator] using interval
    simp [unresolved]
  | notEqual => rfl
  | lessThan | greaterThanOrEqual => simp [IsInterval, operator] at interval
  | tilde | caret => simp [IsRange, operator] at range

theorem withinBounds_of_admits {constraint : Constraint} {version : Version}
    (admitted : constraint.admits version) : constraint.withinBounds version := by
  by_cases range : constraint.IsRange
  · exact ((admits_range_iff range version).mp admitted).1
  · by_cases interval : constraint.IsInterval
    · rwa [← admits_interval interval]
    · exact withinBounds_of_not_interval range interval version

/-- A lower edge is the floor. It is left out by greater-than alone, and given by equality only on
a closed target. -/
theorem lower?_eq_some {constraint : Constraint} {bound : Bound}
    (lower : constraint.lower? = some bound) :
    (bound = constraint.floorBound true ∧
      (constraint.operator = .greaterThanOrEqual ∨ constraint.IsRange ∨
        constraint.operator ∈ [.implicit, .equal] ∧ constraint.target.hasWildcard = false)) ∨
    bound = constraint.floorBound false := by
  unfold lower? at lower
  rw [isConcrete_eq] at lower
  cases operator : constraint.operator with
  | greaterThanOrEqual =>
    rw [operator] at lower
    cases lower
    exact .inl ⟨rfl, .inl rfl⟩
  | tilde =>
    rw [operator] at lower
    cases lower
    exact .inl ⟨rfl, .inr (.inl (.inl operator))⟩
  | caret =>
    rw [operator] at lower
    cases lower
    exact .inl ⟨rfl, .inr (.inl (.inr operator))⟩
  | implicit | equal =>
    simp only [operator, Bool.not_eq_true', Option.ite_none_right_eq_some,
      Option.some.injEq] at lower
    obtain ⟨closed, rfl⟩ := lower
    exact .inl ⟨rfl, .inr (.inr ⟨by simp, closed⟩)⟩
  | greaterThan =>
    simp only [operator, Option.ite_none_right_eq_some, Option.some.injEq] at lower
    obtain ⟨_, rfl⟩ := lower
    exact .inr rfl
  | notEqual | lessThan | lessThanOrEqual =>
    rw [operator] at lower
    contradiction

theorem upper?_eq_some {constraint : Constraint} {bound : Bound}
    (upper : constraint.upper? = some bound) :
    bound.version = constraint.floor.toVersion ∨
      ∃ ceiling, constraint.ceiling? = some ceiling ∧
        bound.version = Precedence.toVersion ⟨ceiling, .bare⟩ := by
  unfold upper? at upper
  cases operator : constraint.operator with
  | lessThan =>
    rw [operator] at upper
    cases upper
    exact .inl rfl
  | implicit | equal | lessThanOrEqual =>
    simp only [operator, Option.ite_none_right_eq_some, Option.some.injEq] at upper
    obtain ⟨_, rfl⟩ := upper
    exact .inl rfl
  | tilde | caret =>
    simp only [operator, Option.map_eq_some_iff] at upper
    obtain ⟨ceiling, found, rfl⟩ := upper
    exact .inr ⟨ceiling, found, rfl⟩
  | notEqual | greaterThan | greaterThanOrEqual =>
    rw [operator] at upper
    contradiction

theorem admits_floor_of_range {constraint : Constraint} (range : constraint.IsRange) :
    constraint.admits constraint.floor.toVersion := by
  rw [admits_range range, compareFloor_floor, isBelowCeiling]
  cases found : constraint.ceiling? with
  | none => rfl
  | some ceiling =>
    have below := floor_lt_ceiling found
    change (compare constraint.floor.release ceiling).isLT
    rw [below]
    rfl

theorem admits_floor_of_closed {constraint : Constraint}
    (operator : constraint.operator ∈ [.implicit, .equal])
    (closed : constraint.target.hasWildcard = false) :
    constraint.admits constraint.floor.toVersion := by
  have compares : constraint.operator.relation? = some Ordering.isEq := by
    simp only [List.mem_cons, List.not_mem_nil, or_false] at operator
    rcases operator with operator | operator <;> rw [operator] <;> rfl
  rw [admits_eq_relation compares closed, compareFloor_floor]
  rfl

theorem admits_lower {constraint : Constraint} {bound : Bound}
    (lower : constraint.lower? = some bound) (inclusive : bound.inclusive) :
    constraint.admits bound.version := by
  rcases lower?_eq_some lower with ⟨rfl, atLeast | range | ⟨operator, closed⟩⟩ | rfl
  · change constraint.admits constraint.floor.toVersion
    simp [admits, atLeast, compareFloor_floor]
  · exact admits_floor_of_range range
  · exact admits_floor_of_closed operator closed
  · contradiction

/-- Admitted versions lie within the bounds. The bounds of an interval leave nothing out, those of
a range only the pre-releases of its upper edge, and an inclusive lower edge is the least version
that is admitted. -/
theorem bounds_describe_admission (constraint : Constraint) :
    (∀ version, constraint.admits version → constraint.withinBounds version) ∧
    (constraint.IsInterval → ∀ version,
      constraint.admits version ↔ constraint.withinBounds version) ∧
    (constraint.IsRange → ∀ version,
      constraint.admits version ↔ constraint.withinBounds version ∧
        ∀ bound, constraint.upper? = some bound →
          ¬(version.isPreRelease ∧ version.release = bound.version.release)) ∧
    (∀ bound, constraint.lower? = some bound → bound.inclusive →
      constraint.admits bound.version ∧
        ∀ version, constraint.admits version → (compare bound.version version).isLE) := by
  refine ⟨?_, ?_, ?_, ?_⟩
  · intro version admitted
    exact withinBounds_of_admits admitted
  · intro interval version
    rw [admits_interval interval]
  · intro range version
    exact admits_range_iff range version
  · intro bound lower inclusive
    refine ⟨admits_lower lower inclusive, ?_⟩
    intro version admitted
    -- the lower bound allows it, and allows nothing below itself
    have within := withinBounds_of_admits admitted
    rw [withinBounds, lower, Option.all_some, Bool.and_eq_true, Bound.admitsAbove_eq,
      if_pos inclusive] at within
    rw [Std.OrientedOrd.eq_swap, Ordering.isLE_swap]
    exact within.1

/-- A pre-release of the ceiling, which lies within the bounds of a caret range without being
admitted, while at-least admits it and the caret range its own lower edge. -/
theorem bounds_describe_caret :
    let target : Version := ⟨⟨⟨.value 0, .value 2, .absent⟩, .anyRevision⟩, none, "0.2"⟩
    let range := ofTarget .caret .wildcard target
    let atLeast := ofTarget .greaterThanOrEqual .wildcard target
    let version : Version := ⟨⟨.ofNumbers 0 3 0, .preRelease [.alphanumeric "rc"]⟩, none, "0.3.0-rc"⟩
    range.IsRange ∧ range.withinBounds version ∧ ¬range.admits version ∧
      atLeast.IsInterval ∧ atLeast.admits version ∧
      range.lower? = some ⟨Version.ofNumbers 0 2 0, true⟩ ∧ range.admits (Version.ofNumbers 0 2 0) := by
  intro target range atLeast version
  have isRange : range.IsRange := .inr rfl
  have isInterval : atLeast.IsInterval := .inr (.inl rfl)
  have lower : range.lower? = some ⟨Version.ofNumbers 0 2 0, true⟩ := rfl
  refine ⟨isRange, by decide, ?_, isInterval, ?_, lower, ?_⟩
  · intro admitted
    have outside := (((bounds_describe_admission range).2.2.1 isRange version).mp admitted).2
    exact outside _ rfl ⟨rfl, rfl⟩
  · exact ((bounds_describe_admission atLeast).2.1 isInterval version).mpr (by decide)
  · exact ((bounds_describe_admission range).2.2.2 _ lower rfl).1

end Constraint

end VersionRange
