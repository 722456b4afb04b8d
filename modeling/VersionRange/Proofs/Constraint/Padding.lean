import VersionRange.Proofs.Constraint.Position
import VersionRange.Proofs.Version.Padding

/-! What the padding policy changes.

A target that is read without padding leaves its unwritten parts open. Its walk
goes as it goes with padding, until it stops at a part that is not written. So the
open target stands for more versions and has fewer above it, while the floor and
the ceiling, which know no wildcards, stay where they are.
-/

set_option autoImplicit false

namespace VersionRange

theorem Position.orElse_congr {position : Position} {first second : Unit → Position}
    (rest : position = .equal → first () = second ()) :
    position.orElse first = position.orElse second := by
  cases position with
  | equal => exact rest rfl
  | less | greater | within => rfl

namespace Part

/-- An open walk stops at the first placeholder, a padded one only if it is a wildcard. -/
theorem locateAll_opened (padding : Padding) (parts targets : List Part) :
    locateAll parts (targets.map (·.resolve .wildcard)) = .within ∨
      locateAll parts (targets.map (·.resolve padding)) =
        locateAll parts (targets.map (·.resolve .wildcard)) := by
  induction targets generalizing parts with
  | nil => exact .inr rfl
  | cons target targets ih =>
    cases parts with
    | nil => exact .inr rfl
    | cons part parts =>
      cases target with
      | absent | wildcard => exact .inl rfl
      | value n =>
        simp only [List.map_cons, resolve_value, locateAll]
        -- a number is compared alike; the walks go on together if it is met
        cases compare part (.value n) with
        | lt | gt => exact .inr rfl
        | eq => exact ih parts

theorem all_isValue_of_locateAll {parts targets : List Part} (same : parts.length = targets.length)
    (met : locateAll parts (targets.map (·.resolve .wildcard)) = .equal) : targets.all isValue := by
  induction targets generalizing parts with
  | nil => rfl
  | cons target targets ih =>
    cases parts with
    | nil => simp at same
    | cons part parts =>
      cases target with
      | absent | wildcard => contradiction
      | value n =>
        simp only [List.map_cons, resolve_value, locateAll] at met
        cases order : compare part (.value n) with
        | lt | gt =>
          rw [order] at met
          contradiction
        | eq =>
          rw [order] at met
          exact ih (by simpa using same) met

theorem locateAll_eq_of_unpadded (padding : Padding) (parts : List Part) {targets : List Part}
    (unpadded : targets.find? (fun target => !target.isValue) ≠ some .absent) :
    locateAll parts (targets.map (·.resolve padding)) =
      locateAll parts (targets.map (·.resolve .wildcard)) := by
  induction targets generalizing parts with
  | nil => rfl
  | cons target targets ih =>
    cases parts with
    | nil => rfl
    | cons part parts =>
      cases target with
      | absent => simp [isValue] at unpadded
      | wildcard => rfl
      | value n =>
        have rest := ih parts (by simpa [isValue] using unpadded)
        simp only [List.map_cons, resolve_value, locateAll, rest]

/-- One more than the zero that an unwritten part stands for lies behind the padded target, and
within the open one. -/
theorem exists_behind_padded {targets : List Part}
    (padded : targets.find? (fun target => !target.isValue) = some .absent) :
    ∃ numbers : List Nat, numbers.length = targets.length ∧
      locateAll (numbers.map .value) (targets.map (·.resolve .zero)) = .greater ∧
      locateAll (numbers.map .value) (targets.map (·.resolve .wildcard)) = .within := by
  induction targets with
  | nil => simp at padded
  | cons target targets ih =>
    cases target with
    | absent => exact ⟨1 :: List.replicate targets.length 0, by simp, rfl, rfl⟩
    | wildcard => simp [isValue] at padded
    | value n =>
      obtain ⟨numbers, same, behind, within⟩ := ih (by simpa [isValue] using padded)
      have met : compare (value n) (value n) = .eq := Std.ReflOrd.compare_self
      refine ⟨n :: numbers, by simpa using same, ?_, ?_⟩
      · simp only [List.map_cons, resolve_value, locateAll, met]
        exact behind
      · simp only [List.map_cons, resolve_value, locateAll, met]
        exact within

end Part

/-- The positions at which an operator admits a version. The operators that compare with the floor
have none. -/
def Operator.positions? : Operator → Option (Position → Bool)
  | .implicit | .equal => some Position.isMatch
  | .notEqual => some fun position => !position.isMatch
  | .lessThanOrEqual => some fun position => position != .greater
  | .greaterThan => some fun position => position == .greater
  | .lessThan | .greaterThanOrEqual | .tilde | .caret => none

namespace Constraint

theorem admits_eq_positions {constraint : Constraint} {positions : Position → Bool}
    (positional : constraint.operator.positions? = some positions) (version : Version) :
    constraint.admits version = positions (constraint.locate version) := by
  unfold admits
  cases operator : constraint.operator with
  | implicit | equal | notEqual | lessThanOrEqual | greaterThan =>
    rw [operator] at positional
    cases positional
    rfl
  | lessThan | greaterThanOrEqual | tilde | caret =>
    rw [operator] at positional
    contradiction

/-- Whether the second constraint has versions where the first one has them, or within its target. -/
structure WidensTo (first second : Constraint) : Prop where
  operator : first.operator = second.operator
  locate : ∀ version, second.locate version = .within ∨ first.locate version = second.locate version

namespace WidensTo

variable {first second : Constraint} {positions : Position → Bool} {version : Version}

theorem admits_wider (widens : first.WidensTo second)
    (positional : first.operator.positions? = some positions) (inner : positions .within = true)
    (admitted : first.admits version) : second.admits version := by
  rw [admits_eq_positions (widens.operator ▸ positional)]
  rw [admits_eq_positions positional] at admitted
  rcases widens.locate version with within | same
  · rw [within, inner]
  · rwa [← same]

theorem admits_narrower (widens : first.WidensTo second)
    (positional : first.operator.positions? = some positions) (outer : positions .within = false)
    (admitted : second.admits version) : first.admits version := by
  rw [admits_eq_positions (widens.operator ▸ positional)] at admitted
  rw [admits_eq_positions positional]
  rcases widens.locate version with within | same
  · rw [within, outer] at admitted
    contradiction
  · rwa [same]

end WidensTo

/-- Whether a constraint takes a part that is not written for what its padding policy says: it
matches by position, and that part is the first which is no number. -/
def isPadded (constraint : Constraint) : Bool :=
  constraint.operator.positions?.isSome &&
    constraint.version.release.parts.find? (fun part => !part.isValue) == some .absent

/-- Whether the second constraint can come from the text of the first, read without padding. -/
structure OpensTo (first second : Constraint) : Prop where
  operator : first.operator = second.operator
  version : first.version.SharesText second.version
  text : first.text = second.text
  policy : second.padding = .wildcard

theorem locate_eq_orElse (constraint : Constraint) (version : Version) :
    constraint.locate version =
      (Part.locateAll version.release.parts
        (constraint.version.release.parts.map (·.resolve constraint.padding))).orElse
          fun _ => version.suffix.locate constraint.version.suffix :=
  rfl

section

variable {first second : Constraint}

theorem OpensTo.floor_eq (opens : first.OpensTo second) : first.floor = second.floor := by
  have release : first.floor.release = second.floor.release := by
    rw [release_floor, release_floor, opens.version.release]
  have suffix : first.floor.suffix = second.floor.suffix := opens.version.floor
  change Precedence.mk first.floor.release first.floor.suffix =
    ⟨second.floor.release, second.floor.suffix⟩
  rw [release, suffix]

theorem OpensTo.ceiling?_eq (opens : first.OpensTo second) : first.ceiling? = second.ceiling? := by
  rw [ceiling?, ceiling?, opens.operator, opens.version.release]

theorem OpensTo.compareFloor_eq (opens : first.OpensTo second) (version : Version) :
    first.compareFloor version = second.compareFloor version := by
  rw [compareFloor, compareFloor, opens.floor_eq]

theorem OpensTo.locate_eq (opens : first.OpensTo second) (version : Version) :
    second.locate version =
      (Part.locateAll version.release.parts
        (first.version.release.parts.map (·.resolve .wildcard))).orElse
          fun _ => version.suffix.locate first.version.suffix := by
  rw [locate_eq_orElse, opens.policy, ← opens.version.release]
  apply Position.orElse_congr
  intro reached
  -- the suffix counts behind a written patch only, and there both have the same
  have three : version.release.parts.length = first.version.release.parts.length := rfl
  have written := List.all_eq_true.mp (Part.all_isValue_of_locateAll three reached)
  rw [opens.version.suffix (written _ (by simp [Release.parts]))]

theorem OpensTo.isConcrete_eq (opens : first.OpensTo second) (policy : first.padding = .wildcard) :
    first.isConcrete = second.isConcrete := by
  have release : second.target.release = first.target.release := by
    rw [target, target, opens.policy, policy, opens.version.release]
  rw [isConcrete, isConcrete, release]
  cases written : first.target.release.parts.all Part.isValue with
  | false => rfl
  | true =>
    -- nothing is left open, the patch included
    have patch := List.all_eq_true.mp written (first.version.release.patch.resolve first.padding)
      (by simp [target, Release.resolve, Release.parts])
    have value : first.version.release.patch.isValue := by
      rw [policy] at patch
      cases found : first.version.release.patch <;> simp_all [Part.resolve, Part.isValue]
    have suffix := opens.version.suffix value
    rw [target, target, suffix]

theorem OpensTo.widensTo (opens : first.OpensTo second) : first.WidensTo second := by
  refine ⟨opens.operator, ?_⟩
  intro version
  rw [opens.locate_eq, locate_eq_orElse]
  rcases Part.locateAll_opened first.padding version.release.parts first.version.release.parts
    with within | same
  · rw [within]
    exact .inl rfl
  · rw [same]
    exact .inr rfl

theorem OpensTo.floorBound_eq (opens : first.OpensTo second) (inclusive : Bool) :
    first.floorBound inclusive = second.floorBound inclusive := by
  rw [floorBound, floorBound, opens.floor_eq]

theorem OpensTo.agree_of_floor (opens : first.OpensTo second)
    (operator : first.operator.positions? = none) :
    (∀ version, first.admits version = second.admits version) ∧
      first.lower? = second.lower? ∧ first.upper? = second.upper? := by
  unfold admits lower? upper?
  rw [← opens.operator]
  cases found : first.operator with
  | implicit | equal | notEqual | lessThanOrEqual | greaterThan =>
    rw [found] at operator
    contradiction
  | lessThan | greaterThanOrEqual | tilde | caret =>
    simp only [opens.compareFloor_eq, isBelowCeiling, opens.ceiling?_eq, opens.floorBound_eq,
      implies_true, and_self]

section

variable {positions : Position → Bool} (positional : first.operator.positions? = some positions)
include positional

theorem OpensTo.admits_eq_positions (opens : first.OpensTo second) (version : Version) :
    second.admits version = positions (second.locate version) :=
  Constraint.admits_eq_positions (opens.operator ▸ positional) version

theorem OpensTo.admits_opened (opens : first.OpensTo second) (inner : positions .within = true)
    {version : Version} (admitted : first.admits version) : second.admits version :=
  opens.widensTo.admits_wider positional inner admitted

theorem OpensTo.admits_padded (opens : first.OpensTo second) (outer : positions .within = false)
    {version : Version} (admitted : second.admits version) : first.admits version :=
  opens.widensTo.admits_narrower positional outer admitted

theorem positions_within_ne : positions .within ≠ positions .greater := by
  cases operator : first.operator with
  | implicit | equal | notEqual | lessThanOrEqual | greaterThan =>
    rw [operator] at positional
    cases positional
    decide
  | lessThan | greaterThanOrEqual | tilde | caret =>
    rw [operator] at positional
    contradiction

end

theorem OpensTo.admits_of_unpadded (opens : first.OpensTo second) (unpadded : first.isPadded = false)
    (version : Version) : first.admits version = second.admits version := by
  rw [isPadded, Bool.and_eq_false_iff, beq_eq_false_iff_ne] at unpadded
  cases positional : first.operator.positions? with
  | none => exact (opens.agree_of_floor positional).1 version
  | some positions =>
    have parts := unpadded.resolve_left (by simp [positional])
    rw [opens.admits_eq_positions positional, Constraint.admits_eq_positions positional,
      opens.locate_eq, locate_eq_orElse, Part.locateAll_eq_of_unpadded _ _ parts]

theorem OpensTo.exists_admits_ne (opens : first.OpensTo second) (policy : first.padding = .zero)
    (padded : first.isPadded) : ∃ version, first.admits version ≠ second.admits version := by
  rw [isPadded, Bool.and_eq_true, beq_iff_eq] at padded
  obtain ⟨positional, parts⟩ := padded
  obtain ⟨positions, positional⟩ := Option.isSome_iff_exists.mp positional
  obtain ⟨numbers, three, behind, within⟩ := Part.exists_behind_padded parts
  match numbers, three with
  | [major, minor, patch], _ =>
    have greater : first.locate (.ofNumbers major minor patch) = .greater := by
      rw [locate_eq_orElse, policy]
      exact congrArg (Position.orElse · _) behind
    have inside : second.locate (.ofNumbers major minor patch) = .within := by
      rw [opens.locate_eq]
      exact congrArg (Position.orElse · _) within
    refine ⟨.ofNumbers major minor patch, ?_⟩
    rw [opens.admits_eq_positions positional, Constraint.admits_eq_positions positional, greater,
      inside]
    exact (positions_within_ne positional).symm

end

end Constraint

end VersionRange
