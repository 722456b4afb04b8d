import VersionRange.Proofs.Constraint.Position
import VersionRange.Proofs.Version.Target

/-! How the operators relate to each other.

Equality and the operators built on it walk the target's parts and stop at its
first wildcard; less-than and at-least compare with the floor. The two agree on
every version in front of and behind the target. Within a target that ends in
placeholders the floor is the least release, so only its pre-releases lie within
the target and below the floor at once.
-/

set_option autoImplicit false

namespace VersionRange

/-- Behind the first placeholder no number is written. -/
def Release.placeholdersTrail (release : Release) : Bool :=
  (release.parts.dropWhile Part.isValue).all fun part => !part.isValue

def Operator.relation? : Operator → Option (Ordering → Bool)
  | .implicit | .equal => some Ordering.isEq
  | .notEqual => some Ordering.isNe
  | .lessThan => some Ordering.isLT
  | .lessThanOrEqual => some Ordering.isLE
  | .greaterThan => some Ordering.isGT
  | .greaterThanOrEqual => some Ordering.isGE
  | .tilde | .caret => none

/-- What an operator's symbol in front of a target is read as. -/
def Constraint.ofTarget (operator : Operator) (padding : Padding) (target : Version) : Constraint :=
  ⟨operator, target, padding, operator.symbol ++ target.text⟩

namespace Position.Follows

variable {position : Position} {order : Ordering}

theorem atMost_iff (follows : position.Follows order) :
    (position != .greater) = (order.isLT || position.isMatch) := by
  rcases follows with rfl | rfl
  · simp [isMatch]
  · cases order <;> rfl

theorem greater_iff (follows : position.Follows order) :
    (position == .greater) = (order.isGE && !position.isMatch) := by
  rcases follows with rfl | rfl
  · simp [isMatch]
  · cases order <;> rfl

end Position.Follows

namespace Part

theorem isGE_compare_floor_of_open {parts placeholders : List Part}
    (same : parts.length = placeholders.length) (numbers : ∀ part ∈ parts, part.isValue)
    (unwritten : ∀ part ∈ placeholders, part.isValue = false) :
    (compare parts (placeholders.map fun part => .value part.floor)).isGE := by
  induction parts generalizing placeholders with
  | nil =>
    cases placeholders with
    | nil => rfl
    | cons placeholder placeholders => simp at same
  | cons part parts ih =>
    cases placeholders with
    | nil => simp at same
    | cons placeholder placeholders =>
      have rest := ih (by simpa using same)
        (fun other member => numbers other (List.mem_cons_of_mem part member))
        (fun other member => unwritten other (List.mem_cons_of_mem placeholder member))
      have zero : placeholder.floor = 0 := by
        have form := unwritten placeholder (by simp)
        cases placeholder <;> simp_all [isValue, floor]
      rw [List.map_cons, zero, List.compare_cons_cons]
      cases part with
      | absent | wildcard => simp [isValue] at numbers
      | value n =>
        -- a number that is not zero decides, and behind a zero the rest does
        change ((compare n 0).then _).isGE
        rcases Nat.eq_zero_or_pos n with rfl | positive
        · simpa using rest
        · rw [Nat.compare_eq_gt.mpr positive]
          rfl

theorem isGE_compare_floor_of_isMatch {padding : Padding} {parts targets : List Part}
    (same : parts.length = targets.length) (numbers : ∀ part ∈ parts, part.isValue)
    (trail : (targets.dropWhile isValue).all fun part => !part.isValue)
    (matched : (locateAll parts (targets.map (·.resolve padding))).isMatch) :
    (compare parts (targets.map fun part => .value part.floor)).isGE := by
  induction parts generalizing targets with
  | nil =>
    cases targets with
    | nil => rfl
    | cons target targets => simp at same
  | cons part parts ih =>
    cases targets with
    | nil => simp at same
    | cons target targets =>
      by_cases written : target.isValue
      · cases target with
        | absent | wildcard => simp [isValue] at written
        | value n =>
          rw [List.dropWhile_cons_of_pos rfl] at trail
          rw [List.map_cons, List.compare_cons_cons]
          rw [List.map_cons, resolve_value, locateAll, if_neg (by simp [isWildcard])] at matched
          -- a number in front of the placeholders has to be met for the walk to go on
          cases order : compare part (.value n) with
          | lt => simp [order, Position.ofOrdering, Position.orElse, Position.isMatch] at matched
          | gt => simp [order, Position.ofOrdering, Position.orElse, Position.isMatch] at matched
          | eq =>
            rw [order] at matched
            have rest := ih (by simpa using same)
              (fun other member => numbers other (List.mem_cons_of_mem part member)) trail matched
            simpa [floor, order] using rest
      · -- the first placeholder: only placeholders follow
        rw [List.dropWhile_cons_of_neg written, List.all_eq_true] at trail
        apply isGE_compare_floor_of_open same numbers
        intro other member
        simpa using trail other member

theorem locateAll_floor {targets : List Part} (written : ∀ target ∈ targets, target ≠ .absent) :
    locateAll (targets.map fun target => .value target.floor) targets =
      if targets.any isWildcard then .within else .equal := by
  induction targets with
  | nil => rfl
  | cons target targets ih =>
    have rest := ih fun other member => written other (List.mem_cons_of_mem target member)
    rw [List.map_cons, locateAll, List.any_cons]
    cases closed : target.isWildcard with
    | true => rfl
    | false =>
      rw [floor_eq_self (written target (by simp)) closed, Std.ReflOrd.compare_self, rest]
      rfl

end Part

namespace Constraint

variable {padding : Padding} {target : Version}

/-- On a closed target the walk and the floor decide every comparison alike. -/
theorem admits_eq_relation {constraint : Constraint} {relation : Ordering → Bool}
    (compares : constraint.operator.relation? = some relation)
    (closed : constraint.target.hasWildcard = false) (version : Version) :
    constraint.admits version = relation (constraint.compareFloor version) := by
  have walk := locate_eq_of_closed closed version
  unfold admits
  cases operator : constraint.operator with
  | implicit | equal | notEqual | lessThanOrEqual | greaterThan =>
    rw [operator] at compares
    cases compares
    simp only [walk]
    cases constraint.compareFloor version <;> rfl
  | lessThan | greaterThanOrEqual =>
    rw [operator] at compares
    cases compares
    rfl
  | tilde | caret =>
    rw [operator] at compares
    contradiction

theorem target_of_concrete {constraint : Constraint} (concrete : constraint.version.IsConcrete) :
    constraint.target = constraint.version.toPrecedence := by
  obtain ⟨major, minor, patch, release⟩ := concrete.release
  rw [target, release, Release.resolve_ofNumbers, ← release]

theorem closed_of_concrete {constraint : Constraint} (concrete : constraint.version.IsConcrete) :
    constraint.target.hasWildcard = false := by
  obtain ⟨major, minor, patch, release⟩ := concrete.release
  have suffix : constraint.version.suffix ≠ .anyRevision := by
    intro unwritten
    have form := concrete.suffix
    rw [unwritten] at form
    contradiction
  rw [target_of_concrete concrete, Precedence.hasWildcard, release]
  simpa [Release.parts, Release.ofNumbers, Part.isWildcard] using suffix

theorem floor_of_concrete {constraint : Constraint} (concrete : constraint.version.IsConcrete) :
    constraint.floor = constraint.version.toPrecedence := by
  rw [floor, Precedence.floor_eq_self constraint.target_written (closed_of_concrete concrete),
    target_of_concrete concrete]

theorem compareFloor_of_concrete {constraint : Constraint}
    (concrete : constraint.version.IsConcrete) (version : Version) :
    constraint.compareFloor version = compare version constraint.version := by
  rw [compareFloor, floor_of_concrete concrete]
  rfl

theorem locate_ofTarget (operator : Operator) (version : Version) :
    (ofTarget operator padding target).locate version =
      (Part.locateAll version.release.parts (target.release.parts.map (·.resolve padding))).orElse
        fun _ => version.suffix.locate target.suffix :=
  rfl

theorem hasWildcard_parts {operator : Operator}
    (implied : target.suffix = target.release.impliedSuffix padding)
    (unresolved : (ofTarget operator padding target).target.hasWildcard) :
    (target.release.resolve padding).parts.any Part.isWildcard := by
  simp only [Precedence.hasWildcard, Bool.or_eq_true, beq_iff_eq] at unresolved
  rcases unresolved with parts | suffix
  · exact parts
  · -- the revision is left open only with the patch
    change target.suffix = .anyRevision at suffix
    rw [implied] at suffix
    unfold Release.impliedSuffix at suffix
    split at suffix
    · next patch => simp [Release.parts, Release.resolve, patch, Part.resolve, Part.isWildcard]
    · next patch => simp [Release.parts, Release.resolve, patch, Part.resolve, Part.isWildcard]
    · contradiction

/-- Pre-releases of the floor's release are all that lies below the floor and within the target. -/
theorem below_and_within_iff {version : Version}
    (implied : target.suffix = target.release.impliedSuffix padding)
    (trail : target.release.placeholdersTrail)
    (unresolved : (target.release.resolve padding).parts.any Part.isWildcard)
    (numbers : ∀ part ∈ version.release.parts, part.isValue) {operator : Operator} :
    ((ofTarget operator padding target).compareFloor version).isLT ∧
        ((ofTarget operator padding target).locate version).isMatch ↔
      version.isPreRelease ∧ version.release = target.release.floor := by
  have order : (ofTarget operator padding target).compareFloor version =
      (compare version.release target.release.floor).then (compare version.suffix .bare) := by
    have bare : target.suffix.floor = .bare := by
      rw [implied]
      unfold Release.impliedSuffix
      split <;> rfl
    rw [compareFloor, Precedence.compare_eq_then, release_floor]
    exact congrArg (fun suffix => (compare version.release _).then (compare version.suffix suffix)) bare
  rw [order, locate_ofTarget, Ordering.isLT_iff_eq_lt, Ordering.then_eq_lt,
    Suffix.compare_bare_eq_lt]
  constructor
  · rintro ⟨below, matched⟩
    have three : version.release.parts.length = target.release.parts.length := rfl
    have parts : (compare version.release target.release.floor).isGE := by
      rw [← Release.compare_parts]
      exact Part.isGE_compare_floor_of_isMatch three numbers trail
        (Position.isMatch_of_orElse matched)
    -- no numbers within the target are below its floor, so the suffix is
    rcases below with less | ⟨same, form⟩
    · rw [less] at parts
      contradiction
    · exact ⟨form, Std.LawfulEqOrd.eq_of_compare same⟩
  · rintro ⟨form, same⟩
    refine ⟨.inr ⟨by rw [same, Std.ReflOrd.compare_self], form⟩, ?_⟩
    -- over the floor's own numbers the walk ends at a wildcard, before the suffix
    have walk : Part.locateAll (target.release.resolve padding).floor.parts
        (target.release.resolve padding).parts = .within := by
      rw [Release.parts_floor, Part.locateAll_floor, if_pos unresolved]
      exact fun part member => Release.ne_absent_of_mem_resolve member
    rw [Release.floor_resolve, ← same] at walk
    change (Position.orElse (Part.locateAll version.release.parts
      (target.release.resolve padding).parts) _).isMatch
    rw [walk]
    rfl

/-- At-most is below or equal and greater-than is at-least and different, wherever the wildcards
stand; below and equal overlap in the pre-releases of the least release alone. -/
theorem walk_agrees_with_floor {padding : Padding} {text : String} {target : Version}
    (read : Version.parseTarget padding text = .ok target) :
    (∀ version : Version, (ofTarget .lessThanOrEqual padding target).admits version =
      ((ofTarget .lessThan padding target).admits version ||
        (ofTarget .equal padding target).admits version)) ∧
    (∀ version : Version, (ofTarget .greaterThan padding target).admits version =
      ((ofTarget .greaterThanOrEqual padding target).admits version &&
        (ofTarget .notEqual padding target).admits version)) ∧
    ('-' ∉ text.toList.takeWhile (· != '+') → target.release.placeholdersTrail →
      (ofTarget .equal padding target).target.hasWildcard →
      ∀ (candidate : String) (version : Version), Version.parse candidate = .ok version →
        ((ofTarget .lessThan padding target).admits version ∧
            (ofTarget .equal padding target).admits version ↔
          version.isPreRelease ∧ version.release = target.release.floor)) := by
  refine ⟨?_, ?_, ?_⟩
  · intro version
    exact (locate_follows (ofTarget .equal padding target) version).atMost_iff
  · intro version
    exact (locate_follows (ofTarget .equal padding target) version).greater_iff
  · intro unwritten trail unresolved candidate version concrete
    have implied := Version.suffix_of_parseTarget read unwritten
    obtain ⟨⟨⟨major, minor, patch, release⟩, _, _, _⟩, _⟩ := Version.parse_eq_ok_iff.mp concrete
    have numbers : ∀ part ∈ version.release.parts, part.isValue := by
      rw [release]
      simp [Release.parts, Release.ofNumbers, Part.isValue]
    exact below_and_within_iff implied trail (hasWildcard_parts implied unresolved) numbers

/-- Under zero padding, one wildcard with an unwritten patch behind it. -/
theorem walk_agrees_with_floor_padded :
    let target : Version := ⟨⟨⟨.value 1, .wildcard, .absent⟩, .bare⟩, some "x-y", "v1.*+x-y"⟩
    let version : Version := ⟨⟨.ofNumbers 1 0 0, .preRelease [.alphanumeric "rc"]⟩, none, "1.0.0-rc"⟩
    Version.parseTarget .zero "v1.*+x-y" = .ok target ∧
      '-' ∉ "v1.*+x-y".toList.takeWhile (· != '+') ∧ target.release.placeholdersTrail ∧
      (ofTarget .equal .zero target).target.hasWildcard ∧ Version.parse "1.0.0-rc" = .ok version ∧
      (ofTarget .lessThan .zero target).admits version ∧
      (ofTarget .equal .zero target).admits version := by
  have read : Version.parseTarget .zero "v1.*+x-y" =
      .ok ⟨⟨⟨.value 1, .wildcard, .absent⟩, .bare⟩, some "x-y", "v1.*+x-y"⟩ := by rfl
  have concrete : Version.parse "1.0.0-rc" =
      .ok ⟨⟨.ofNumbers 1 0 0, .preRelease [.alphanumeric "rc"]⟩, none, "1.0.0-rc"⟩ := by rfl
  have overlap := (walk_agrees_with_floor read).2.2 (by decide) (by decide) (by decide) _ _ concrete
  exact ⟨read, by decide, by decide, by decide, concrete, overlap.mpr ⟨rfl, rfl⟩⟩

end Constraint

end VersionRange
