import VersionRange.Constraint.Admission
import VersionRange.Constraint.Range

/-! Positions and the order.

Locating a version stops at the target's first wildcard; comparing it with the
target's floor goes on. As long as the walk does not stop it finds what the
comparison finds, since a part that is no wildcard is its own floor.
-/

set_option autoImplicit false

namespace VersionRange

namespace Position

def Follows (position : Position) (order : Ordering) : Prop :=
  position = .within ∨ position = ofOrdering order

theorem follows_ofOrdering (order : Ordering) : (ofOrdering order).Follows order :=
  .inr rfl

theorem Follows.orElse {position : Position} {first rest : Ordering} {next : Unit → Position}
    (front : position.Follows first) (back : (next ()).Follows rest) :
    (position.orElse next).Follows (first.then rest) := by
  rcases front with within | found
  · subst within
    exact .inl rfl
  · subst found
    cases first with
    | lt => exact .inr rfl
    | eq => exact back
    | gt => exact .inr rfl

theorem orElse_assoc (position : Position) (next rest : Unit → Position) :
    (position.orElse next).orElse rest = position.orElse fun _ => (next ()).orElse rest := by
  cases position <;> rfl

theorem isMatch_of_orElse {position : Position} {next : Unit → Position}
    (matched : (position.orElse next).isMatch) : position.isMatch := by
  cases position with
  | equal | within => rfl
  | less | greater => exact matched

end Position

namespace Part

@[simp] theorem resolve_value (padding : Padding) (n : Nat) : (value n).resolve padding = .value n :=
  rfl

theorem resolve_ne_absent (padding : Padding) (part : Part) : part.resolve padding ≠ .absent := by
  cases part <;> cases padding <;> simp [resolve]

theorem isWildcard_iff {part : Part} : part.isWildcard ↔ part = .wildcard := by
  cases part <;> simp [isWildcard]

theorem floor_eq_self {part : Part} (written : part ≠ .absent) (closed : part.isWildcard = false) :
    .value part.floor = part := by
  cases part with
  | absent => contradiction
  | value n => rfl
  | wildcard => simp [isWildcard] at closed

@[simp] theorem floor_resolve (padding : Padding) (part : Part) :
    (part.resolve padding).floor = part.floor := by
  cases part <;> cases padding <;> rfl

theorem locateAll_follows {parts targets : List Part} (same : parts.length = targets.length)
    (written : ∀ target ∈ targets, target ≠ .absent) :
    (locateAll parts targets).Follows
      (compare parts (targets.map fun target => .value target.floor)) := by
  induction parts generalizing targets with
  | nil =>
    cases targets with
    | nil => exact .inr rfl
    | cons target targets => simp at same
  | cons part parts ih =>
    cases targets with
    | nil => simp at same
    | cons target targets =>
      have rest := ih (by simpa using same) fun other member =>
        written other (List.mem_cons_of_mem target member)
      rw [locateAll, List.map_cons, List.compare_cons_cons]
      split
      · exact .inl rfl
      · next closed =>
        -- both the walk and the floor compare with the same number here
        have self : .value target.floor = target :=
          floor_eq_self (written target (by simp)) (by simpa using closed)
        rw [self]
        exact (Position.follows_ofOrdering _).orElse rest

theorem locateAll_append (parts front rest : List Part) :
    locateAll parts (front ++ rest) =
      (locateAll (parts.take front.length) front).orElse fun _ =>
        locateAll (parts.drop front.length) rest := by
  induction front generalizing parts with
  | nil => cases parts <;> rfl
  | cons target front ih =>
    cases parts with
    | nil => cases rest <;> rfl
    | cons part parts =>
      simp only [List.cons_append, List.length_cons, List.take_succ_cons, List.drop_succ_cons,
        locateAll, ih]
      split
      · rfl
      · rw [Position.orElse_assoc]

theorem locateAll_ne_within {targets : List Part} (closed : targets.any isWildcard = false)
    (parts : List Part) : locateAll parts targets ≠ .within := by
  induction parts generalizing targets with
  | nil => cases targets <;> simp [locateAll]
  | cons part parts ih =>
    cases targets with
    | nil => simp [locateAll]
    | cons target targets =>
      simp only [List.any_cons, Bool.or_eq_false_iff] at closed
      rw [locateAll, if_neg (by simp [closed.1])]
      cases compare part target with
      | lt => simp [Position.ofOrdering, Position.orElse]
      | eq => exact ih closed.2
      | gt => simp [Position.ofOrdering, Position.orElse]

end Part

namespace Release

theorem compare_parts (a b : Release) : compare a.parts b.parts = compare a b := by
  simp [parts, List.compare_cons_cons, compare_eq_then]

theorem parts_floor (release : Release) :
    release.floor.parts = release.parts.map fun part => .value part.floor :=
  rfl

@[simp] theorem floor_resolve (padding : Padding) (release : Release) :
    (release.resolve padding).floor = release.floor := by
  simp [floor, resolve]

@[simp] theorem resolve_ofNumbers (padding : Padding) (major minor patch : Nat) :
    (ofNumbers major minor patch).resolve padding = ofNumbers major minor patch :=
  rfl

theorem ne_absent_of_mem_resolve {padding : Padding} {release : Release} {part : Part}
    (member : part ∈ (release.resolve padding).parts) : part ≠ .absent := by
  simp only [parts, resolve, List.mem_cons, List.not_mem_nil, or_false] at member
  rcases member with rfl | rfl | rfl <;> exact Part.resolve_ne_absent padding _

end Release

namespace Suffix

theorem locateNumbers_eq (numbers target : List Nat) :
    locateNumbers numbers target = .ofOrdering (compare numbers target) := by
  induction numbers generalizing target with
  | nil => cases target <;> rfl
  | cons number numbers ih =>
    cases target with
    | nil => rfl
    | cons wanted target =>
      rw [locateNumbers, ih, List.compare_cons_cons]
      cases compare number wanted <;> rfl

theorem locate_eq {target : Suffix} (closed : target ≠ .anyRevision) (suffix : Suffix) :
    suffix.locate target = .ofOrdering (compare suffix target) := by
  cases target with
  | revision wanted =>
    cases suffix with
    | revision numbers => exact locateNumbers_eq numbers wanted
    | preRelease _ | bare | anyRevision => rfl
  | preRelease _ | bare => cases suffix <;> rfl
  | anyRevision => contradiction

theorem floor_eq_self {suffix : Suffix} (closed : suffix ≠ .anyRevision) : suffix.floor = suffix := by
  cases suffix with
  | anyRevision => contradiction
  | preRelease _ | bare | revision _ => rfl

theorem compare_bare_eq_lt {suffix : Suffix} :
    compare suffix .bare = .lt ↔ suffix.preRelease?.isSome := by
  cases suffix <;> simp [Ord.compare, Suffix.compare, preRelease?]

theorem locate_follows (suffix target : Suffix) :
    (suffix.locate target).Follows (compare suffix target.floor) := by
  by_cases any : target = .anyRevision
  · subst any
    exact .inl rfl
  · rw [locate_eq any, floor_eq_self any]
    exact Position.follows_ofOrdering _

end Suffix

namespace Precedence

def hasWildcard (precedence : Precedence) : Bool :=
  precedence.release.parts.any Part.isWildcard || precedence.suffix == .anyRevision

theorem locate_follows (version : Precedence) {target : Precedence}
    (written : ∀ part ∈ target.release.parts, part ≠ .absent) :
    (version.locate target).Follows (compare version target.floor) := by
  have parts : (Part.locateAll version.release.parts target.release.parts).Follows
      (compare version.release target.release.floor) := by
    rw [← Release.compare_parts, Release.parts_floor]
    exact Part.locateAll_follows rfl written
  exact parts.orElse (Suffix.locate_follows version.suffix target.suffix)

theorem locate_ne_within (version : Precedence) {target : Precedence}
    (closed : target.hasWildcard = false) : version.locate target ≠ .within := by
  simp only [hasWildcard, Bool.or_eq_false_iff, beq_eq_false_iff_ne] at closed
  have parts := Part.locateAll_ne_within closed.1 version.release.parts
  rw [locate, Suffix.locate_eq closed.2]
  -- neither the parts nor the suffix can end the walk
  cases walk : Part.locateAll version.release.parts target.release.parts with
  | less | greater => simp [Position.orElse]
  | equal => cases compare version.suffix target.suffix <;> simp [Position.orElse, Position.ofOrdering]
  | within => contradiction

theorem floor_eq_self {target : Precedence} (written : ∀ part ∈ target.release.parts, part ≠ .absent)
    (closed : target.hasWildcard = false) : target.floor = target := by
  simp only [hasWildcard, Bool.or_eq_false_iff, beq_eq_false_iff_ne, List.any_eq_false] at closed
  obtain ⟨⟨major, minor, patch⟩, suffix⟩ := target
  have self : ∀ part ∈ [major, minor, patch], .value part.floor = part := fun part member =>
    Part.floor_eq_self (written part member) (by simpa using closed.1 part member)
  simp only [List.mem_cons, List.not_mem_nil, or_false, forall_eq_or_imp, forall_eq] at self
  simp only [floor, Release.floor, Release.ofNumbers, self, Suffix.floor_eq_self closed.2]

end Precedence

namespace Constraint

theorem target_written (constraint : Constraint) :
    ∀ part ∈ constraint.target.release.parts, part ≠ .absent :=
  fun _ member => Release.ne_absent_of_mem_resolve member

theorem isConcrete_eq (constraint : Constraint) :
    constraint.isConcrete = !constraint.target.hasWildcard := by
  -- the padding policy leaves no part absent, so a part is a number or a wildcard
  have parts : ∀ part ∈ constraint.target.release.parts, part.isValue = !part.isWildcard := by
    intro part member
    have written := constraint.target_written part member
    cases part with
    | absent => contradiction
    | value _ | wildcard => rfl
  rw [isConcrete, Precedence.hasWildcard, Bool.not_or, List.not_any_eq_all_not]
  congr 1
  rw [Bool.eq_iff_iff, List.all_eq_true, List.all_eq_true]
  constructor
  · intro all part member
    rw [← parts part member]
    exact all part member
  · intro all part member
    rw [parts part member]
    exact all part member

theorem release_floor (constraint : Constraint) :
    constraint.floor.release = constraint.version.release.floor :=
  Release.floor_resolve _ _

/-- The position of a version is its order relative to the floor, unless a wildcard ends the walk. -/
theorem locate_follows (constraint : Constraint) (version : Version) :
    (constraint.locate version).Follows (constraint.compareFloor version) :=
  Precedence.locate_follows _ constraint.target_written

theorem locate_eq_of_closed {constraint : Constraint} (closed : constraint.target.hasWildcard = false)
    (version : Version) :
    constraint.locate version = .ofOrdering (constraint.compareFloor version) := by
  rcases constraint.locate_follows version with within | found
  · exact absurd within (Precedence.locate_ne_within _ closed)
  · exact found

/-- What a constraint answers depends on its operator, its target under the policy and its ceiling. -/
theorem agree_of_target {first second : Constraint} (operator : first.operator = second.operator)
    (target : first.target = second.target) (ceiling : first.ceiling? = second.ceiling?) :
    (∀ version, first.admits version = second.admits version) ∧ first.lower? = second.lower? ∧
      first.upper? = second.upper? ∧ first.isUniversal = second.isUniversal := by
  have floor : first.floor = second.floor := by rw [Constraint.floor, Constraint.floor, target]
  have concrete : first.isConcrete = second.isConcrete := by rw [isConcrete, isConcrete, target]
  have edge : first.floorBound = second.floorBound := by
    funext inclusive
    rw [floorBound, floorBound, floor]
  refine ⟨?_, ?_, ?_, ?_⟩
  · intro version
    simp only [admits, operator, locate, target, compareFloor, floor, isBelowCeiling, ceiling]
  · simp only [lower?, operator, concrete, edge]
  · simp only [upper?, operator, concrete, edge, ceiling]
  · simp only [isUniversal, operator, target]

end Constraint

end VersionRange
