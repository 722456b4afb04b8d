import VersionRange.Proofs.Constraint.Position

/-! Admission along the order.

A higher version never has a lower position: where two versions first differ, the
higher one has moved on past the target's part, and in front of that the walk
cannot tell them apart. The order relative to the floor and the release numbers
below a ceiling move the same way. So every operator but not-equal admits the
versions above an edge, below one, or between two.
-/

set_option autoImplicit false

namespace VersionRange

namespace Position

def rank : Position → Nat
  | .less => 0
  | .equal | .within => 1
  | .greater => 2

theorem isMatch_iff_rank (position : Position) : position.isMatch ↔ position.rank = 1 := by
  cases position <;> simp [isMatch, rank]

theorem eq_greater_iff_rank (position : Position) : position = .greater ↔ position.rank = 2 := by
  cases position <;> simp [rank]

theorem rank_le_two (position : Position) : position.rank ≤ 2 := by
  cases position <;> decide

variable {A : Type} [Ord A] [Std.TransOrd A] [Std.LawfulEqOrd A] {a b target : A}

/-- The positions of two elements that do not descend do not descend, however the walk goes on
where they are equal. -/
theorem rank_orElse_le {next other : Unit → Position} (ascend : (compare a b).isLE)
    (rest : a = b → (next ()).rank ≤ (other ()).rank) :
    ((ofOrdering (compare a target)).orElse next).rank ≤
      ((ofOrdering (compare b target)).orElse other).rank := by
  by_cases same : a = b
  · subst same
    cases compare a target with
    | lt | gt => exact Nat.le_refl _
    | eq => exact rest rfl
  · have below : compare a b = .lt := by
      have different : compare a b ≠ .eq := fun equal => same (Std.LawfulEqOrd.eq_of_compare equal)
      cases order : compare a b <;> simp_all
    -- the lower one may stop in front of the target; if it does not, the higher one is behind it
    cases order : compare a target with
    | lt => exact Nat.zero_le _
    | eq | gt =>
      have reached : (compare target a).isLE := by
        rw [Std.OrientedOrd.eq_swap, order]
        rfl
      have behind : compare target b = .lt := Std.TransCmp.lt_of_isLE_of_lt reached below
      rw [Std.OrientedOrd.eq_swap (a := b), behind]
      exact rank_le_two _

theorem rank_ofOrdering_le (ascend : (compare a b).isLE) :
    (ofOrdering (compare a target)).rank ≤ (ofOrdering (compare b target)).rank := by
  have ends (order : Ordering) : (ofOrdering order).orElse (fun _ => .equal) = ofOrdering order := by
    cases order <;> rfl
  have moved : ((ofOrdering (compare a target)).orElse fun _ => .equal).rank ≤
      ((ofOrdering (compare b target)).orElse fun _ => .equal).rank :=
    rank_orElse_le ascend fun _ => Nat.le_refl _
  rwa [ends, ends] at moved

end Position

theorem Part.rank_locateAll_le {a b targets : List Part} {next other : Unit → Position}
    (first : a.length = targets.length) (second : b.length = targets.length)
    (ascend : (compare a b).isLE) (rest : a = b → (next ()).rank ≤ (other ()).rank) :
    ((locateAll a targets).orElse next).rank ≤ ((locateAll b targets).orElse other).rank := by
  induction targets generalizing a b with
  | nil =>
    rw [List.length_nil, List.length_eq_zero_iff] at first second
    subst first second
    exact rest rfl
  | cons target targets ih =>
    match a, b, first, second with
    | lower :: a, higher :: b, first, second =>
      rw [List.compare_cons_cons] at ascend
      rw [locateAll, locateAll]
      by_cases wild : target.isWildcard
      · rw [if_pos wild, if_pos wild]
        exact Nat.le_refl _
      · rw [if_neg wild, if_neg wild, Position.orElse_assoc, Position.orElse_assoc]
        have head : (compare lower higher).isLE := Ordering.isLE_left_of_isLE_then ascend
        apply Position.rank_orElse_le head
        -- only where the heads are equal do the walks go on
        rintro rfl
        rw [Std.ReflOrd.compare_self, Ordering.eq_then] at ascend
        apply ih (by simpa using first) (by simpa using second) ascend
        rintro rfl
        exact rest rfl

theorem Suffix.rank_locate_le {a b : Suffix} (target : Suffix) (ascend : (compare a b).isLE) :
    (a.locate target).rank ≤ (b.locate target).rank := by
  by_cases any : target = .anyRevision
  · subst any
    exact Nat.le_refl _
  · rw [locate_eq any, locate_eq any]
    exact Position.rank_ofOrdering_le ascend

namespace Precedence

theorem isLE_release {a b : Precedence} (ascend : (compare a b).isLE) :
    (compare a.release b.release).isLE := by
  rw [compare_eq_then] at ascend
  exact Ordering.isLE_left_of_isLE_then ascend

theorem rank_locate_le {a b : Precedence} (target : Precedence) (ascend : (compare a b).isLE) :
    (a.locate target).rank ≤ (b.locate target).rank := by
  have parts : (compare a.release.parts b.release.parts).isLE := by
    rw [Release.compare_parts]
    exact isLE_release ascend
  have first : a.release.parts.length = target.release.parts.length := rfl
  have second : b.release.parts.length = target.release.parts.length := rfl
  apply Part.rank_locateAll_le first second parts
  intro same
  have equal : compare a.release b.release = .eq := by
    rw [← Release.compare_parts, same, Std.ReflOrd.compare_self]
  rw [compare_eq_then, equal, Ordering.eq_then] at ascend
  exact Suffix.rank_locate_le target.suffix ascend

end Precedence

namespace Constraint

variable {constraint : Constraint} {a b c : Version}

theorem rank_locate_le (constraint : Constraint) (ascend : (compare a b).isLE) :
    (constraint.locate a).rank ≤ (constraint.locate b).rank :=
  Precedence.rank_locate_le _ ascend

theorem isGE_compareFloor (ascend : (compare a b).isLE)
    (above : (constraint.compareFloor a).isGE) : (constraint.compareFloor b).isGE := by
  rw [compareFloor, Std.OrientedOrd.eq_swap, Ordering.isGE_swap] at above ⊢
  exact Std.TransOrd.isLE_trans above ascend

theorem isLT_compareFloor (ascend : (compare a b).isLE)
    (below : (constraint.compareFloor b).isLT) : (constraint.compareFloor a).isLT := by
  rw [Ordering.isLT_iff_eq_lt] at below ⊢
  exact Std.TransCmp.lt_of_isLE_of_lt ascend below

theorem isBelowCeiling_of_isLE (ascend : (compare a b).isLE)
    (below : constraint.isBelowCeiling b) : constraint.isBelowCeiling a := by
  unfold isBelowCeiling at below ⊢
  cases found : constraint.ceiling? with
  | none => rfl
  | some ceiling =>
    rw [found] at below
    simp only [Ordering.isLT_iff_eq_lt] at below ⊢
    exact Std.TransCmp.lt_of_isLE_of_lt (Precedence.isLE_release ascend) below

theorem admits_upward (operator : constraint.operator ∈ [.greaterThan, .greaterThanOrEqual])
    (ascend : (compare a b).isLE) (admitted : constraint.admits a) : constraint.admits b := by
  simp only [List.mem_cons, List.not_mem_nil, or_false] at operator
  rcases operator with operator | operator
  · have moved := constraint.rank_locate_le ascend
    simp only [admits, operator, beq_iff_eq, Position.eq_greater_iff_rank] at admitted ⊢
    have last := (constraint.locate b).rank_le_two
    omega
  · simp only [admits, operator] at admitted ⊢
    exact isGE_compareFloor ascend admitted

theorem admits_downward (operator : constraint.operator ∈ [.lessThan, .lessThanOrEqual])
    (ascend : (compare a b).isLE) (admitted : constraint.admits b) : constraint.admits a := by
  simp only [List.mem_cons, List.not_mem_nil, or_false] at operator
  rcases operator with operator | operator
  · simp only [admits, operator] at admitted ⊢
    exact isLT_compareFloor ascend admitted
  · have moved := constraint.rank_locate_le ascend
    simp only [admits, operator, bne_iff_ne, ne_eq, Position.eq_greater_iff_rank] at admitted ⊢
    have last := (constraint.locate b).rank_le_two
    omega

theorem admits_between (operator : constraint.operator ∈ [.implicit, .equal, .tilde, .caret])
    (lower : (compare a b).isLE) (upper : (compare b c).isLE) (first : constraint.admits a)
    (last : constraint.admits c) : constraint.admits b := by
  simp only [List.mem_cons, List.not_mem_nil, or_false] at operator
  rcases operator with operator | operator | operator | operator
  case inl | inr.inl =>
    have risen := constraint.rank_locate_le lower
    have rising := constraint.rank_locate_le upper
    simp only [admits, operator, Position.isMatch_iff_rank] at first last ⊢
    omega
  case inr.inr.inl | inr.inr.inr =>
    -- the lower edge is passed by the lower version, the ceiling kept by the higher one
    simp only [admits, operator, Bool.and_eq_true] at first last ⊢
    exact ⟨isGE_compareFloor lower first.1, isBelowCeiling_of_isLE upper last.2⟩

theorem admits_convex (operator : constraint.operator ≠ .notEqual) (lower : (compare a b).isLE)
    (upper : (compare b c).isLE) (first : constraint.admits a) (last : constraint.admits c) :
    constraint.admits b := by
  cases found : constraint.operator with
  | greaterThan | greaterThanOrEqual => exact admits_upward (by simp [found]) lower first
  | lessThan | lessThanOrEqual => exact admits_downward (by simp [found]) upper last
  | implicit | equal | tilde | caret =>
    exact admits_between (by simp [found]) lower upper first last
  | notEqual => exact absurd found operator

end Constraint

end VersionRange
