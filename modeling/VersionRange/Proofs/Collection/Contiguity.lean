import VersionRange.Collection
import VersionRange.Expression.Basic
import VersionRange.Proofs.Constraint.Convexity

/-! Admitted versions of a sorted collection.

A group without not-equal admits whatever lies between two versions that it
admits. Filtering a sorted collection by such a group therefore cuts one
contiguous run out of it, in whichever direction it is sorted.
-/

set_option autoImplicit false

namespace VersionRange

namespace Collection

def IsConvex (chosen : Version → Bool) : Prop :=
  ∀ a b c : Version, (compare a b).isLE → (compare b c).isLE → chosen a → chosen c → chosen b

variable {chosen : Version → Bool} {versions : List Version}

theorem filter_prefix_of_convex (convex : IsConvex chosen) {least : Version}
    (sorted : (least :: versions).Pairwise fun a b => (compare a b).isLE) (start : chosen least) :
    versions.filter chosen <+: versions := by
  induction versions with
  | nil => exact List.prefix_refl []
  | cons next rest ih =>
    obtain ⟨above, sortedRest⟩ := List.pairwise_cons.mp sorted
    obtain ⟨ascend, sortedTail⟩ := List.pairwise_cons.mp sortedRest
    by_cases held : chosen next
    · rw [List.filter_cons_of_pos held, List.prefix_cons_inj]
      apply ih
      exact List.pairwise_cons.mpr
        ⟨fun version member => above version (List.mem_cons_of_mem next member), sortedTail⟩
    · -- a chosen version further up would make this one chosen
      have nothing : rest.filter chosen = [] := by
        rw [List.filter_eq_nil_iff]
        intro version member other
        exact held (convex least next version (above next (by simp)) (ascend version member) start
          other)
      rw [List.filter_cons_of_neg held, nothing]
      exact List.nil_prefix

theorem filter_infix_of_convex (convex : IsConvex chosen)
    (sorted : versions.Pairwise fun a b => (compare a b).isLE) :
    versions.filter chosen <:+: versions := by
  induction versions with
  | nil => exact List.infix_rfl
  | cons first rest ih =>
    by_cases start : chosen first
    · rw [List.filter_cons_of_pos start]
      have front := filter_prefix_of_convex convex sorted start
      exact ((List.prefix_cons_inj first).mpr front).isInfix
    · rw [List.filter_cons_of_neg start]
      exact List.infix_cons (ih (List.pairwise_cons.mp sorted).2)

theorem filter_infix (convex : IsConvex chosen)
    (sorted : (versions.Pairwise fun a b => (compare a b).isLE) ∨
      versions.Pairwise fun a b => (compare b a).isLE) :
    versions.filter chosen <:+: versions := by
  rcases sorted with ascending | descending
  · exact filter_infix_of_convex convex ascending
  · have reversed := filter_infix_of_convex convex (List.pairwise_reverse.mpr descending)
    rw [List.filter_reverse] at reversed
    exact List.reverse_infix.mp reversed

theorem isConvex_of_group {group : List Constraint} (padding : Padding) (text : String)
    (operators : ∀ constraint ∈ group, constraint.operator ≠ .notEqual) :
    IsConvex (Expression.mk [group] padding text).admits := by
  intro a b c lower upper first last
  simp only [Expression.admits, List.isEmpty_cons, List.any_cons, List.any_nil, Bool.or_false,
    Bool.false_or, List.all_eq_true] at first last ⊢
  intro constraint member
  exact constraint.admits_convex (operators constraint member) lower upper
    (first constraint member) (last constraint member)

/-- Each operator but not-equal admits what lies above a version that it admits, or below one, or
between two; so a group of such operators takes a contiguous run out of a sorted collection. -/
theorem admission_is_convex :
    (∀ (constraint : Constraint) (a b c : Version), (compare a b).isLE → (compare b c).isLE →
      (constraint.operator ∈ [.greaterThan, .greaterThanOrEqual] →
        constraint.admits a → constraint.admits b) ∧
      (constraint.operator ∈ [.lessThan, .lessThanOrEqual] →
        constraint.admits b → constraint.admits a) ∧
      (constraint.operator ∈ [.equal, .implicit, .tilde, .caret] →
        constraint.admits a → constraint.admits c → constraint.admits b)) ∧
    (∀ (group : List Constraint) (padding : Padding) (text : String),
      (∀ constraint ∈ group, constraint.operator ≠ .notEqual) →
      IsConvex (Expression.mk [group] padding text).admits ∧
      ∀ collection : Collection,
        ((collection.versions.Pairwise fun a b => (compare a b).isLE) ∨
          collection.versions.Pairwise fun a b => (compare b a).isLE) →
        collection.versions.filter (Expression.mk [group] padding text).admits <:+:
          collection.versions) := by
  refine ⟨?_, ?_⟩
  · intro constraint a b c lower upper
    refine ⟨?_, ?_, ?_⟩
    · intro operator admitted
      exact constraint.admits_upward operator lower admitted
    · intro operator admitted
      exact constraint.admits_downward operator lower admitted
    · intro operator first last
      refine constraint.admits_between ?_ lower upper first last
      simpa [or_left_comm] using operator
  · intro group padding text operators
    have convex := isConvex_of_group padding text operators
    exact ⟨convex, fun collection sorted => filter_infix convex sorted⟩

/-- A caret range with an upper limit, on versions in descending order of which the outer two are
not admitted. -/
theorem admission_is_convex_descending :
    let range : Constraint :=
      ⟨.caret, ⟨⟨⟨.value 1, .value 2, .absent⟩, .anyRevision⟩, none, "1.2"⟩, .wildcard, "^1.2"⟩
    let limit : Constraint := ⟨.lessThanOrEqual,
      ⟨⟨⟨.value 1, .value 4, .absent⟩, .anyRevision⟩, none, "1.4"⟩, .wildcard, "<= 1.4"⟩
    let low : Version := .ofNumbers 1 2 0
    let middle : Version := ⟨⟨.ofNumbers 1 4 0, .preRelease [.alphanumeric "rc"]⟩, none, "1.4.0-rc"⟩
    let high : Version := ⟨⟨.ofNumbers 1 4 7, .revision [3]⟩, none, "1.4.7-3"⟩
    let below : Version := ⟨⟨.ofNumbers 1 2 0, .preRelease [.alphanumeric "a"]⟩, none, "1.2.0-a"⟩
    let collection : Collection := ⟨[.ofNumbers 1 5 0, high, middle, low, below]⟩
    let expression := Expression.mk [[range, limit]] .wildcard "^1.2, <= 1.4"
    (compare low middle).isLE ∧ (compare middle high).isLE ∧
      range.admits low ∧ range.admits high ∧ range.admits middle ∧
      (∀ constraint ∈ [range, limit], constraint.operator ≠ .notEqual) ∧
      expression.admits low ∧ expression.admits high ∧ expression.admits middle ∧
      (collection.versions.Pairwise fun a b => (compare b a).isLE) ∧
      collection.versions.filter expression.admits <:+: collection.versions := by
  intro range limit low middle high below collection expression
  have lower : (compare low middle).isLE := by decide
  have upper : (compare middle high).isLE := by decide
  have first : range.admits low := by decide
  have last : range.admits high := by decide
  have between := (admission_is_convex.1 range low middle high lower upper).2.2 (by decide) first last
  have operators : ∀ constraint ∈ [range, limit], constraint.operator ≠ .notEqual := by
    simp [range, limit]
  obtain ⟨convex, runs⟩ :=
    admission_is_convex.2 [range, limit] .wildcard "^1.2, <= 1.4" operators
  have start : expression.admits low := by decide
  have stop : expression.admits high := by decide
  have sorted : collection.versions.Pairwise fun a b => (compare b a).isLE := by decide
  exact ⟨lower, upper, first, last, between, operators, start, stop,
    convex low middle high lower upper start stop, sorted, runs collection (.inr sorted)⟩

end Collection

end VersionRange
