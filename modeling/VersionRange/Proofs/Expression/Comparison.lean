import VersionRange.Proofs.Constraint.Operators
import VersionRange.Proofs.Expression.Single

/-! Comparisons with concrete versions.

On a concrete target a comparison says what the order of versions says, whether
it is read from an expression, built from a version or asked of two versions.
-/

set_option autoImplicit false

namespace VersionRange

/-- The spellings of the six comparisons, each with its operator and the relation it stands for. -/
def Operator.comparisons : List (String × Operator × (Ordering → Bool)) :=
  [("", .implicit, Ordering.isEq), ("=", .equal, Ordering.isEq), ("==", .equal, Ordering.isEq),
    ("!=", .notEqual, Ordering.isNe), ("<", .lessThan, Ordering.isLT),
    ("<=", .lessThanOrEqual, Ordering.isLE), ("=<", .lessThanOrEqual, Ordering.isLE),
    (">", .greaterThan, Ordering.isGT), (">=", .greaterThanOrEqual, Ordering.isGE),
    ("=>", .greaterThanOrEqual, Ordering.isGE)]

theorem Operator.parse_comparison {spelling : String} {operator : Operator}
    {relation : Ordering → Bool} (comparison : (spelling, operator, relation) ∈ comparisons) :
    parse spelling = .ok operator ∧ operator.relation? = some relation := by
  simp only [comparisons, List.mem_cons, List.not_mem_nil, or_false, Prod.mk.injEq] at comparison
  rcases comparison with h | h | h | h | h | h | h | h | h | h <;>
    obtain ⟨rfl, rfl, rfl⟩ := h <;> exact ⟨rfl, rfl⟩

theorem Constraint.admits_concrete {constraint : Constraint} {relation : Ordering → Bool}
    (compares : constraint.operator.relation? = some relation)
    (concrete : constraint.version.IsConcrete) (version : Version) :
    constraint.admits version = relation (compare version constraint.version) := by
  rw [admits_eq_relation compares (closed_of_concrete concrete), compareFloor_of_concrete concrete]

namespace Expression

theorem admits_single (constraint : Constraint) (padding : Padding) (text : String)
    (version : Version) :
    (Expression.mk [[constraint]] padding text).admits version = constraint.admits version := by
  simp [admits]

/-- However a comparison with a concrete version is put, and under either padding policy, it holds
exactly of the versions that stand in its relation to that version. -/
theorem comparison_agrees_with_order {spelling : String} {operator : Operator}
    {relation : Ordering → Bool}
    (comparison : (spelling, operator, relation) ∈ Operator.comparisons)
    {text : String} {target : Version} (concrete : Version.parse text = .ok target)
    (padding : Padding) :
    Operator.parse spelling = .ok operator ∧
    ∃ expression, parse padding (spelling ++ text) = .ok expression ∧
      ∀ version : Version,
        expression.admits version = relation (compare version target) ∧
        (Constraint.ofVersion operator target).admits version = relation (compare version target) ∧
        version.satisfies operator target = relation (compare version target) := by
  obtain ⟨spelled, compares⟩ := Operator.parse_comparison comparison
  obtain ⟨form, _⟩ := Version.parse_eq_ok_iff.mp concrete
  have read := Version.parseTarget_of_parse concrete padding
  refine ⟨spelled, _, parse_single spelled read, ?_⟩
  intro version
  refine ⟨?_, ?_, ?_⟩
  · rw [admits_single]
    exact Constraint.admits_concrete compares form version
  · exact Constraint.admits_concrete compares form version
  · exact Constraint.admits_concrete compares form version

/-- The reversed spelling of at-most, before a revision with build metadata. -/
theorem comparison_agrees_with_revision :
    ("=<", .lessThanOrEqual, Ordering.isLE) ∈ Operator.comparisons ∧
    Version.parse "1.2.3-4.0+b" =
      .ok ⟨⟨.ofNumbers 1 2 3, .revision [4, 0]⟩, some "b", "1.2.3-4.0+b"⟩ ∧
    ∃ expression, parse .zero ("=<" ++ "1.2.3-4.0+b") = .ok expression ∧
      expression.admits (Version.ofNumbers 1 2 3) = true := by
  have comparison : ("=<", .lessThanOrEqual, Ordering.isLE) ∈ Operator.comparisons := by
    simp [Operator.comparisons]
  have concrete : Version.parse "1.2.3-4.0+b" =
      .ok ⟨⟨.ofNumbers 1 2 3, .revision [4, 0]⟩, some "b", "1.2.3-4.0+b"⟩ := by rfl
  obtain ⟨_, expression, read, agrees⟩ := comparison_agrees_with_order comparison concrete .zero
  exact ⟨comparison, concrete, expression, read, (agrees _).1.trans (by decide)⟩

end Expression

end VersionRange
