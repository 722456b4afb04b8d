import VersionRange.Proofs.Expression.Single
import VersionRange.Proofs.Expression.Splitting

/-! What is read.

An expression is read when all its pieces are, a piece when all its terms are,
and a term when its operator and its target are. So reading is a relation between
the parts of a text and what they are read as, in order. No bar is left over in a
piece that is read.
-/

set_option autoImplicit false

namespace VersionRange

namespace Term

variable {padding : Padding} {term : Term} {constraint : Constraint}

theorem toConstraint_eq_ok_iff : term.toConstraint padding = .ok constraint ↔
    ∃ operator version, Operator.parse (String.ofList term.operator) = .ok operator ∧
      Version.parseTarget padding (String.ofList (Text.trim term.target)) = .ok version ∧
      constraint = ⟨operator, version, padding, String.ofList term.text⟩ := by
  unfold toConstraint
  dsimp only
  constructor
  · intro read
    split at read
    · cases read
    · next operator spelled =>
      split at read
      · cases read
      · next version target => exact ⟨operator, version, spelled, target, (Except.ok.inj read).symm⟩
  · rintro ⟨operator, version, spelled, target, rfl⟩
    simp only [spelled, target]

theorem bar_not_mem_text (written : term.IsWritten)
    (read : term.toConstraint padding = .ok constraint) : '|' ∉ term.text := by
  obtain ⟨operator, version, spelled, target, _⟩ := toConstraint_eq_ok_iff.mp read
  have inOperator : '|' ∉ term.operator := Text.not_mem_of_all written.operator (by decide)
  have inGap : '|' ∉ term.gap := Text.not_mem_of_all written.gap (by decide)
  have chars := Version.all_isTargetChar_of_parseTarget target
  rw [String.toList_ofList] at chars
  have inTarget : '|' ∉ term.target := fun member =>
    Text.not_mem_of_all chars (by decide) (Text.mem_trim member (by decide))
  simp [Term.text, inOperator, inGap, inTarget]

end Term

namespace Expression

variable {padding : Padding} {piece : List Char} {group : List Constraint}

def IsGroup (padding : Padding) (piece : List Char) (group : List Constraint) : Prop :=
  piece ≠ [] ∧ ∃ terms, Term.Splits piece terms ∧
    List.Forall₂ (fun term constraint => term.toConstraint padding = .ok constraint) terms group

/-- The whole expression, which errors quote, has no part in what a piece is read as. -/
theorem parseGroup_eq_ok_iff {whole : String} :
    parseGroup padding whole piece = .ok group ↔ IsGroup padding piece group := by
  unfold parseGroup IsGroup
  by_cases empty : piece = []
  · simp [empty]
  · rw [if_neg (by simpa using empty)]
    constructor
    · intro read
      split at read
      · contradiction
      · next terms found =>
        exact ⟨empty, terms, Term.splitAll?_eq_some_iff.mp found, mapM_eq_ok_iff.mp read⟩
    · rintro ⟨_, terms, splits, read⟩
      rw [Term.splitAll?_eq_some_iff.mpr splits]
      exact mapM_eq_ok_iff.mpr read

theorem parse_eq_ok_iff {text : String} {expression : Expression}
    (filled : Text.trim text.toList ≠ []) : parse padding text = .ok expression ↔
      List.Forall₂ (IsGroup padding) (pieces text.toList) expression.groups ∧
        expression = ⟨expression.groups, padding, text⟩ := by
  have all (groups : List (List Constraint)) :
      (pieces text.toList).mapM (parseGroup padding text) = .ok groups ↔
        List.Forall₂ (IsGroup padding) (pieces text.toList) groups := by
    simp only [mapM_eq_ok_iff, parseGroup_eq_ok_iff]
  rw [parse, if_neg (by simpa using filled)]
  constructor
  · intro read
    cases found : (pieces text.toList).mapM (parseGroup padding text) with
    | error error =>
      rw [found] at read
      contradiction
    | ok groups =>
      rw [found] at read
      cases read
      exact ⟨(all groups).mp found, rfl⟩
  · rintro ⟨groups, same⟩
    rw [(all _).mpr groups, same]
    rfl

theorem parse_of_blank {text : String} (blank : Text.trim text.toList = []) :
    parse padding text = .ok ⟨[[.any padding]], padding, text⟩ := by
  rw [parse, if_pos (by simpa using blank)]

theorem IsGroup.bar_not_mem (read : IsGroup padding piece group) : '|' ∉ piece := by
  obtain ⟨_, terms, splits, constraints⟩ := read
  intro member
  obtain ⟨term, inside, here⟩ := splits.exists_mem_text member (by decide)
  obtain ⟨constraint, _, found⟩ := exists_of_forall₂ constraints term inside
  exact Term.bar_not_mem_text (splits.isWritten term inside) found here

end Expression

end VersionRange
