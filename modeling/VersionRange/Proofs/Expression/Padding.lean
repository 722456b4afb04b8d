import VersionRange.Proofs.Constraint.Padding
import VersionRange.Proofs.Expression.Reading

/-! Reading with and without padding.

The padding policy decides nothing about which texts are read: what is read under
one policy is read under the other, group by group and term by term, with the same
operators and texts. What it decides is how an unwritten part is matched.
-/

set_option autoImplicit false

namespace VersionRange

variable {padding : Padding}

theorem Term.exists_opened {term : Term} {constraint : Constraint}
    (read : term.toConstraint padding = .ok constraint) :
    ∃ opened, term.toConstraint .wildcard = .ok opened ∧ constraint.OpensTo opened := by
  obtain ⟨operator, version, spelled, target, rfl⟩ := toConstraint_eq_ok_iff.mp read
  obtain ⟨again, reread, shared⟩ := Version.exists_parseTarget target .wildcard
  exact ⟨_, toConstraint_eq_ok_iff.mpr ⟨operator, again, spelled, reread, rfl⟩, rfl, shared, rfl, rfl⟩

namespace Expression

theorem IsGroup.exists_opened {piece : List Char} {group : List Constraint}
    (read : IsGroup padding piece group) :
    ∃ opened, IsGroup .wildcard piece opened ∧ List.Forall₂ Constraint.OpensTo group opened := by
  obtain ⟨filled, terms, splits, constraints⟩ := read
  obtain ⟨opened, reread, opens⟩ := exists_forall₂ constraints fun _ _ => Term.exists_opened
  exact ⟨opened, ⟨filled, terms, splits, reread⟩, opens⟩

theorem opensTo_any (padding : Padding) : (Constraint.any padding).OpensTo (.any .wildcard) where
  operator := rfl
  version := ⟨rfl, rfl, rfl, Release.floor_impliedSuffix .., fun written => by contradiction⟩
  text := rfl
  policy := rfl

theorem exists_opened {text : String} {expression : Expression}
    (read : parse padding text = .ok expression) :
    ∃ opened, parse .wildcard text = .ok opened ∧
      List.Forall₂ (List.Forall₂ Constraint.OpensTo) expression.groups opened.groups := by
  by_cases blank : Text.trim text.toList = []
  · rw [parse_of_blank blank] at read
    cases read
    exact ⟨_, parse_of_blank blank, .cons (.cons (opensTo_any padding) .nil) .nil⟩
  · obtain ⟨groups, _⟩ := (parse_eq_ok_iff blank).mp read
    obtain ⟨opened, reread, opens⟩ := exists_forall₂ groups fun _ _ => IsGroup.exists_opened
    exact ⟨⟨opened, .wildcard, text⟩, (parse_eq_ok_iff blank).mpr ⟨reread, rfl⟩, opens⟩

/-- The padding policy decides nothing about reading. What compares with the floor is the same
under both policies, with its bounds; equality and at-most admit no more with padding, not-equal
and greater-than no less. -/
theorem padding_narrows_matching (text : String) :
    ((∃ target, Version.parseTarget .zero text = .ok target) ↔
      ∃ target, Version.parseTarget .wildcard text = .ok target) ∧
    ∀ (spelling : String) (operator : Operator) (target again : Version),
      Operator.parse spelling = .ok operator → Version.parseTarget .zero text = .ok target →
      Version.parseTarget .wildcard text = .ok again →
      let padded : Constraint := ⟨operator, target, .zero, spelling ++ text⟩
      let opened : Constraint := ⟨operator, again, .wildcard, spelling ++ text⟩
      parse .zero (spelling ++ text) = .ok ⟨[[padded]], .zero, spelling ++ text⟩ ∧
        parse .wildcard (spelling ++ text) = .ok ⟨[[opened]], .wildcard, spelling ++ text⟩ ∧
        (operator ∈ [.lessThan, .greaterThanOrEqual, .tilde, .caret] →
          (∀ version, padded.admits version = opened.admits version) ∧
            padded.lower? = opened.lower? ∧ padded.upper? = opened.upper?) ∧
        (operator ∈ [.implicit, .equal, .lessThanOrEqual] →
          ∀ version, padded.admits version → opened.admits version) ∧
        (operator ∈ [.notEqual, .greaterThan] →
          ∀ version, opened.admits version → padded.admits version) := by
  constructor
  · constructor
    · rintro ⟨target, read⟩
      obtain ⟨again, reread, _⟩ := Version.exists_parseTarget read .wildcard
      exact ⟨again, reread⟩
    · rintro ⟨target, read⟩
      obtain ⟨again, reread, _⟩ := Version.exists_parseTarget read .zero
      exact ⟨again, reread⟩
  · intro spelling operator target again spelled read reread
    have opens : Constraint.OpensTo ⟨operator, target, .zero, spelling ++ text⟩
        ⟨operator, again, .wildcard, spelling ++ text⟩ :=
      ⟨rfl, Version.sharesText_of_parseTarget read reread, rfl, rfl⟩
    refine ⟨parse_single spelled read, parse_single spelled reread, ?_, ?_, ?_⟩
    · intro floor
      apply opens.agree_of_floor
      simp only [List.mem_cons, List.not_mem_nil, or_false] at floor
      rcases floor with rfl | rfl | rfl | rfl <;> rfl
    · intro matching version admitted
      simp only [List.mem_cons, List.not_mem_nil, or_false] at matching
      rcases matching with rfl | rfl | rfl <;> exact opens.admits_opened rfl rfl admitted
    · intro differing version admitted
      simp only [List.mem_cons, List.not_mem_nil, or_false] at differing
      rcases differing with rfl | rfl <;> exact opens.admits_padded rfl rfl admitted

/-- A target whose revision stands behind an unwritten patch, before an alias of at-most. -/
theorem padding_narrows_revision :
    let suffix := Suffix.revision [3]
    let target : Version := ⟨⟨⟨.value 1, .value 2, .absent⟩, suffix⟩, none, "1.2-3"⟩
    let padded : Constraint := ⟨.lessThanOrEqual, target, .zero, "=<1.2-3"⟩
    let opened : Constraint := ⟨.lessThanOrEqual, target, .wildcard, "=<1.2-3"⟩
    Operator.parse "=<" = .ok .lessThanOrEqual ∧ Version.parseTarget .zero "1.2-3" = .ok target ∧
      Version.parseTarget .wildcard "1.2-3" = .ok target ∧
      padded.admits (.ofNumbers 1 2 0) ∧ opened.admits (.ofNumbers 1 2 0) ∧
      ¬padded.admits (.ofNumbers 1 2 1) ∧ opened.admits (.ofNumbers 1 2 1) := by
  intro suffix target padded opened
  have spelled : Operator.parse "=<" = .ok .lessThanOrEqual := rfl
  have read : Version.parseTarget .zero "1.2-3" = .ok target := by rfl
  have reread : Version.parseTarget .wildcard "1.2-3" = .ok target := by rfl
  obtain ⟨_, _, _, matching, _⟩ :=
    (padding_narrows_matching "1.2-3").2 "=<" .lessThanOrEqual target target spelled read reread
  have admitted : padded.admits (.ofNumbers 1 2 0) := by decide
  exact ⟨spelled, read, reread, admitted, matching (by simp) _ admitted, by decide, by decide⟩

end Expression

end VersionRange
