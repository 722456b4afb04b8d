import VersionRange.Proofs.Expression.Comparison
import VersionRange.Proofs.Expression.Padding
import VersionRange.Proofs.Expression.RoundTrip
import VersionRange.Stored

/-! Expressions that are stored and read back.

The stored form is the text, without the padding policy. It can always be read
back, as the same terms without padding. That changes nothing for an expression
that was read without padding, or in which no constraint relies on it.
-/

set_option autoImplicit false

namespace VersionRange

section

variable {A B : Type} {p : A → Bool} {q : B → Bool} {first : List A} {second : List B}

theorem all_congr (same : List.Forall₂ (fun a b => p a = q b) first second) :
    first.all p = second.all q := by
  induction same with
  | nil => rfl
  | cons head _ ih => rw [List.all_cons, List.all_cons, head, ih]

theorem any_congr (same : List.Forall₂ (fun a b => p a = q b) first second) :
    first.any p = second.any q := by
  induction same with
  | nil => rfl
  | cons head _ ih => rw [List.any_cons, List.any_cons, head, ih]

end

namespace Expression

variable {padding : Padding}

theorem text_of_parse {text : String} {expression : Expression}
    (read : parse padding text = .ok expression) : expression.text = text := by
  by_cases blank : Text.trim text.toList = []
  · rw [parse_of_blank blank] at read
    cases read
    rfl
  · obtain ⟨_, same⟩ := (parse_eq_ok_iff blank).mp read
    rw [same]

theorem decode_encode {text : String} {expression : Expression}
    (read : parse padding text = .ok expression) :
    decode expression.encode = parse .wildcard text := by
  rw [decode, encode, text_of_parse read]

theorem admits_congr {first second : Expression} {version : Version}
    (same : List.Forall₂ (List.Forall₂ fun a b => a.admits version = b.admits version)
      first.groups second.groups) : first.admits version = second.admits version := by
  have some : first.groups.isEmpty = second.groups.isEmpty := by
    rw [Bool.eq_iff_iff, List.isEmpty_iff_length_eq_zero, List.isEmpty_iff_length_eq_zero,
      same.length_eq]
  have any := any_congr (same.imp fun _ _ => all_congr)
  rw [admits, admits, some, any]

def isPadded (expression : Expression) : Bool :=
  expression.groups.any fun group => group.any Constraint.isPadded

theorem admits_of_unpadded {padded opened : Expression}
    (opens : List.Forall₂ (List.Forall₂ Constraint.OpensTo) padded.groups opened.groups)
    (unpadded : padded.isPadded = false) (version : Version) :
    padded.admits version = opened.admits version := by
  simp only [isPadded, List.any_eq_false, Bool.not_eq_true] at unpadded
  apply admits_congr
  apply ((List.forall₂_and_left _ _).mpr ⟨unpadded, opens⟩).imp
  rintro group other ⟨alone, constraints⟩
  apply ((List.forall₂_and_left _ _).mpr ⟨alone, constraints⟩).imp
  rintro constraint again ⟨written, opened⟩
  exact opened.admits_of_unpadded written version

theorem exists_admits_ne {padded opened : Expression} {constraint : Constraint}
    (opens : List.Forall₂ (List.Forall₂ Constraint.OpensTo) padded.groups opened.groups)
    (alone : padded.groups = [[constraint]]) (policy : constraint.padding = .zero)
    (relies : constraint.isPadded) : ∃ version, padded.admits version ≠ opened.admits version := by
  obtain ⟨groups, _, _⟩ := padded
  obtain ⟨others, _, _⟩ := opened
  subst alone
  cases opens with
  | cons group none =>
    cases none
    cases group with
    | cons first none =>
      cases none
      simp only [admits_single]
      exact first.exists_admits_ne policy relies

/-- Reading back what is stored keeps the admitted versions of whatever was read without padding,
and of the expression that no text was read for. What was read with padding is read back without,
which changes nothing if no constraint relies on it, and changes a lone constraint that does. -/
theorem decode_encode_admits :
    (∀ text expression, parse .wildcard text = .ok expression →
      decode expression.encode = .ok expression) ∧
    (∃ again, decode unrestricted.encode = .ok again ∧
      ∀ version, again.admits version = unrestricted.admits version) ∧
    ∀ text expression, parse .zero text = .ok expression →
      ∃ again, decode expression.encode = .ok again ∧
        List.Forall₂ (List.Forall₂ Constraint.OpensTo) expression.groups again.groups ∧
        (expression.isPadded = false →
          ∀ version, again.admits version = expression.admits version) ∧
        ∀ constraint, expression.groups = [[constraint]] → constraint.isPadded →
          ∃ version, again.admits version ≠ expression.admits version := by
  refine ⟨?_, ?_, ?_⟩
  · intro text expression read
    rw [decode_encode read, read]
  · refine ⟨_, parse_of_blank rfl, ?_⟩
    intro version
    rw [admits_single, Constraint.admits_any]
    rfl
  · intro text expression read
    obtain ⟨again, reread, opens⟩ := exists_opened read
    refine ⟨again, (decode_encode read).trans reread, opens, ?_, ?_⟩
    · intro unpadded version
      exact (admits_of_unpadded opens unpadded version).symm
    · intro constraint alone relies
      have group : [constraint] ∈ expression.groups := by simp [alone]
      have policy := (isReread_of_parse read _ group constraint (List.mem_singleton_self _)).policy
      obtain ⟨version, changed⟩ := exists_admits_ne opens alone policy relies
      exact ⟨version, changed.symm⟩

/-- A caret range of a padded target, which is read back as it was, and a padded target alone. -/
theorem decode_encode_admits_caret :
    let range : Constraint :=
      ⟨.caret, ⟨⟨⟨.value 1, .value 2, .absent⟩, .bare⟩, none, "1.2"⟩, .zero, "^1.2"⟩
    let matching : Constraint :=
      ⟨.notEqual, ⟨⟨⟨.value 1, .value 2, .absent⟩, .bare⟩, none, "1.2"⟩, .zero, "!=1.2"⟩
    parse .zero "^1.2" = .ok ⟨[[range]], .zero, "^1.2"⟩ ∧
      parse .zero "!=1.2" = .ok ⟨[[matching]], .zero, "!=1.2"⟩ ∧
      (Expression.mk [[range]] .zero "^1.2").isPadded = false ∧ matching.isPadded ∧
      (∃ again, decode "^1.2" = .ok again ∧ ∀ version, again.admits version = range.admits version) ∧
      ∃ again, decode "!=1.2" = .ok again ∧ ∃ version, again.admits version ≠ matching.admits version := by
  intro range matching
  have read := parse_single (show Operator.parse "^" = .ok .caret from rfl)
    (show Version.parseTarget .zero "1.2" = .ok range.version from rfl)
  have matchingRead := parse_single (show Operator.parse "!=" = .ok .notEqual from rfl)
    (show Version.parseTarget .zero "1.2" = .ok matching.version from rfl)
  rw [show "^" ++ "1.2" = "^1.2" by decide] at read
  rw [show "!=" ++ "1.2" = "!=1.2" by decide] at matchingRead
  obtain ⟨again, decoded, _, kept, _⟩ := decode_encode_admits.2.2 _ _ read
  obtain ⟨other, matchingDecoded, _, _, changed⟩ := decode_encode_admits.2.2 _ _ matchingRead
  refine ⟨read, matchingRead, by decide, by decide, ⟨again, decoded, ?_⟩, other, matchingDecoded, ?_⟩
  · intro version
    rw [kept (by decide), admits_single]
  · obtain ⟨version, differs⟩ := changed matching rfl (by decide)
    rw [admits_single] at differs
    exact ⟨version, differs⟩

/-- The padded `1.2` is version 1.2.0 alone, and is read back as all versions that start with it. -/
theorem decode_forgets_padding :
    ∃ expression again, parse .zero "1.2" = .ok expression ∧
      decode expression.encode = .ok again ∧
      expression.admits (.ofNumbers 1 2 1) = false ∧ again.admits (.ofNumbers 1 2 1) = true := by
  have read := parse_single (show Operator.parse "" = .ok .implicit from rfl)
    (show Version.parseTarget .zero "1.2" =
      .ok ⟨⟨⟨.value 1, .value 2, .absent⟩, .bare⟩, none, "1.2"⟩ from rfl)
  have reread := parse_single (show Operator.parse "" = .ok .implicit from rfl)
    (show Version.parseTarget .wildcard "1.2" =
      .ok ⟨⟨⟨.value 1, .value 2, .absent⟩, .anyRevision⟩, none, "1.2"⟩ from rfl)
  rw [show "" ++ "1.2" = "1.2" by decide] at read reread
  exact ⟨_, _, read, reread, by decide, by decide⟩

end Expression

end VersionRange
