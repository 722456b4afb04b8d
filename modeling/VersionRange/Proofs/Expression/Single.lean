import VersionRange.Proofs.Expression.Term
import VersionRange.Proofs.Operator
import VersionRange.Proofs.Text.Trim

/-! Expressions of one term.

An operator spelling written right in front of a target is one term, since a
target holds no blank, no separator, no bar and no operator character.
-/

set_option autoImplicit false

namespace VersionRange

namespace Text

theorem toNat_of_isAlpha {c : Char} (letter : c.isAlpha) : 0x41 ≤ c.toNat ∧ c.toNat ≤ 0x7A := by
  have cases : (c.isUpper || c.isLower) = true := letter
  rw [Bool.or_eq_true] at cases
  rcases cases with upper | lower
  · have range : 0x41 ≤ c.toNat ∧ c.toNat ≤ 0x5A := of_decide_eq_true upper
    omega
  · have range := Bool.and_eq_true_iff.mp lower
    have start : 0x61 ≤ c.toNat := of_decide_eq_true range.1
    have stop : c.toNat ≤ 0x7A := of_decide_eq_true range.2
    omega

end Text

namespace Version

theorem toNat_of_isTargetChar {c : Char} (target : isTargetChar c) :
    0x2A ≤ c.toNat ∧ c.toNat ≤ 0x7A := by
  have parts : ((((c.isAlpha || c.isDigit) || c == '-') || c == '.') || c == '+' || c == '*') = true :=
    target
  simp only [Bool.or_eq_true, beq_iff_eq] at parts
  rcases parts with ((((letter | digit) | rfl) | rfl) | rfl) | rfl
  · have range := Text.toNat_of_isAlpha letter
    omega
  · have range : 0x30 ≤ c.toNat ∧ c.toNat ≤ 0x39 := Char.isDigit_iff_toNat.mp digit
    omega
  all_goals decide

theorem not_isSeparator_of_isTargetChar {c : Char} (target : isTargetChar c) :
    Term.isSeparator c = false := by
  rw [Bool.eq_false_iff]
  intro separator
  simp only [Term.isSeparator, Text.isAsciiBlank, Bool.or_eq_true, beq_iff_eq] at separator
  rcases separator with ((((rfl | rfl) | rfl) | rfl) | rfl) | rfl <;> contradiction

theorem not_isOperatorChar_of_isTargetChar {c : Char} (target : isTargetChar c) :
    Term.isOperatorChar c = false := by
  rw [Bool.eq_false_iff]
  intro spelled
  simp only [Term.isOperatorChar, Bool.or_eq_true, beq_iff_eq] at spelled
  rcases spelled with ((((rfl | rfl) | rfl) | rfl) | rfl) | rfl <;> contradiction

end Version

namespace Term

def isSolidChar (c : Char) : Bool :=
  isOperatorChar c || Version.isTargetChar c

theorem not_isBlank_of_isSolidChar {c : Char} (solid : isSolidChar c) : Text.isBlank c = false := by
  have range : 0x21 ≤ c.toNat ∧ c.toNat ≤ 0x7E := by
    rw [isSolidChar, Bool.or_eq_true] at solid
    rcases solid with spelled | target
    · simp only [isOperatorChar, Bool.or_eq_true, beq_iff_eq] at spelled
      rcases spelled with ((((rfl | rfl) | rfl) | rfl) | rfl) | rfl <;> decide
    · have range := Version.toNat_of_isTargetChar target
      omega
  simp only [Text.isBlank, Bool.or_eq_false_iff, Bool.and_eq_false_iff, decide_eq_false_iff_not,
    beq_eq_false_iff_ne]
  omega

variable {spelling text : String} {operator : Operator} {padding : Padding} {target : Version}

theorem isWritten_of_parse (spelled : Operator.parse spelling = .ok operator)
    (read : Version.parseTarget padding text = .ok target) :
    IsWritten ⟨spelling.toList, [], text.toList⟩ where
  operator := Operator.all_isOperatorChar spelled
  gap := rfl
  nonempty := Version.ne_empty_of_parseTarget read
  target := by
    apply Text.all_mono (Version.all_isTargetChar_of_parseTarget read)
    intro c target
    rw [Version.not_isSeparator_of_isTargetChar target]
    rfl
  gapless := fun _ => rfl
  unspelled := by
    have chars := Version.all_isTargetChar_of_parseTarget read
    rw [List.all_eq_true] at chars
    intro _ c first
    exact Version.not_isOperatorChar_of_isTargetChar (chars c (List.mem_of_mem_head? first))

theorem all_isSolidChar (spelled : Operator.parse spelling = .ok operator)
    (read : Version.parseTarget padding text = .ok target) :
    (spelling ++ text).toList.all isSolidChar := by
  rw [String.toList_append, List.all_append, Bool.and_eq_true]
  constructor
  · apply Text.all_mono (Operator.all_isOperatorChar spelled)
    intro c spelled
    simp [isSolidChar, spelled]
  · apply Text.all_mono (Version.all_isTargetChar_of_parseTarget read)
    intro c target
    simp [isSolidChar, target]

theorem trim_of_all_isSolidChar {text : List Char} (solid : text.all isSolidChar) :
    Text.trim text = text := by
  apply Text.trim_of_all
  apply Text.all_mono solid
  intro c solid
  rw [not_isBlank_of_isSolidChar solid]
  rfl

theorem toConstraint_of_parse (spelled : Operator.parse spelling = .ok operator)
    (read : Version.parseTarget padding text = .ok target) :
    toConstraint padding ⟨spelling.toList, [], text.toList⟩ =
      .ok ⟨operator, target, padding, spelling ++ text⟩ := by
  have trimmed : Text.trim text.toList = text.toList := by
    apply trim_of_all_isSolidChar
    apply Text.all_mono (Version.all_isTargetChar_of_parseTarget read)
    intro c target
    simp [isSolidChar, target]
  have whole : String.ofList (spelling.toList ++ [] ++ text.toList) = spelling ++ text := by
    rw [List.append_nil, ← String.toList_append, String.ofList_toList]
  simp only [toConstraint, Term.text, trimmed, String.ofList_toList, spelled, read,
    whole]

end Term

namespace Expression

theorem splitBars_of_not_mem {text : List Char} (bare : '|' ∉ text) : splitBars text = [text] := by
  induction text with
  | nil => rfl
  | cons c rest ih =>
    simp only [List.mem_cons, not_or] at bare
    unfold splitBars
    split
    · contradiction
    · next first => simp_all
    · next first => simp_all

variable {spelling text : String} {operator : Operator} {padding : Padding} {target : Version}

theorem parse_single (spelled : Operator.parse spelling = .ok operator)
    (read : Version.parseTarget padding text = .ok target) :
    parse padding (spelling ++ text) =
      .ok ⟨[[⟨operator, target, padding, spelling ++ text⟩]], padding, spelling ++ text⟩ := by
  have chars := Term.all_isSolidChar spelled read
  have trimmed := Term.trim_of_all_isSolidChar chars
  have bare : '|' ∉ (spelling ++ text).toList := Text.not_mem_of_all chars (by decide)
  -- without a bar or white space the whole text is one group
  have nonempty : (spelling ++ text).toList ≠ [] := by
    simp [Version.ne_empty_of_parseTarget read]
  have terms : Term.splitAll? (spelling ++ text).toList =
      some [⟨spelling.toList, [], text.toList⟩] := by
    have whole : (spelling ++ text).toList = Term.text ⟨spelling.toList, [], text.toList⟩ := by
      simp [Term.text]
    rw [whole]
    exact Term.splitAll?_text (Term.isWritten_of_parse spelled read)
  have group : parseGroup padding (spelling ++ text) (spelling ++ text).toList =
      .ok [⟨operator, target, padding, spelling ++ text⟩] := by
    rw [parseGroup, if_neg (by simpa using nonempty), terms]
    simp only [List.mapM_cons, List.mapM_nil, Term.toConstraint_of_parse spelled read]
    rfl
  have alone : pieces (spelling ++ text).toList = [(spelling ++ text).toList] := by
    rw [pieces, splitBars_of_not_mem bare, List.map_cons, List.map_nil, trimmed]
  rw [parse, trimmed, if_neg (by simpa using nonempty), alone]
  simp only [List.mapM_cons, List.mapM_nil, group]
  rfl

end Expression

end VersionRange
