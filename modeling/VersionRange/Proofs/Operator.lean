import Mathlib.Logic.ExistsUnique
import VersionRange.Expression.Term
import VersionRange.Operator

/-! Spellings of operators.

An operator is written as its symbol or in one of its other forms. No form belongs to
two operators, exactly the forms are read, and they are what is listed as supported.
-/

set_option autoImplicit false

namespace VersionRange.Operator

/-- The texts that an operator may be written as. -/
def forms : Operator → List String
  | .implicit => [""]
  | .equal => ["=", "=="]
  | .notEqual => ["!="]
  | .lessThan => ["<"]
  | .lessThanOrEqual => ["<=", "=<"]
  | .greaterThan => [">"]
  | .greaterThanOrEqual => [">=", "=>"]
  | .tilde => ["~", "~>"]
  | .caret => ["^"]

variable {spelling : String} {operator other : Operator}

theorem mem_spellings_of_parse (spelled : parse spelling = .ok operator) :
    (spelling, operator) ∈ spellings := by
  unfold parse at spelled
  split at spelled
  · next found =>
    cases spelled
    obtain ⟨before, behind, split, _⟩ := List.lookup_eq_some_iff.mp found
    exact split ▸ List.mem_append_right before (List.mem_cons_self ..)
  · contradiction

theorem mem_forms_of_mem_spellings (listed : (spelling, operator) ∈ spellings) :
    spelling ∈ operator.forms := by
  have table : ∀ entry ∈ spellings, entry.1 ∈ entry.2.forms := by decide
  exact table _ listed

theorem parse_eq_ok_iff : parse spelling = .ok operator ↔ spelling ∈ operator.forms := by
  constructor
  · intro spelled
    exact mem_forms_of_mem_spellings (mem_spellings_of_parse spelled)
  · have table : ∀ form ∈ operator.forms, spellings.lookup form = some operator := by
      cases operator <;> decide
    intro form
    rw [parse, table spelling form]

theorem eq_of_mem_forms (first : spelling ∈ operator.forms) (second : spelling ∈ other.forms) :
    operator = other := by
  rw [← parse_eq_ok_iff] at first second
  exact Except.ok.inj (first.symm.trans second)

theorem mem_supported_iff :
    spelling ∈ supported ↔ ∃! operator : Operator, spelling ∈ operator.forms := by
  constructor
  · intro listed
    obtain ⟨⟨_, operator⟩, entry, rfl⟩ := List.mem_map.mp listed
    have form := mem_forms_of_mem_spellings entry
    exact ⟨operator, form, fun other again => eq_of_mem_forms again form⟩
  · rintro ⟨operator, form, _⟩
    exact List.mem_map_of_mem (mem_spellings_of_parse (parse_eq_ok_iff.mpr form))

theorem exists_parse_iff : (∃ operator, parse spelling = .ok operator) ↔ spelling ∈ supported := by
  rw [mem_supported_iff]
  simp only [parse_eq_ok_iff]
  constructor
  · rintro ⟨operator, form⟩
    exact ⟨operator, form, fun other again => eq_of_mem_forms again form⟩
  · exact ExistsUnique.exists

theorem parse_eq_error_iff {error : InvalidOperator} :
    parse spelling = .error error ↔ spelling ∉ supported ∧ error = ⟨spelling⟩ := by
  rw [← exists_parse_iff, parse]
  cases spellings.lookup spelling with
  | none => simp [eq_comm]
  | some operator => simp

theorem all_isOperatorChar (spelled : parse spelling = .ok operator) :
    spelling.toList.all Term.isOperatorChar := by
  have table : ∀ entry ∈ spellings, entry.1.toList.all Term.isOperatorChar := by decide
  exact table _ (mem_spellings_of_parse spelled)

theorem isEquality_iff (spelled : parse spelling = .ok operator) :
    operator.isEquality ↔ spelling ∈ ["", "=", "=="] := by
  have table : ∀ entry ∈ spellings, entry.2.isEquality ↔ entry.1 ∈ ["", "=", "=="] := by decide
  exact table _ (mem_spellings_of_parse spelled)

end VersionRange.Operator
