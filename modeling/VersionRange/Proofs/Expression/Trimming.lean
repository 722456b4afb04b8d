import VersionRange.Proofs.Expression.Single
import VersionRange.Proofs.Expression.Splitting

/-! Trimmed groups.

Trimming a group takes away white space of every kind from its ends, of which some
separates terms. A layout of terms whose targets hold no white space stays a layout
of the same terms, since each term begins and ends with another character.
-/

set_option autoImplicit false

namespace VersionRange

namespace Text

theorem trimEnd_append {front : List Char} (filled : front ≠ [])
    (stop : ∀ c ∈ front.getLast?, isBlank c = false) (rest : List Char) :
    trimEnd (front ++ rest) = front ++ trimEnd rest := by
  cases reversed : front.reverse with
  | nil => simp [filled] at reversed
  | cons c others =>
    have last : c ∈ front.getLast? := by
      rw [← List.head?_reverse, reversed]
      rfl
    rw [trimEnd, trimEnd, List.reverse_append, reversed, dropWhile_stop (stop c last),
      List.reverse_append, ← reversed, List.reverse_reverse]

theorem all_of_suffix {inside : Char → Bool} {part whole : List Char} (all : whole.all inside)
    (suffix : part <:+ whole) : part.all inside := by
  rw [List.all_eq_true] at all ⊢
  exact fun c member => all c (suffix.subset member)

theorem all_of_prefix {inside : Char → Bool} {part whole : List Char} (all : whole.all inside)
    (front : part <+: whole) : part.all inside := by
  rw [List.all_eq_true] at all ⊢
  exact fun c member => all c (front.subset member)

end Text

namespace Term

/-- Whether no white space stands in the target, not even such as separates no terms. -/
def IsSolid (term : Term) : Prop :=
  term.target.all fun c => !Text.isBlank c

theorem isBlank_of_isOperatorChar {c : Char} (spelled : isOperatorChar c) : Text.isBlank c = false :=
  not_isBlank_of_isSolidChar (by simp [isSolidChar, spelled])

section

variable {term : Term}

theorem IsWritten.text_ne_nil (written : term.IsWritten) : term.text ≠ [] := by
  simp [Term.text, written.nonempty]

theorem IsWritten.head_not_blank (written : term.IsWritten) (solid : term.IsSolid) :
    ∀ c ∈ term.text.head?, Text.isBlank c = false := by
  intro c first
  by_cases implicit : term.operator = []
  · rw [Term.text, implicit, written.gapless implicit] at first
    have here := List.all_eq_true.mp solid c (List.mem_of_mem_head? first)
    simpa using here
  · rw [Term.text, List.append_assoc] at first
    exact isBlank_of_isOperatorChar (Text.head?_append_of_all implicit written.operator c first)

theorem IsWritten.last_not_blank (written : term.IsWritten) (solid : term.IsSolid) :
    ∀ c ∈ term.text.getLast?, Text.isBlank c = false := by
  intro c last
  rw [Term.text, List.getLast?_append_of_ne_nil _ written.nonempty] at last
  have here := List.all_eq_true.mp solid c (List.mem_of_mem_getLast? last)
  simpa using here

end

variable {text : List Char} {terms : List Term}

theorem Splits.ne_nil {term : Term} (splits : Splits text (term :: terms)) : text ≠ [] := by
  cases splits with
  | term separators written ends others => simp [written.text_ne_nil]

theorem Splits.dropWhile (splits : Splits text terms) (solid : ∀ term ∈ terms, term.IsSolid) :
    Splits (text.dropWhile Text.isBlank) terms := by
  cases splits with
  | done separators => exact .done (Text.all_of_suffix separators (List.dropWhile_suffix _))
  | @term leading rest term terms separators written ends others =>
    -- the term starts with a character that is no blank, so only separators are dropped
    obtain ⟨c, tail, start⟩ := List.exists_cons_of_ne_nil
      (List.append_ne_nil_of_left_ne_nil written.text_ne_nil rest)
    have stop : Text.isBlank c = false := by
      apply written.head_not_blank (solid term (List.mem_cons_self ..)) c
      rw [← List.head?_append_of_ne_nil _ written.text_ne_nil, start]
      rfl
    rw [start, Text.dropWhile_stop stop, ← start]
    exact .term (Text.all_of_suffix separators (List.dropWhile_suffix _)) written ends others

theorem Splits.trimEnd (splits : Splits text terms) (solid : ∀ term ∈ terms, term.IsSolid) :
    Splits (Text.trimEnd text) terms := by
  induction splits with
  | done separators => exact .done (Text.all_of_prefix separators (Text.trimEnd_prefix _))
  | @term leading rest term terms separators written ends others ih =>
    have last := written.last_not_blank (solid term (List.mem_cons_self ..))
    have behind := ih fun other member => solid other (List.mem_cons_of_mem term member)
    rw [← List.append_assoc, Text.trimEnd_append, List.append_assoc]
    · refine .term separators written ?_ behind
      intro c first
      obtain ⟨dropped, whole⟩ := Text.trimEnd_prefix rest
      apply ends c
      rw [← whole, List.head?_append, Option.mem_def.mp first]
      rfl
    · simp [written.text_ne_nil]
    · rwa [List.getLast?_append_of_ne_nil _ written.text_ne_nil]

theorem Splits.trim (splits : Splits text terms) (solid : ∀ term ∈ terms, term.IsSolid) :
    Splits (Text.trim text) terms :=
  (splits.dropWhile solid).trimEnd solid

end Term

end VersionRange
