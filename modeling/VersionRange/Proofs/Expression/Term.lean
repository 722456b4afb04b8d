import VersionRange.Expression.Parser
import VersionRange.Proofs.Version.Target

/-! Written terms.

The scanner cuts a term off by three longest runs. A written term is one whose
runs end where its pieces do, so that it is cut off whole in front of anything
that starts with a separator.
-/

set_option autoImplicit false

namespace VersionRange

namespace Text

variable {inside : Char → Bool} {run rest : List Char}

theorem takeWhile_run (all : run.all inside) (stops : ∀ c ∈ rest.head?, inside c = false) :
    (run ++ rest).takeWhile inside = run := by
  rw [List.all_eq_true] at all
  rw [List.takeWhile_append_of_pos all]
  cases rest with
  | nil => simp
  | cons c rest => simp [stops c rfl]

theorem dropWhile_run (all : run.all inside) (stops : ∀ c ∈ rest.head?, inside c = false) :
    (run ++ rest).dropWhile inside = rest := by
  rw [List.all_eq_true] at all
  rw [List.dropWhile_append_of_pos all]
  cases rest with
  | nil => rfl
  | cons c rest => simp [stops c rfl]

theorem head?_append_of_all {front : List Char} (nonempty : front ≠ []) (all : front.all inside) :
    ∀ c ∈ (front ++ rest).head?, inside c := by
  intro c first
  cases front with
  | nil => contradiction
  | cons head front =>
    cases first
    rw [List.all_cons, Bool.and_eq_true] at all
    exact all.1

end Text

namespace Term

/-- The pieces of a term as the scanner finds them: without an operator no blank stands in front
of the target, and right behind an operator the target starts with another character. -/
structure IsWritten (term : Term) : Prop where
  operator : term.operator.all isOperatorChar
  gap : term.gap.all Text.isAsciiBlank
  nonempty : term.target ≠ []
  target : term.target.all fun c => !isSeparator c
  gapless : term.operator = [] → term.gap = []
  unspelled : term.gap = [] → ∀ c ∈ term.target.head?, isOperatorChar c = false

theorem isOperatorChar_of_isAsciiBlank {c : Char} (blank : Text.isAsciiBlank c) :
    isOperatorChar c = false := by
  simp only [Text.isAsciiBlank, Bool.or_eq_true, beq_iff_eq] at blank
  rcases blank with (((rfl | rfl) | rfl) | rfl) | rfl <;> decide

theorem isSeparator_of_isOperatorChar {c : Char} (spelled : isOperatorChar c) :
    isSeparator c = false := by
  simp only [isOperatorChar, Bool.or_eq_true, beq_iff_eq] at spelled
  rcases spelled with ((((rfl | rfl) | rfl) | rfl) | rfl) | rfl <;> decide

variable {term : Term} {rest : List Char}

theorem IsWritten.gap_stops (written : term.IsWritten) :
    ∀ c ∈ (term.target ++ rest).head?, Text.isAsciiBlank c = false := by
  intro c first
  have apart := Text.head?_append_of_all written.nonempty written.target c first
  simp only [isSeparator, Bool.not_eq_true', Bool.or_eq_false_iff] at apart
  exact apart.1

theorem IsWritten.operator_stops (written : term.IsWritten) :
    ∀ c ∈ (term.gap ++ (term.target ++ rest)).head?, isOperatorChar c = false := by
  intro c first
  by_cases gapless : term.gap = []
  · -- the operator and the target touch
    apply written.unspelled gapless
    cases found : term.target with
    | nil => exact absurd found written.nonempty
    | cons head tail =>
      rw [gapless, found] at first
      exact first
  · exact isOperatorChar_of_isAsciiBlank (Text.head?_append_of_all gapless written.gap c first)

theorem cut_text_append (written : term.IsWritten) (ends : ∀ c ∈ rest.head?, isSeparator c) :
    cut (term.text ++ rest) = (term, rest) := by
  have target_stops : ∀ c ∈ rest.head?, (!isSeparator c) = false := by
    intro c first
    rw [ends c first]
    rfl
  unfold cut Term.text
  dsimp only
  -- each of the three runs stops at the first character of what follows its piece
  rw [List.append_assoc, List.append_assoc,
    Text.takeWhile_run written.operator written.operator_stops,
    Text.dropWhile_run written.operator written.operator_stops,
    Text.takeWhile_run written.gap written.gap_stops,
    Text.dropWhile_run written.gap written.gap_stops,
    Text.takeWhile_run written.target target_stops,
    Text.dropWhile_run written.target target_stops]

theorem IsWritten.starts (written : term.IsWritten) :
    ∀ c ∈ (term.text ++ rest).head?, isSeparator c = false := by
  intro c first
  by_cases implicit : term.operator = []
  · rw [Term.text, implicit, written.gapless implicit] at first
    simpa using Text.head?_append_of_all written.nonempty written.target c first
  · rw [Term.text, List.append_assoc, List.append_assoc] at first
    exact isSeparator_of_isOperatorChar
      (Text.head?_append_of_all implicit written.operator c first)

theorem splitAll?_separators {text : List Char} (separators : text.all isSeparator) :
    splitAll? text = some [] := by
  have dropped : (text ++ []).dropWhile isSeparator = [] :=
    Text.dropWhile_run separators (by simp)
  rw [List.append_nil] at dropped
  rw [splitAll?]
  split
  · rfl
  · next c rest found =>
    rw [dropped] at found
    contradiction

/-- The scanner drops separators, cuts off one written term and goes on behind it. -/
theorem splitAll?_text_append {separators : List Char} (leading : separators.all isSeparator)
    (written : term.IsWritten) (ends : ∀ c ∈ rest.head?, isSeparator c) :
    splitAll? (separators ++ (term.text ++ rest)) = (splitAll? rest).map (term :: ·) := by
  have dropped : (separators ++ (term.text ++ rest)).dropWhile isSeparator = term.text ++ rest :=
    Text.dropWhile_run leading written.starts
  have found := cut_text_append written ends
  rw [splitAll?]
  split
  · next empty =>
    rw [dropped, Term.text] at empty
    simp [written.nonempty] at empty
  · next c tail atTerm =>
    rw [dropped] at atTerm
    rw [← atTerm, found]
    simp [written.nonempty]

theorem splitAll?_text (written : term.IsWritten) : splitAll? term.text = some [term] := by
  have alone : splitAll? ([] ++ (term.text ++ [])) = (splitAll? []).map (term :: ·) :=
    splitAll?_text_append rfl written fun c first => by contradiction
  have nothing : splitAll? [] = some [] := splitAll?_separators rfl
  rwa [List.nil_append, List.append_nil, nothing] at alone

end Term

end VersionRange
