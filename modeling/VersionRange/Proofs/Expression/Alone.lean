import VersionRange.Proofs.Expression.Composition
import VersionRange.Proofs.Expression.Scanning

/-! Terms on their own.

A term that is read stands for an expression of its own. White space at the end of
its target, or at the start of a target without an operator, is then white space at
the ends of the expression, where it is dropped before the terms are split. What is
left is one term with the same operator and the same target.
-/

set_option autoImplicit false

namespace VersionRange

variable {padding : Padding}

namespace Term

/-- The term without the white space at the ends of its text. Behind an operator, white space in
front of the target stays. -/
def trimmed (term : Term) : Term :=
  if term.operator = [] then { term with target := Text.trim term.target }
  else { term with target := Text.trimEnd term.target }

theorem trimmed_operator (term : Term) : term.trimmed.operator = term.operator := by
  unfold trimmed
  split <;> rfl

theorem trim_target_trimmed (term : Term) :
    Text.trim term.trimmed.target = Text.trim term.target := by
  unfold trimmed
  split
  · exact Text.trim_trim term.target
  · exact Text.trim_trimEnd term.target

section

variable {term : Term} {constraint : Constraint}

theorem all_isTargetChar_of_toConstraint (read : term.toConstraint padding = .ok constraint) :
    (Text.trim term.target).all Version.isTargetChar := by
  obtain ⟨_, _, _, target, _⟩ := toConstraint_eq_ok_iff.mp read
  have chars := Version.all_isTargetChar_of_parseTarget target
  rwa [String.toList_ofList] at chars

theorem trim_target_ne_nil (read : term.toConstraint padding = .ok constraint) :
    Text.trim term.target ≠ [] := by
  obtain ⟨_, _, _, target, _⟩ := toConstraint_eq_ok_iff.mp read
  have filled := Version.ne_empty_of_parseTarget target
  rwa [String.toList_ofList] at filled

theorem trimEnd_target_ne_nil (read : term.toConstraint padding = .ok constraint) :
    Text.trimEnd term.target ≠ [] := by
  intro empty
  have trimmed := Text.trim_trimEnd term.target
  rw [empty] at trimmed
  exact trim_target_ne_nil read trimmed.symm

theorem text_trimmed (written : term.IsWritten) (read : term.toConstraint padding = .ok constraint) :
    term.trimmed.text = Text.trim term.text := by
  unfold trimmed
  split
  · next implicit =>
    rw [Term.text, Term.text, implicit, written.gapless implicit]
    rfl
  · next spelled =>
    have filled := trimEnd_target_ne_nil read
    obtain ⟨after, blank, whole⟩ := Text.exists_trimEnd_append term.target
    -- an operator in front leaves only the end of the target to trim
    have ends : term.text = term.operator ++ (term.gap ++ Text.trimEnd term.target) ++ after := by
      simp only [Term.text, List.append_assoc, whole]
    rw [ends, Text.trim_append_blanks blank, Text.trim_of_ends]
    · exact List.append_assoc ..
    · intro c first
      exact isBlank_of_isOperatorChar (Text.head?_append_of_all spelled written.operator c first)
    · intro c last
      rw [← List.append_assoc, List.getLast?_append_of_ne_nil _ filled] at last
      exact Text.getLast?_trimEnd last

theorem isWritten_trimmed (written : term.IsWritten)
    (read : term.toConstraint padding = .ok constraint) : term.trimmed.IsWritten := by
  unfold trimmed
  split
  · next implicit =>
    have chars := all_isTargetChar_of_toConstraint read
    refine ⟨written.operator, written.gap, trim_target_ne_nil read, ?_, written.gapless, ?_⟩
    · apply Text.all_mono chars
      intro c target
      rw [Version.not_isSeparator_of_isTargetChar target]
      rfl
    · intro _ c first
      rw [List.all_eq_true] at chars
      exact Version.not_isOperatorChar_of_isTargetChar (chars c (List.mem_of_mem_head? first))
  · next spelled =>
    have front := Text.trimEnd_prefix term.target
    refine ⟨written.operator, written.gap, trimEnd_target_ne_nil read,
      Text.all_of_prefix written.target front, written.gapless, ?_⟩
    intro gapless c first
    obtain ⟨rest, whole⟩ := front
    apply written.unspelled gapless c
    rw [← whole, List.head?_append, Option.mem_def.mp first]
    rfl

theorem toConstraint_trimmed (read : term.toConstraint padding = .ok constraint) :
    term.trimmed.toConstraint padding =
      .ok { constraint with text := String.ofList term.trimmed.text } := by
  obtain ⟨operator, version, spelled, target, rfl⟩ := toConstraint_eq_ok_iff.mp read
  refine toConstraint_eq_ok_iff.mpr ⟨operator, version, ?_, ?_, rfl⟩
  · rw [trimmed_operator]
    exact spelled
  · rw [trim_target_trimmed]
    exact target

end

end Term

namespace Expression

theorem parse_text_of_toConstraint {term : Term} {constraint : Constraint} (written : term.IsWritten)
    (read : term.toConstraint padding = .ok constraint) :
    parse padding constraint.text =
      .ok ⟨[[{ constraint with text := String.ofList term.trimmed.text }]], padding,
        constraint.text⟩ := by
  have text : constraint.text.toList = term.text := by
    obtain ⟨_, _, _, _, rfl⟩ := Term.toConstraint_eq_ok_iff.mp read
    exact String.toList_ofList
  have trimmed := Term.text_trimmed written read
  have form := Term.isWritten_trimmed written read
  have filled : Text.trim constraint.text.toList ≠ [] := by
    rw [text, ← trimmed]
    exact form.text_ne_nil
  have bare : '|' ∉ constraint.text.toList := by
    rw [text]
    exact Term.bar_not_mem_text written read
  refine (parse_eq_ok_iff filled).mpr ⟨?_, rfl⟩
  rw [pieces_of_not_mem bare, text, ← trimmed]
  have splits := Term.splits_of_splitAll? (Term.splitAll?_text form)
  exact .cons ⟨form.text_ne_nil, _, splits, .cons (Term.toConstraint_trimmed read) .nil⟩ .nil

theorem exists_parse_text {text : String} {expression : Expression}
    (read : parse padding text = .ok expression) :
    ∀ group ∈ expression.groups, ∀ constraint ∈ group,
      ∃ again, parse padding constraint.text = .ok ⟨[[again]], padding, constraint.text⟩ ∧
        again.operator = constraint.operator ∧ again.version = constraint.version := by
  intro group inside constraint member
  by_cases blank : Text.trim text.toList = []
  · rw [parse_of_blank blank] at read
    cases read
    simp only [List.mem_singleton] at inside
    subst inside
    rw [List.mem_singleton] at member
    subst member
    exact ⟨.any padding, parse_of_blank rfl, rfl, rfl⟩
  · obtain ⟨groups, _⟩ := (parse_eq_ok_iff blank).mp read
    obtain ⟨piece, _, _, terms, splits, constraints⟩ := exists_of_forall₂ groups.flip group inside
    obtain ⟨term, here, found⟩ := exists_of_forall₂ constraints.flip constraint member
    exact ⟨_, parse_text_of_toConstraint (splits.isWritten term here) found, rfl, rfl⟩

/-- Scanning a group slices it at boundaries of characters only, into the terms that it splits into.
It splits if it is laid out from those terms, with separators between them, and otherwise the scan
comes to an operator without a target. Every term that is read is read again on its own. -/
theorem splitting_is_lossless :
    (∀ text : String,
      (∀ span ∈ (Term.scan text).spans,
        String.Pos.Raw.IsValid text ⟨span.start⟩ ∧ String.Pos.Raw.IsValid text ⟨span.stop⟩) ∧
      (∃ terms : List Term,
        (Term.scan text).spans.mapM (Text.slice? text) =
          some (terms.map fun term => String.ofList term.text) ∧
        Term.splitAll? text.toList = if (Term.scan text).complete then some terms else none) ∧
      (∀ terms, Term.splitAll? text.toList = some terms ↔ ∃ leading rows,
        rows.map Prod.fst = terms ∧ Term.IsLaidOut text.toList leading rows) ∧
      (Term.splitAll? text.toList = none ↔ Term.Lacks text.toList)) ∧
    ∀ (padding : Padding) (text : String) (expression : Expression),
      parse padding text = .ok expression →
      ∀ group ∈ expression.groups, ∀ constraint ∈ group,
        ∃ again, parse padding constraint.text = .ok ⟨[[again]], padding, constraint.text⟩ ∧
          again.operator = constraint.operator ∧ again.version = constraint.version := by
  constructor
  · intro text
    exact ⟨Term.isValid_of_mem_scan text, Term.exists_terms_of_scanFrom (Text.isAt_zero text),
      fun _ => Term.splitAll?_eq_some_iff_isLaidOut, Term.splitAll?_eq_none_iff⟩
  · intro padding text expression read
    exact exists_parse_text read

/-- Two terms that hold blanks which separate no terms; on its own each loses the one at its end or
at its start. -/
theorem splitting_is_lossless_unicode :
    let first : Constraint := ⟨.greaterThanOrEqual,
      ⟨⟨⟨.value 1, .value 2, .absent⟩, .anyRevision⟩, none, "1.2"⟩, .wildcard, ">= 1.2\u00a0"⟩
    let second : Constraint := ⟨.implicit,
      ⟨⟨⟨.value 1, .wildcard, .absent⟩, .anyRevision⟩, none, "1.*"⟩, .wildcard, "\u20031.*"⟩
    let text := ">= 1.2\u00a0,\u20031.*"
    Term.scan text = ⟨[⟨0, 8⟩, ⟨9, 15⟩], true⟩ ∧
      parse .wildcard text = .ok ⟨[[first, second]], .wildcard, text⟩ ∧
      (∃ again, parse .wildcard second.text = .ok ⟨[[again]], .wildcard, second.text⟩ ∧
        again.operator = second.operator ∧ again.version = second.version) := by
  intro first second text
  have terms : Term.splitAll? text.toList = some
      [⟨['>', '='], [' '], "1.2\u00a0".toList⟩, ⟨[], [], "\u20031.*".toList⟩] := by decide +kernel
  have group : IsGroup .wildcard text.toList [first, second] :=
    ⟨by decide, _, Term.splitAll?_eq_some_iff.mp terms, .cons (by rfl) (.cons (by rfl) .nil)⟩
  have read : parse .wildcard text = .ok ⟨[[first, second]], .wildcard, text⟩ :=
    (parse_eq_ok_iff_group (by decide) (by decide) (by decide)).mpr ⟨_, group, rfl⟩
  obtain ⟨_, alone⟩ := splitting_is_lossless
  exact ⟨by decide +kernel, read, alone _ _ _ read _ (List.mem_singleton_self _) second (by simp)⟩

end Expression

end VersionRange
