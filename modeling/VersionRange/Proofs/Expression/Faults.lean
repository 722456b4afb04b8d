import VersionRange.Proofs.Expression.Pieces

/-! What is reported.

A group is refused if nothing is written in it, if an operator in it has no target,
wherever it stands, or else for the first of its terms that is not read. An
expression is refused for the first of its groups that is.
-/

set_option autoImplicit false

namespace VersionRange

theorem exists_eq_ok_iff {A E : Type} {result : Except E A} :
    (∃ value, result = .ok value) ↔ ∀ error, result ≠ .error error := by
  cases result <;> simp

namespace Term

structure IsSound (padding : Padding) (term : Term) : Prop where
  operator : String.ofList term.operator ∈ Operator.supported
  target : ∃ version,
    Version.parseTarget padding (String.ofList (Text.trim term.target)) = .ok version

/-- What a term that cannot be read is refused for. Its target counts only behind an operator that
is supported. -/
inductive Refused (padding : Padding) (term : Term) : Fault → Prop where
  | operator (unsupported : String.ofList term.operator ∉ Operator.supported) :
      Refused padding term (.invalidOperator ⟨String.ofList term.operator⟩)
  | target (supported : String.ofList term.operator ∈ Operator.supported)
      (unread : ∀ version,
        Version.parseTarget padding (String.ofList (Text.trim term.target)) ≠ .ok version) :
      Refused padding term (.invalidVersion ⟨String.ofList (Text.trim term.target)⟩)

section

variable {padding : Padding} {term : Term}

theorem exists_toConstraint_iff :
    (∃ constraint, term.toConstraint padding = .ok constraint) ↔ term.IsSound padding := by
  constructor
  · rintro ⟨constraint, read⟩
    obtain ⟨operator, version, spelled, target, _⟩ := toConstraint_eq_ok_iff.mp read
    exact ⟨Operator.exists_parse_iff.mp ⟨operator, spelled⟩, version, target⟩
  · rintro ⟨supported, version, target⟩
    obtain ⟨operator, spelled⟩ := Operator.exists_parse_iff.mpr supported
    exact ⟨_, toConstraint_eq_ok_iff.mpr ⟨operator, version, spelled, target, rfl⟩⟩

theorem toConstraint_eq_error_iff {error : InvalidExpression} :
    term.toConstraint padding = .error error ↔
      ∃ fault, term.Refused padding fault ∧ error = ⟨String.ofList term.text, fault⟩ := by
  constructor
  · intro refused
    unfold toConstraint at refused
    dsimp only at refused
    split at refused
    · next unknown =>
      obtain ⟨unsupported, rfl⟩ := Operator.parse_eq_error_iff.mp unknown
      exact ⟨_, .operator unsupported, (Except.error.inj refused).symm⟩
    · next operator spelled =>
      split at refused
      · next failed =>
        obtain ⟨unread, rfl⟩ := Version.parseTarget_eq_error_iff.mp failed
        have supported := Operator.exists_parse_iff.mp ⟨operator, spelled⟩
        exact ⟨_, .target supported unread, (Except.error.inj refused).symm⟩
      · cases refused
  · rintro ⟨fault, refused, rfl⟩
    cases refused with
    | operator unsupported =>
      simp only [toConstraint, Operator.parse_eq_error_iff.mpr ⟨unsupported, rfl⟩]
    | target supported unread =>
      obtain ⟨operator, spelled⟩ := Operator.exists_parse_iff.mpr supported
      simp only [toConstraint, spelled, Version.parseTarget_eq_error_iff.mpr ⟨unread, rfl⟩]

end

end Term

namespace Expression

/-- What a group is refused for, with the text that is quoted: the whole expression, the group, or
the first of its terms that is not read. -/
inductive Refused (padding : Padding) (whole : String) : List Char → InvalidExpression → Prop where
  | empty : Refused padding whole [] ⟨whole, .emptyGroup⟩
  | lacking {piece : List Char} (lacks : Term.Lacks piece) :
      Refused padding whole piece ⟨String.ofList piece, .missingVersion⟩
  | term {piece : List Char} {front rest : List Term} {term : Term} {fault : Fault}
      (splits : Term.Splits piece (front ++ term :: rest))
      (sound : ∀ other ∈ front, other.IsSound padding) (refused : term.Refused padding fault) :
      Refused padding whole piece ⟨String.ofList term.text, fault⟩

def FirstRefused (padding : Padding) (whole : String) (pieces : List (List Char))
    (error : InvalidExpression) : Prop :=
  ∃ front piece rest, pieces = front ++ piece :: rest ∧
    (∀ other ∈ front, ∀ fault, ¬Refused padding whole other fault) ∧
    Refused padding whole piece error

variable {padding : Padding} {error : InvalidExpression}

theorem parseGroup_eq_error_iff {whole : String} {piece : List Char} :
    parseGroup padding whole piece = .error error ↔ Refused padding whole piece error := by
  have terms {all : List Term} : all.mapM (Term.toConstraint padding) = .error error ↔
      ∃ front term rest, all = front ++ term :: rest ∧
        (∀ other ∈ front, other.IsSound padding) ∧
        ∃ fault, term.Refused padding fault ∧ error = ⟨String.ofList term.text, fault⟩ := by
    simp only [mapM_eq_error_iff, Term.exists_toConstraint_iff, Term.toConstraint_eq_error_iff]
  constructor
  · intro refused
    unfold parseGroup at refused
    split at refused
    · next empty =>
      cases refused
      rw [List.isEmpty_iff.mp empty]
      exact .empty
    · split at refused
      · next unsplit =>
        cases refused
        exact .lacking (Term.splitAll?_eq_none_iff.mp unsplit)
      · next all split =>
        obtain ⟨front, term, rest, rfl, sound, fault, unread, rfl⟩ := terms.mp refused
        exact .term (Term.splitAll?_eq_some_iff.mp split) sound unread
  · intro refused
    cases refused with
    | empty => rfl
    | lacking lacks =>
      have unsplit := Term.splitAll?_eq_none_iff.mpr lacks
      have filled : piece ≠ [] := Term.ne_nil_of_splitAll? (by simp [unsplit])
      rw [parseGroup, if_neg (by simpa using filled), unsplit]
    | @term _ front rest term fault splits sound refused =>
      have split := Term.splitAll?_eq_some_iff.mpr splits
      have filled : piece ≠ [] := Term.ne_nil_of_splitAll? (by simp [split])
      rw [parseGroup, if_neg (by simpa using filled), split]
      exact terms.mpr ⟨front, term, rest, rfl, sound, fault, refused, rfl⟩

theorem IsGroup.not_refused {whole : String} {piece : List Char} {group : List Constraint}
    (isGroup : IsGroup padding piece group) : ¬Refused padding whole piece error := by
  intro refused
  have read : parseGroup padding whole piece = .ok group := parseGroup_eq_ok_iff.mpr isGroup
  rw [parseGroup_eq_error_iff.mpr refused] at read
  contradiction

theorem parse_eq_error_iff {text : String} (filled : Text.trim text.toList ≠ []) :
    parse padding text = .error error ↔
      FirstRefused padding text (pieces text.toList) error := by
  have groups : (pieces text.toList).mapM (parseGroup padding text) = .error error ↔
      FirstRefused padding text (pieces text.toList) error := by
    simp only [mapM_eq_error_iff, exists_eq_ok_iff, ne_eq, parseGroup_eq_error_iff, FirstRefused]
  rw [← groups, parse, if_neg (by simpa using filled)]
  cases (pieces text.toList).mapM (parseGroup padding text) with
  | error fault => simp [bind, Except.bind]
  | ok groups => simp [bind, Except.bind, pure, Except.pure]

theorem exists_parse_iff {text : String} (filled : Text.trim text.toList ≠ []) :
    (∃ expression, parse padding text = .ok expression) ↔
      ∀ piece ∈ pieces text.toList, ∀ error, ¬Refused padding text piece error := by
  constructor
  · rintro ⟨expression, read⟩ piece member error refused
    obtain ⟨groups, _⟩ := (parse_eq_ok_iff filled).mp read
    obtain ⟨group, _, isGroup⟩ := exists_of_forall₂ groups piece member
    exact isGroup.not_refused refused
  · intro unrefused
    rw [exists_eq_ok_iff]
    intro error found
    obtain ⟨front, piece, rest, whole, _, refused⟩ := (parse_eq_error_iff filled).mp found
    exact unrefused piece (by simp [whole]) error refused

/-- An expression is read if none of its groups is refused, and otherwise the first that is refused
is reported. The error is always one of the expression; that of an operator or of a version stands
in it as the reason. -/
theorem parse_reports_first_refused (padding : Padding) (text : String) :
    (Text.trim text.toList = [] → ∃ expression, parse padding text = .ok expression) ∧
      (Text.trim text.toList ≠ [] →
        (∃ texts, Cut (Text.trim text.toList) texts) ∧
        ∀ texts, Cut (Text.trim text.toList) texts →
          ((∃ expression, parse padding text = .ok expression) ↔
            ∀ piece ∈ texts.map Text.trim, ∀ error, ¬Refused padding text piece error) ∧
          ∀ error, parse padding text = .error error ↔
            FirstRefused padding text (texts.map Text.trim) error) ∧
      Fault.emptyGroup.message = "empty constraint group" ∧
      Fault.missingVersion.message = "operator without a version" ∧
      (∀ operator, (Fault.invalidOperator ⟨operator⟩).message =
        "Invalid operator \"" ++ operator ++ "\"") ∧
      ∀ target, (Fault.invalidVersion ⟨target⟩).message =
        "Invalid version string \"" ++ target ++ "\"" := by
  refine ⟨fun blank => ⟨_, parse_of_blank blank⟩, ?_, rfl, rfl, fun _ => rfl, fun _ => rfl⟩
  intro filled
  refine ⟨⟨_, cut_splitBars _⟩, ?_⟩
  intro texts cut
  rw [← pieces_of_cut cut]
  exact ⟨exists_parse_iff filled, fun error => parse_eq_error_iff filled⟩

/-- The group that lacks a version is reported, not the term in it that has a bad operator or the
bar that is left over behind it. -/
theorem parse_reports_first_refused_lacking :
    let text := " 1.2 || =>3 =!4, > ||| "
    let texts := ["1.2 ".toList, " =>3 =!4, > ".toList, ['|']]
    let error : InvalidExpression := ⟨"=>3 =!4, >", .missingVersion⟩
    Cut (Text.trim text.toList) texts ∧ FirstRefused .zero text (texts.map Text.trim) error ∧
      parse .zero text = .error error := by
  intro text texts error
  have cut : Cut (Text.trim text.toList) texts := cut_iff.mpr (by decide)
  have first : Term.IsWritten ⟨['=', '>'], [], ['3']⟩ :=
    ⟨rfl, rfl, by decide, rfl, fun _ => rfl, by simp; decide⟩
  have second : Term.IsWritten ⟨['=', '!'], [], ['4']⟩ :=
    ⟨rfl, rfl, by decide, rfl, fun _ => rfl, by simp; decide⟩
  have lacks : Term.Lacks "=>3 =!4, >".toList := by
    have last : Term.Lacks ([',', ' '] ++ (['>'] ++ ([] ++ []))) :=
      .here (by decide) (by decide) (by decide) (by decide) (by simp)
    have middle : Term.Lacks ([' '] ++ (Term.text ⟨['=', '!'], [], ['4']⟩ ++ [',', ' ', '>'])) :=
      .behind (by decide) second (by simp; decide) last
    have whole : Term.Lacks ([] ++ (Term.text ⟨['=', '>'], [], ['3']⟩ ++ " =!4, >".toList)) :=
      .behind (by decide) first (by simp; decide) middle
    exact whole
  have spelled : Operator.parse "" = .ok .implicit := rfl
  have target : Version.parseTarget .zero "1.2" =
      .ok ⟨⟨⟨.value 1, .value 2, .absent⟩, .bare⟩, none, "1.2"⟩ := by rfl
  have splits : Term.Splits "1.2".toList [⟨[], [], "1.2".toList⟩] :=
    Term.splitAll?_eq_some_iff.mp (Term.splitAll?_text (Term.isWritten_of_parse spelled target))
  have isGroup : IsGroup .zero "1.2".toList [_] :=
    ⟨by decide, _, splits, .cons (Term.toConstraint_of_parse spelled target) .nil⟩
  have reported : FirstRefused .zero text (texts.map Text.trim) error := by
    refine ⟨["1.2".toList], "=>3 =!4, >".toList, [['|']], by decide, ?_, .lacking lacks⟩
    intro other member fault
    rw [List.mem_singleton.mp member]
    exact isGroup.not_refused
  obtain ⟨_, reports, _⟩ := parse_reports_first_refused .zero text
  obtain ⟨_, all⟩ := reports (by decide)
  obtain ⟨_, errors⟩ := all texts cut
  exact ⟨cut, reported, (errors error).mpr reported⟩

end Expression

end VersionRange
