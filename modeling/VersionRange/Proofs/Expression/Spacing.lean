import VersionRange.Proofs.Expression.RoundTrip
import VersionRange.Proofs.Expression.Trimming
import VersionRange.Proofs.Version.Padding

/-! Expressions with blanks in them.

Blanks may stand between an operator and its target, in front of terms, between
them and behind them, and around the double bars, each place with its own class of
them. What is read are the operators and targets that are written, whichever
spellings and blanks are chosen.
-/

set_option autoImplicit false

namespace VersionRange

/-- A term as it may be written: an operator's spelling, blanks and a target's text. -/
structure Writing where
  spelling : String
  gap : List Char
  target : String

namespace Writing

def text (writing : Writing) : List Char :=
  writing.spelling.toList ++ (writing.gap ++ writing.target.toList)

structure IsValid (writing : Writing) : Prop where
  spelling : writing.spelling ∈ Operator.supported
  gap : writing.gap.all Text.isAsciiBlank
  target : ∃ padding version, Version.parseTarget padding writing.target = .ok version

/-- The blanks that belong to no term, since no operator stands in front of them. -/
def indent (writing : Writing) : List Char :=
  if writing.spelling = "" then writing.gap else []

def term (writing : Writing) : Term :=
  ⟨writing.spelling.toList, if writing.spelling = "" then [] else writing.gap,
    writing.target.toList⟩

/-- Whether a constraint is what a writing stands for. It keeps the writing as its text, but for
blanks in front of a target without an operator. -/
structure Reads (padding : Padding) (writing : Writing) (constraint : Constraint) : Prop where
  operator : writing.spelling ∈ constraint.operator.forms
  target : Version.parseTarget padding writing.target = .ok constraint.version
  padding : constraint.padding = padding
  text : constraint.text.toList =
    if writing.spelling = "" then writing.target.toList else writing.text

inductive Joined : List Writing → List Char → Prop where
  | last (writing : Writing) : Joined [writing] writing.text
  | next (writing : Writing) {writings : List Writing} {between rest : List Char}
      (apart : between ≠ []) (separators : between.all Term.isSeparator)
      (others : Joined writings rest) : Joined (writing :: writings) (writing.text ++ (between ++ rest))

inductive Grouped : List Writing → List Char → Prop where
  | spread {writings : List Writing} {leading joined trailing : List Char}
      (front : leading.all Term.isSeparator) (back : trailing.all Term.isSeparator)
      (row : Joined writings joined) : Grouped writings (leading ++ (joined ++ trailing))

/-- Groups between double bars, with white space of every kind around each. -/
inductive Spread : List (List Writing) → List Char → Prop where
  | last {writings : List Writing} {before group after : List Char} (left : before.all Text.isBlank)
      (right : after.all Text.isBlank) (grouped : Grouped writings group) :
      Spread [writings] (before ++ (group ++ after))
  | next {writings : List Writing} {groups : List (List Writing)} {before group after rest : List Char}
      (left : before.all Text.isBlank) (right : after.all Text.isBlank)
      (grouped : Grouped writings group) (others : Spread groups rest) :
      Spread (writings :: groups) (before ++ (group ++ after) ++ '|' :: '|' :: rest)

section

variable {writing : Writing}

theorem indent_append_text (writing : Writing) : writing.indent ++ writing.term.text = writing.text := by
  unfold indent term text Term.text
  split
  · next implicit => simp [implicit]
  · simp

theorem text_term (writing : Writing) : writing.term.text =
    if writing.spelling = "" then writing.target.toList else writing.text := by
  unfold term text Term.text
  split
  · next implicit => simp [implicit]
  · simp

variable (valid : writing.IsValid)
include valid

theorem IsValid.isSeparator_indent : writing.indent.all Term.isSeparator := by
  unfold indent
  split
  · apply Text.all_mono valid.gap
    intro c blank
    simp [Term.isSeparator, blank]
  · rfl

theorem IsValid.isWritten_term : writing.term.IsWritten := by
  obtain ⟨operator, spelled⟩ := Operator.exists_parse_iff.mpr valid.spelling
  obtain ⟨padding, version, read⟩ := valid.target
  -- all but the gap is as it is without blanks
  have bare := Term.isWritten_of_parse spelled read
  refine ⟨bare.operator, ?_, bare.nonempty, bare.target, ?_, fun _ => bare.unspelled rfl⟩
  · unfold term
    split
    · rfl
    · exact valid.gap
  · intro implicit
    exact if_pos (String.toList_eq_nil_iff.mp implicit)

theorem IsValid.isSolid_term : writing.term.IsSolid := by
  obtain ⟨padding, version, read⟩ := valid.target
  apply Text.all_mono (Version.all_isTargetChar_of_parseTarget read)
  intro c target
  rw [Term.not_isBlank_of_isSolidChar (by simp [Term.isSolidChar, target])]
  rfl

theorem IsValid.exists_toConstraint (padding : Padding) :
    ∃ constraint, writing.term.toConstraint padding = .ok constraint ∧
      Reads padding writing constraint := by
  obtain ⟨operator, form, _⟩ := Operator.mem_supported_iff.mp valid.spelling
  have spelled := Operator.parse_eq_ok_iff.mpr form
  obtain ⟨policy, version, accepted⟩ := valid.target
  obtain ⟨target, read, _⟩ := Version.exists_parseTarget accepted padding
  have trimmed : Text.trim writing.target.toList = writing.target.toList :=
    Text.trim_of_all valid.isSolid_term
  refine ⟨⟨operator, target, padding, String.ofList writing.term.text⟩, ?_, form, read, rfl, ?_⟩
  · refine Term.toConstraint_eq_ok_iff.mpr ⟨operator, target, ?_, ?_, rfl⟩
    · rw [term, String.ofList_toList, spelled]
    · rw [term, trimmed, String.ofList_toList, read]
  · rw [String.toList_ofList, text_term]

end

variable {padding : Padding} {writings : List Writing} {groups : List (List Writing)}
  {text : List Char}

theorem Joined.splits (row : Joined writings text) (valid : ∀ writing ∈ writings, writing.IsValid)
    {leading trailing : List Char} (front : leading.all Term.isSeparator)
    (back : trailing.all Term.isSeparator) :
    Term.Splits (leading ++ (text ++ trailing)) (writings.map term) := by
  induction row generalizing leading with
  | last writing =>
    have form := valid writing (List.mem_singleton_self _)
    -- the indent counts among the separators in front of the term
    have whole : leading ++ (writing.text ++ trailing) =
        (leading ++ writing.indent) ++ (writing.term.text ++ trailing) := by
      rw [← writing.indent_append_text]
      simp
    rw [whole]
    refine .term ?_ form.isWritten_term ?_ (.done back)
    · rw [List.all_append, front, form.isSeparator_indent, Bool.and_true]
    · intro c first
      exact List.all_eq_true.mp back c (List.mem_of_mem_head? first)
  | @next writing writings between rest apart all others ih =>
    have form := valid writing (List.mem_cons_self ..)
    have behind := ih (fun other member => valid other (List.mem_cons_of_mem writing member)) all
    have whole : leading ++ (writing.text ++ (between ++ rest) ++ trailing) =
        (leading ++ writing.indent) ++ (writing.term.text ++ (between ++ (rest ++ trailing))) := by
      rw [← writing.indent_append_text]
      simp
    rw [whole]
    refine .term ?_ form.isWritten_term (Text.head?_append_of_all apart all) behind
    rw [List.all_append, front, form.isSeparator_indent, Bool.and_true]

theorem Joined.ne_nil (row : Joined writings text) : writings ≠ [] := by
  cases row <;> simp

theorem Grouped.exists_isGroup (grouped : Grouped writings text)
    (valid : ∀ writing ∈ writings, writing.IsValid) (padding : Padding) :
    ∃ group, Expression.IsGroup padding (Text.trim text) group ∧
      List.Forall₂ (Reads padding) writings group := by
  have pairs : List.Forall₂ (fun a b : Writing => a.IsValid ∧ a = b) writings writings :=
    List.forall₂_same.mpr fun writing member => ⟨valid writing member, rfl⟩
  obtain ⟨group, constraints, reads⟩ := exists_forall₂ (C := Constraint) pairs (by
    rintro writing _ ⟨form, rfl⟩
    exact form.exists_toConstraint padding)
  have splits : Term.Splits (Text.trim text) (writings.map term) := by
    obtain ⟨front, back, row⟩ := grouped
    apply (row.splits valid front back).trim
    intro other member
    obtain ⟨writing, inside, rfl⟩ := List.mem_map.mp member
    exact (valid writing inside).isSolid_term
  refine ⟨group, ⟨?_, _, splits, List.forall₂_map_left_iff.mpr constraints⟩, reads⟩
  obtain ⟨_, _, row⟩ := grouped
  obtain ⟨first, rest, rfl⟩ := List.exists_cons_of_ne_nil row.ne_nil
  exact splits.ne_nil

/-- White space around a group is trimmed, and holds no bar that could end the group. -/
theorem Grouped.exists_surrounded (grouped : Grouped writings text)
    (valid : ∀ writing ∈ writings, writing.IsValid) (padding : Padding) {before after : List Char}
    (left : before.all Text.isBlank) (right : after.all Text.isBlank) :
    '|' ∉ before ++ (text ++ after) ∧
      ∃ group, Expression.IsGroup padding (Text.trim (before ++ (text ++ after))) group ∧
        List.Forall₂ (Reads padding) writings group := by
  obtain ⟨group, isGroup, reads⟩ := grouped.exists_isGroup valid padding
  rw [← Text.trim_surrounded left right text] at isGroup
  refine ⟨?_, group, isGroup, reads⟩
  intro member
  exact isGroup.bar_not_mem (Text.mem_trim member (by decide))

theorem Spread.exists_groups (spread : Spread groups text)
    (valid : ∀ writings ∈ groups, ∀ writing ∈ writings, writing.IsValid) (padding : Padding) :
    ∃ constraints, List.Forall₂ (Expression.IsGroup padding) (Expression.pieces text) constraints ∧
      List.Forall₂ (List.Forall₂ (Reads padding)) groups constraints := by
  induction spread with
  | @last writings before group after left right grouped =>
    obtain ⟨bare, constraints, isGroup, reads⟩ :=
      grouped.exists_surrounded (valid writings (List.mem_singleton_self _)) padding left right
    rw [Expression.pieces_of_not_mem bare]
    exact ⟨[constraints], .cons isGroup .nil, .cons reads .nil⟩
  | @next writings groups before group after rest left right grouped _ ih =>
    obtain ⟨bare, constraints, isGroup, reads⟩ :=
      grouped.exists_surrounded (valid writings (List.mem_cons_self ..)) padding left right
    obtain ⟨behind, areGroups, others⟩ :=
      ih fun other member => valid other (List.mem_cons_of_mem writings member)
    rw [Expression.pieces_append_of_not_mem bare]
    exact ⟨constraints :: behind, .cons isGroup areGroups, .cons reads others⟩

end Writing

namespace Expression

/-- The supported spellings are the forms of the operators, each of one operator. Whichever spellings and blanks an
expression is written with, it is read as the operators and targets that are written, in their
groups and in order. -/
theorem parse_spread (padding : Padding) :
    (∀ spelling, spelling ∈ Operator.supported ↔ ∃! operator : Operator, spelling ∈ operator.forms) ∧
    ∀ (groups : List (List Writing)) (text : String),
      (∀ writings ∈ groups, ∀ writing ∈ writings, writing.IsValid) →
      Writing.Spread groups text.toList →
      ∃ expression, parse padding text = .ok expression ∧
        List.Forall₂ (List.Forall₂ (Writing.Reads padding)) groups expression.groups := by
  refine ⟨fun spelling => Operator.mem_supported_iff, ?_⟩
  intro groups text valid spread
  obtain ⟨constraints, areGroups, reads⟩ := spread.exists_groups valid padding
  -- a blank text is one empty piece, which is no group
  have filled : Text.trim text.toList ≠ [] := by
    intro blank
    rw [pieces_of_blank blank] at areGroups
    cases areGroups with
    | cons first _ => exact first.1 rfl
  exact ⟨⟨constraints, padding, text⟩, (parse_eq_ok_iff filled).mpr ⟨areGroups, rfl⟩, reads⟩

/-- Two terms that a comma and an indent keep apart, and a third behind double bars, with an em
space in front of the first group and a vertical tab behind it. -/
theorem parse_spread_blanks :
    let least : Writing := ⟨"=>", ['\t'], "v1.2"⟩
    let matching : Writing := ⟨"", [' '], "2.*-rc"⟩
    let range : Writing := ⟨"~>", ['\n', '\r'], "007"⟩
    let text := "\u2003,=>\tv1.2, 2.*-rc,\x0b||\u00a0~>\n\r007"
    (∀ writings ∈ [[least, matching], [range]], ∀ writing ∈ writings, writing.IsValid) ∧
      Writing.Spread [[least, matching], [range]] text.toList ∧
      ∃ expression, parse .zero text = .ok expression ∧
        List.Forall₂ (List.Forall₂ (Writing.Reads .zero)) [[least, matching], [range]]
          expression.groups ∧
        expression.groups.map (List.map fun constraint => (constraint.operator, constraint.text)) =
          [[(.greaterThanOrEqual, "=>\tv1.2"), (.implicit, "2.*-rc")], [(.tilde, "~>\n\r007")]] := by
  intro least matching range text
  have concrete : Version.parseTarget .zero "v1.2" =
      .ok ⟨⟨⟨.value 1, .value 2, .absent⟩, .bare⟩, none, "v1.2"⟩ := by rfl
  have wildcard : Version.parseTarget .zero "2.*-rc" =
      .ok ⟨⟨⟨.value 2, .wildcard, .absent⟩, .preRelease [.alphanumeric "rc"]⟩, none, "2.*-rc"⟩ := by
    rfl
  have number : Version.parseTarget .zero "007" =
      .ok ⟨⟨⟨.value 7, .absent, .absent⟩, .bare⟩, none, "007"⟩ := by rfl
  have first : least.IsValid := ⟨by decide, by decide, .zero, _, concrete⟩
  have second : matching.IsValid := ⟨by decide, by decide, .zero, _, wildcard⟩
  have third : range.IsValid := ⟨by decide, by decide, .zero, _, number⟩
  have valid : ∀ writings ∈ [[least, matching], [range]], ∀ writing ∈ writings, writing.IsValid := by
    simp [first, second, third]
  have front : Writing.Grouped [least, matching]
      ([','] ++ (least.text ++ ([','] ++ matching.text) ++ [','])) :=
    .spread (by decide) (by decide) (.next least (by decide) (by decide) (.last matching))
  have back : Writing.Grouped [range] ([] ++ (range.text ++ [])) :=
    .spread (by decide) (by decide) (.last range)
  have behind : Writing.Spread [[range]] (['\u00a0'] ++ ([] ++ (range.text ++ []) ++ [])) :=
    .last (by decide) (by decide) back
  have spread : Writing.Spread [[least, matching], [range]]
      (['\u2003'] ++ ([','] ++ (least.text ++ ([','] ++ matching.text) ++ [',']) ++ ['\x0b']) ++
        '|' :: '|' :: (['\u00a0'] ++ ([] ++ (range.text ++ []) ++ []))) :=
    .next (by decide) (by decide) front behind
  have written : text.toList =
      ['\u2003'] ++ ([','] ++ (least.text ++ ([','] ++ matching.text) ++ [',']) ++ ['\x0b']) ++
        '|' :: '|' :: (['\u00a0'] ++ ([] ++ (range.text ++ []) ++ [])) := by decide
  have layout : Writing.Spread [[least, matching], [range]] text.toList := written ▸ spread
  obtain ⟨expression, read, reads⟩ := (parse_spread .zero).2 _ text valid layout
  have found : (parse .zero text).map (fun expression => expression.groups.map
      (List.map fun constraint => (constraint.operator, constraint.text))) =
        .ok [[(.greaterThanOrEqual, "=>\tv1.2"), (.implicit, "2.*-rc")], [(.tilde, "~>\n\r007")]] := by
    decide +kernel
  rw [read] at found
  exact ⟨valid, layout, expression, read, reads, Except.ok.inj found⟩

end Expression

end VersionRange
