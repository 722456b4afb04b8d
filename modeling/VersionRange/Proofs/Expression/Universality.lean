import VersionRange.Proofs.Constraint.Universality
import VersionRange.Proofs.Expression.BoundTexts
import VersionRange.Proofs.Expression.Completion
import VersionRange.Proofs.Expression.Pieces
import VersionRange.Proofs.Expression.Trimming
import VersionRange.Proofs.Version.Grammar

/-! Expressions that admit every version.

Whether an expression is universal shows in its text: one of its pieces has only
terms that ask for equality with a target whose first part is a wildcard. Such a
piece may have no terms at all. Of single constraints no other admits every version,
but for at-most a wildcard.
-/

set_option autoImplicit false

namespace VersionRange

def Part.marks : List Char :=
  ['*', 'x', 'X']

theorem Part.Reads.eq_wildcard_iff {component : List Char} {part : Part}
    (read : Reads component part) :
    ∃ c rest, component = c :: rest ∧ (part = .wildcard ↔ c ∈ marks) := by
  cases read with
  | number numeral =>
    cases component with
    | nil => contradiction
    | cons c rest =>
      simp only [Text.isNumeral, List.all_cons, Bool.and_eq_true] at numeral
      have others : marks.all fun mark => !mark.isDigit := by decide
      have digit : c ∉ marks := Text.not_mem_of_all others (by simp [numeral.2.1])
      exact ⟨c, rest, rfl, by simp [digit]⟩
  | star => exact ⟨'*', [], rfl, by decide⟩
  | small => exact ⟨'x', [], rfl, by decide⟩
  | capital => exact ⟨'X', [], rfl, by decide⟩

namespace Version

/-- Whether a target begins with a wildcard mark, which a letter may stand in front of. -/
def BeginsOpen (text : List Char) : Prop :=
  ∃ mark ∈ Part.marks, [mark] <+: text ∨ ['v', mark] <+: text

instance (text : List Char) : Decidable (BeginsOpen text) :=
  List.decidableBEx (fun mark => [mark] <+: text ∨ ['v', mark] <+: text) Part.marks

theorem beginsOpen_letter_iff {c : Char} {rest : List Char} :
    BeginsOpen ('v' :: c :: rest) ↔ c ∈ Part.marks := by
  have other : 'v' ∉ Part.marks := by decide
  simp [BeginsOpen, List.cons_prefix_cons, and_or_left, exists_or, other]

theorem beginsOpen_cons_iff {c : Char} {rest : List Char} (bare : c ≠ 'v') :
    BeginsOpen (c :: rest) ↔ c ∈ Part.marks := by
  simp [BeginsOpen, List.cons_prefix_cons, bare.symm]

theorem major_eq_wildcard_iff {padding : Padding} {text : String} {version : Version}
    (read : parseTarget padding text = .ok version) :
    version.release.major = .wildcard ↔ BeginsOpen text.toList := by
  obtain ⟨release, _, _, parts, _, _, rfl⟩ := parseTarget_eq_ok_iff.mp read
  obtain ⟨first, others, components, reads⟩ :=
    (readParts?_eq_some_iff.mp parts).exists_first (Layout.tokens_ne_nil _)
  have chars := TargetForm.all_isComponentChar reads
  obtain ⟨c, rest, rfl, shows⟩ := reads.eq_wildcard_iff
  have bare : c ≠ 'v' := by
    rintro rfl
    exact Bool.false_ne_true chars
  obtain ⟨tail, joined⟩ := Layout.prefix_intercalate (c :: rest) others
  have numbers := TargetForm.letter_append_dropLetter (Layout.ofText text.toList).numbers
  rw [← Layout.intercalate_tokens (Layout.dropLetter _), components, ← joined] at numbers
  rw [← Layout.text_ofText text.toList, Layout.text, ← numbers, shows]
  split
  · exact beginsOpen_letter_iff.symm
  · exact (beginsOpen_cons_iff bare).symm

end Version

namespace Term

structure IsUniversal (term : Term) : Prop where
  operator : String.ofList term.operator ∈ ["", "=", "=="]
  target : Version.BeginsOpen (Text.trim term.target)

theorem isUniversal_iff {padding : Padding} {term : Term} {constraint : Constraint}
    (read : term.toConstraint padding = .ok constraint) :
    constraint.isUniversal ↔ term.IsUniversal := by
  obtain ⟨operator, version, spelled, target, rfl⟩ := toConstraint_eq_ok_iff.mp read
  have written := Version.major_ne_absent_of_parseTarget target
  have major := Version.major_eq_wildcard_iff target
  rw [String.toList_ofList] at major
  rw [Constraint.isUniversal, Bool.and_eq_true, Operator.isEquality_iff spelled,
    Part.isWildcard_iff, Constraint.target, Release.resolve, Part.resolve_of_ne_absent written, major]
  constructor
  · rintro ⟨equality, begins⟩
    exact ⟨equality, begins⟩
  · rintro ⟨equality, begins⟩
    exact ⟨equality, begins⟩

theorem exists_solid {padding : Padding} {term : Term} {constraint : Constraint}
    (read : term.toConstraint padding = .ok constraint) :
    ∃ c ∈ term.text, (Text.isBlank c || c == ',') = false := by
  obtain ⟨operator, version, spelled, target, _⟩ := toConstraint_eq_ok_iff.mp read
  have chars := Version.all_isTargetChar_of_parseTarget target
  have filled := Version.ne_empty_of_parseTarget target
  rw [String.toList_ofList] at chars filled
  obtain ⟨c, rest, begins⟩ := List.exists_cons_of_ne_nil filled
  have first : c ∈ Text.trim term.target := begins ▸ List.mem_cons_self ..
  have here := List.all_eq_true.mp chars c first
  have solid : Text.isBlank c = false := not_isBlank_of_isSolidChar (by simp [isSolidChar, here])
  refine ⟨c, List.mem_append_right _ (Text.mem_of_mem_trim first), ?_⟩
  rw [solid, Bool.false_or, beq_eq_false_iff_ne]
  rintro rfl
  exact Bool.false_ne_true here

end Term

namespace Expression

variable {padding : Padding}

theorem IsGroup.isUniversal_iff {piece : List Char} {group : List Constraint}
    (read : IsGroup padding piece group) : group.all Constraint.isUniversal ↔
      ∃ terms, Term.Splits piece terms ∧ ∀ term ∈ terms, term.IsUniversal := by
  obtain ⟨_, terms, splits, constraints⟩ := read
  have same := forall_mem_congr constraints fun term constraint read =>
    (Term.isUniversal_iff read).symm
  rw [List.all_eq_true, ← same]
  constructor
  · intro universal
    exact ⟨terms, splits, universal⟩
  · rintro ⟨others, resplit, universal⟩
    -- a piece splits in one way
    rw [← Term.splitAll?_eq_some_iff] at splits resplit
    cases splits.symm.trans resplit
    exact universal

theorem IsGroup.splits_nil {piece : List Char} {group : List Constraint}
    (read : IsGroup padding piece group)
    (blank : piece.all fun c => Text.isBlank c || c == ',') : Term.Splits piece [] := by
  obtain ⟨_, terms, splits, constraints⟩ := read
  cases splits with
  | done separators => exact .done separators
  | @term leading rest term terms separators written ends others =>
    cases constraints with
    | cons first _ =>
    obtain ⟨c, member, solid⟩ := Term.exists_solid first
    have inside : c ∈ leading ++ (term.text ++ rest) := by simp [member]
    have here := List.all_eq_true.mp blank c inside
    rw [solid] at here
    contradiction

theorem admits_of_isUniversal {expression : Expression} (universal : expression.isUniversal)
    (version : Version) : expression.admits version := by
  rw [isUniversal, Bool.or_eq_true, List.any_eq_true] at universal
  rw [admits, Bool.or_eq_true, List.any_eq_true]
  refine universal.imp id ?_
  rintro ⟨group, member, all⟩
  rw [List.all_eq_true] at all
  refine ⟨group, member, List.all_eq_true.mpr ?_⟩
  intro constraint inside
  exact Constraint.admits_of_isUniversal (all constraint inside) version

theorem forall₂_isGroup {text : String} {expression : Expression}
    (filled : Text.trim text.toList ≠ []) (read : parse padding text = .ok expression) :
    List.Forall₂ (fun piece group => IsGroup padding (Text.trim piece) group)
      (splitBars (Text.trim text.toList)) expression.groups := by
  obtain ⟨groups, _⟩ := (parse_eq_ok_iff filled).mp read
  rwa [pieces_of_cut (cut_splitBars _), List.forall₂_map_left_iff] at groups

theorem isUniversal_iff_exists_piece {text : String} {expression : Expression}
    (filled : Text.trim text.toList ≠ []) (read : parse padding text = .ok expression) :
    expression.isUniversal ↔ ∃ piece ∈ splitBars (Text.trim text.toList), ∃ terms,
      Term.Splits (Text.trim piece) terms ∧ ∀ term ∈ terms, term.IsUniversal := by
  have same := exists_mem_congr (forall₂_isGroup filled read) fun piece group found =>
    (IsGroup.isUniversal_iff found).symm
  rw [same, isUniversal, Bool.or_eq_true, List.isEmpty_iff, or_iff_right (groups_ne_nil read),
    List.any_eq_true]

theorem isUniversal_of_trim_eq_nil {text : String} {expression : Expression}
    (blank : Text.trim text.toList = []) (read : parse padding text = .ok expression) :
    expression.isUniversal := by
  rw [parse_of_blank blank] at read
  cases read
  rfl

/-- Whether an expression is universal shows in its text: nothing is written, or between two double
bars there are only terms that are themselves written as universal, if any. It then admits every
version, also such as are not written in full. -/
theorem universality_shows_in_text {text : String} {expression : Expression}
    (read : parse padding text = .ok expression) :
    (expression.isUniversal ↔ Text.trim text.toList = [] ∨
      ∃ texts, Cut (Text.trim text.toList) texts ∧ ∃ piece ∈ texts, ∃ terms,
        Term.Splits (Text.trim piece) terms ∧ ∀ term ∈ terms, term.IsUniversal) ∧
    (∀ texts, Cut (Text.trim text.toList) texts → ∀ piece ∈ texts,
      (piece.all fun c => Text.isBlank c || c == ',') → expression.isUniversal) ∧
    (expression.isUniversal → ∀ version, expression.admits version) := by
  simp only [cut_iff, exists_eq_left', forall_eq']
  by_cases blank : Text.trim text.toList = []
  · have universal := isUniversal_of_trim_eq_nil blank read
    exact ⟨⟨fun _ => .inl blank, fun _ => universal⟩, fun _ _ _ => universal,
      admits_of_isUniversal⟩
  · have shows := isUniversal_iff_exists_piece blank read
    rw [or_iff_right blank]
    refine ⟨shows, ?_, admits_of_isUniversal⟩
    intro piece member commas
    obtain ⟨group, _, found⟩ := exists_of_forall₂ (forall₂_isGroup blank read) piece member
    have trimmed : (Text.trim piece).all fun c => Text.isBlank c || c == ',' :=
      List.all_eq_true.mpr fun c inside =>
        List.all_eq_true.mp commas c (Text.mem_of_mem_trim inside)
    exact shows.mpr ⟨piece, member, [], found.splits_nil trimmed, by simp⟩

/-- The second group of two is universal: its terms ask for equality, the one under another spelling
and with a letter in front of its mark. -/
theorem universality_shows_in_text_letter :
    let text := "<1|| == vX.2-rc,x"
    let piece := " == vX.2-rc,x".toList
    let terms : List Term := [⟨['=', '='], [' '], "vX.2-rc".toList⟩, ⟨[], [], ['x']⟩]
    let bounded : Constraint :=
      ⟨.lessThan, ⟨⟨⟨.value 1, .absent, .absent⟩, .bare⟩, none, "1"⟩, .zero, "<1"⟩
    let marked : Constraint :=
      ⟨.equal, ⟨⟨⟨.wildcard, .value 2, .absent⟩, .preRelease [.alphanumeric "rc"]⟩, none, "vX.2-rc"⟩,
        .zero, "== vX.2-rc"⟩
    let bare : Constraint :=
      ⟨.implicit, ⟨⟨⟨.wildcard, .absent, .absent⟩, .bare⟩, none, "x"⟩, .zero, "x"⟩
    let expression : Expression := ⟨[[bounded], [marked, bare]], .zero, text⟩
    parse .zero text = .ok expression ∧ Cut (Text.trim text.toList) ["<1".toList, piece] ∧
      Term.Splits (Text.trim piece) terms ∧ (∀ term ∈ terms, term.IsUniversal) ∧
      expression.isUniversal ∧ ∀ version, expression.admits version := by
  intro text piece terms bounded marked bare expression
  have cut : Cut (Text.trim text.toList) ["<1".toList, piece] := cut_iff.mpr (by decide)
  have below : Term.IsWritten ⟨['<'], [], ['1']⟩ :=
    ⟨rfl, rfl, by decide, rfl, fun _ => rfl, by simp; decide⟩
  have front : Term.Splits (Text.trim "<1".toList) [⟨['<'], [], ['1']⟩] :=
    Term.splitAll?_eq_some_iff.mp (Term.splitAll?_text below)
  have splits : Term.Splits (Text.trim piece) terms := by
    have last : Term.Splits ([','] ++ (Term.text ⟨[], [], ['x']⟩ ++ [])) [⟨[], [], ['x']⟩] :=
      .term rfl ⟨rfl, rfl, by decide, rfl, fun _ => rfl, by simp; decide⟩ (by simp) (.done rfl)
    have whole : Term.Splits
        ([] ++ (Term.text ⟨['=', '='], [' '], "vX.2-rc".toList⟩ ++ [',', 'x'])) terms :=
      .term rfl ⟨rfl, rfl, by decide, by decide, by simp, by simp⟩ (by simp; decide) last
    exact whole
  have universal : ∀ term ∈ terms, term.IsUniversal := by
    simp only [terms, List.forall_mem_cons]
    exact ⟨⟨by decide, by decide⟩, ⟨by decide, by decide⟩, by simp⟩
  have read : parse .zero text = .ok expression := by
    refine (parse_eq_ok_iff (by decide)).mpr ⟨?_, rfl⟩
    rw [pieces_of_cut cut]
    exact .cons ⟨by decide, _, front, .cons rfl .nil⟩
      (.cons ⟨by decide, _, splits, .cons rfl (.cons rfl .nil)⟩ .nil)
  obtain ⟨shows, _, admits⟩ := universality_shows_in_text read
  have found := shows.mpr (.inr ⟨_, cut, piece, by simp, terms, splits, universal⟩)
  exact ⟨read, cut, splits, universal, found, admits found⟩

end Expression

namespace Constraint

variable {constraint : Constraint}

/-- A constraint admits every concrete version if it is written so, or if it asks for at most a
target without a number for its first part. No other does. -/
theorem admits_every_iff (obtained : constraint.IsObtained) :
    (∀ text version, Version.parse text = .ok version → constraint.admits version) ↔
      constraint.isUniversal ∨
        constraint.operator = .lessThanOrEqual ∧
          constraint.target.release.major = .wildcard := by
  constructor
  · intro every
    by_contra other
    rw [not_or, Bool.not_eq_true, not_and] at other
    obtain ⟨version, concrete, refused⟩ :=
      exists_not_admits obtained.isConcrete_floor other.1 other.2
    have admitted := every _ version (Version.parse_eq_ok_iff.mpr ⟨concrete, rfl⟩)
    rw [refused] at admitted
    contradiction
  · rintro (universal | ⟨operator, unwritten⟩) text version _
    · exact admits_of_isUniversal universal version
    · exact admits_of_atMost operator unwritten version

/-- Pre-releases of zero lie below the least release, which at-least a wildcard asks for. -/
theorem admits_every_iff_atLeast :
    let target : Version := ⟨⟨⟨.wildcard, .absent, .absent⟩, .anyRevision⟩, none, "*"⟩
    let constraint : Constraint := .ofVersion .greaterThanOrEqual target
    constraint.IsObtained ∧
      ¬∀ text version, Version.parse text = .ok version → constraint.admits version := by
  intro target constraint
  have read : Version.parseTarget .wildcard "*" = .ok target := by rfl
  have obtained : constraint.IsObtained := .built .greaterThanOrEqual (.target read)
  refine ⟨obtained, ?_⟩
  rw [admits_every_iff obtained]
  decide

/-- At-most a wildcard admits every version but is not written as universal. -/
theorem admits_every_atMost :
    let target : Version := ⟨⟨⟨.wildcard, .absent, .absent⟩, .anyRevision⟩, none, "*"⟩
    let constraint : Constraint := ⟨.lessThanOrEqual, target, .wildcard, "<=" ++ "*"⟩
    Expression.parse .wildcard ("<=" ++ "*") = .ok ⟨[[constraint]], .wildcard, "<=" ++ "*"⟩ ∧
      constraint.IsObtained ∧
      (∀ text version, Version.parse text = .ok version → constraint.admits version) ∧
      constraint.isUniversal = false := by
  intro target constraint
  have spelled : Operator.parse "<=" = .ok .lessThanOrEqual := rfl
  have read : Version.parseTarget .wildcard "*" = .ok target := by rfl
  have parsed := Expression.parse_single spelled read
  have obtained : constraint.IsObtained :=
    .read parsed (List.mem_cons_self ..) (List.mem_cons_self ..)
  exact ⟨parsed, obtained, fun _ version _ => admits_of_atMost rfl rfl version, rfl⟩

end Constraint

end VersionRange
