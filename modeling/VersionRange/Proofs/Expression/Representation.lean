import VersionRange.Proofs.Expression.BoundTexts
import VersionRange.Proofs.Version.Grammar

/-! What holds of the fields of every version.

Order, matching and printing look at a version through its parts, its revision and its
pre-release. Whichever way a version is come by, at most one of the two is there and
neither is empty, a revision has numbers throughout or is left open as a whole, and
parts are left out from the right. Concrete versions have numbers throughout, and so
have the bounds of every constraint.
-/

set_option autoImplicit false

namespace VersionRange

theorem Part.Reads.isValue {component : List Char} {part : Part} (read : Reads component part)
    (numeral : Text.isNumeral component) : part.isValue := by
  cases read with
  | number => rfl
  | star | small | capital => contradiction

namespace Suffix

/-- Of the identifiers at least one is a text; a text is a token and not all digits. -/
structure IsPreRelease (identifiers : List Identifier) : Prop where
  filled : identifiers ≠ []
  other : ∃ text, .alphanumeric text ∈ identifiers
  texts : ∀ text, .alphanumeric text ∈ identifiers → text ≠ "" ∧
    (∀ c ∈ text.toList, Layout.isTokenChar c) ∧ ∃ c ∈ text.toList, c.isDigit = false

theorem isPreRelease_of_reads {tokens : List (List Char)} {identifiers : List Identifier}
    (read : List.Forall₂ Identifier.Reads tokens identifiers)
    (forms : ∀ token ∈ tokens, Layout.isToken token)
    (other : ¬∀ token ∈ tokens, Text.isNumeral token) : IsPreRelease identifiers := by
  obtain ⟨token, member, text⟩ : ∃ token ∈ tokens, ¬Text.isNumeral token := by simpa using other
  obtain ⟨identifier, inside, reads⟩ := exists_of_forall₂ read token member
  -- the token that is no numeral stands for a text
  have alphanumeric : .alphanumeric (String.ofList token) ∈ identifiers := by
    cases reads with
    | number numeral => exact absurd numeral text
    | text => exact inside
  refine ⟨List.ne_nil_of_mem inside, ⟨_, alphanumeric⟩, ?_⟩
  intro text inside
  obtain ⟨token, member, reads⟩ := exists_of_forall₂ read.flip _ inside
  cases reads with
  | text other =>
    have form := forms token member
    simp only [Layout.isToken, Bool.and_eq_true, Bool.not_eq_true', List.isEmpty_eq_false_iff,
      List.all_eq_true] at form
    obtain ⟨filled, chars⟩ := form
    refine ⟨by simpa using filled, by simpa using chars, ?_⟩
    simpa [Text.isNumeral, filled] using other

variable {padding : Padding} {patch : Part} {written : Option (List (List Char))}
  {revision : Option (List Part)} {preRelease : Option (List Identifier)}

theorem Reads.exclusive (read : Reads padding patch written revision preRelease) :
    revision = none ∨ preRelease = none := by
  cases read with
  | preRelease => exact .inl rfl
  | revision | bare | anyRevision => exact .inr rfl

theorem Reads.revision_ne_nil (read : Reads padding patch written revision preRelease)
    (filled : ∀ tokens ∈ written, tokens ≠ []) : ∀ parts ∈ revision, parts ≠ [] := by
  intro parts found
  cases read with
  | preRelease | bare => cases found
  | @revision tokens _ _ elements =>
    cases found
    rintro rfl
    exact filled tokens rfl (List.forall₂_nil_right_iff.mp elements)
  | anyRevision =>
    cases found
    exact List.cons_ne_nil _ _

/-- A revision has numbers throughout, or it is left open where none is written. -/
theorem Reads.values_or_open (read : Reads padding patch written revision preRelease) :
    ∀ parts ∈ revision, (∀ part ∈ parts, part.isValue) ∨
      parts = [.wildcard] ∧ padding = .wildcard ∧ ¬patch.isValue ∧ written = none := by
  intro parts found
  cases read with
  | preRelease | bare => cases found
  | revision numerals elements =>
    cases found
    refine .inl fun part member => ?_
    obtain ⟨token, inside, reads⟩ := exists_of_forall₂ elements.flip part member
    exact Part.Reads.isValue reads (numerals token inside)
  | anyRevision unpadded unwritten =>
    cases found
    exact .inr ⟨rfl, unpadded, unwritten, rfl⟩

theorem Reads.isPreRelease (read : Reads padding patch written revision preRelease)
    (forms : ∀ tokens ∈ written, ∀ token ∈ tokens, Layout.isToken token) :
    ∀ identifiers ∈ preRelease, IsPreRelease identifiers := by
  intro identifiers found
  cases read with
  | revision | bare | anyRevision => cases found
  | @preRelease tokens _ other elements =>
    cases found
    exact isPreRelease_of_reads elements (forms tokens rfl) other

end Suffix

namespace TargetForm

variable {form : TargetForm}

theorem IsValid.hyphen_not_mem (valid : form.IsValid) (unwritten : form.suffix = none) :
    '-' ∉ form.text.takeWhile (· != '+') := by
  have bare : form.layout.suffix = none := by
    rw [layout, unwritten]
    rfl
  rw [← Layout.front_ofText, valid.ofText_text, bare, Text.behind, List.append_nil]
  exact valid.not_mem_numbers (by decide) (by decide) (by decide)

theorem Shows.patch_absent {padding : Padding} {version : Version} (shows : form.Shows padding version)
    (absent : version.release.minor = .absent) : version.release.patch = .absent := by
  have written := Part.ne_absent_of_reads shows.written
  have unwritten := shows.unwritten
  generalize form.components.length = count at written unwritten
  match count with
  | 0 | 1 => exact unwritten _ (by simp [Release.parts])
  | count + 2 => exact absurd absent (written _ (by simp [Release.parts]))

end TargetForm

namespace Version

/-- What the fields of a version have in common, however it is come by. A revision is left open only
behind a patch that is no number, where no hyphen stands in front of the build metadata. -/
structure IsWellFormed (version : Version) : Prop where
  exclusive : version.suffix.revision? = none ∨ version.suffix.preRelease? = none
  revision : ∀ parts ∈ version.suffix.revision?, parts ≠ [] ∧ ((∀ part ∈ parts, part.isValue) ∨
    parts = [.wildcard] ∧ version.release.patch.isValue = false ∧
      '-' ∉ version.text.toList.takeWhile (· != '+'))
  preRelease : ∀ identifiers ∈ version.suffix.preRelease?, Suffix.IsPreRelease identifiers
  major : version.release.major ≠ .absent
  minor : version.release.minor = .absent → version.release.patch = .absent

structure IsClosed (version : Version) : Prop where
  release : ∀ part ∈ version.release.parts, part.isValue
  revision : ∀ parts ∈ version.suffix.revision?, ∀ part ∈ parts, part.isValue

theorem isWellFormed_of_parseTarget {padding : Padding} {text : String} {version : Version}
    (read : parseTarget padding text = .ok version) : version.IsWellFormed := by
  obtain ⟨form, valid, _, shows⟩ := exists_shows_of_parseTarget read
  constructor
  case exclusive => exact shows.suffix.exclusive
  case revision =>
    intro parts found
    have filled := shows.suffix.revision_ne_nil (fun tokens there => (valid.suffix tokens there).1)
    refine ⟨filled parts found, ?_⟩
    rcases shows.suffix.values_or_open parts found with values | ⟨rfl, _, patch, unwritten⟩
    · exact .inl values
    · refine .inr ⟨rfl, Bool.eq_false_iff.mpr patch, ?_⟩
      rw [shows.text, String.toList_ofList]
      exact valid.hyphen_not_mem unwritten
  case preRelease =>
    exact shows.suffix.isPreRelease fun tokens there => (valid.suffix tokens there).2
  case major => exact major_ne_absent_of_parseTarget read
  case minor => exact shows.patch_absent

theorem IsConcrete.isWellFormed {version : Version} (concrete : version.IsConcrete) :
    version.IsWellFormed := by
  have read := parse_eq_ok_iff.mpr ⟨concrete, rfl⟩
  exact isWellFormed_of_parseTarget (parseTarget_of_parse read .wildcard)

theorem IsConcrete.isClosed {version : Version} (concrete : version.IsConcrete) :
    version.IsClosed where
  release := by
    obtain ⟨major, minor, patch, same⟩ := concrete.release
    rw [same]
    simp [Release.ofNumbers, Release.parts, Part.isValue]
  revision := by
    -- with zeros for what is not written, a revision is not left open
    have read := parseTarget_of_parse (parse_eq_ok_iff.mpr ⟨concrete, rfl⟩) .zero
    obtain ⟨_, _, _, shows⟩ := exists_shows_of_parseTarget read
    intro parts found
    rcases shows.suffix.values_or_open parts found with values | ⟨_, unpadded, _⟩
    · exact values
    · contradiction

theorem IsConcrete.isObtained {version : Version} (concrete : version.IsConcrete) :
    version.IsObtained :=
  .read (parse_eq_ok_iff.mpr ⟨concrete, rfl⟩)

end Version

namespace Constraint

theorem IsObtained.isWellFormed {constraint : Constraint} (obtained : constraint.IsObtained) :
    constraint.version.IsWellFormed := by
  obtain ⟨padding, read⟩ := obtained.exists_parseTarget
  exact Version.isWellFormed_of_parseTarget read

theorem isWellFormed_any (padding : Padding) : (any padding).version.IsWellFormed :=
  Version.isWellFormed_of_parseTarget (isRead_any padding).target

end Constraint

namespace Version

/-- Every version that is read, built or shown is well-formed, under both policies. The concrete ones
and the bounds are closed as well, and constraints that are built from bounds bring nothing new. -/
theorem fields_are_well_formed :
    (∀ (text : String) (version : Version), parse text = .ok version →
      version.IsWellFormed ∧ version.IsClosed) ∧
    (∀ (padding : Padding) (text : String) (version : Version),
      parseTarget padding text = .ok version → version.IsWellFormed) ∧
    (∀ major minor patch : Nat, (ofNumbers major minor patch).IsWellFormed ∧
      (ofNumbers major minor patch).IsClosed) ∧
    (∀ padding : Padding, (Constraint.any padding).version.IsWellFormed) ∧
    ∀ constraint : Constraint, constraint.IsObtained →
      constraint.version.IsWellFormed ∧
      ∀ bound : Bound, constraint.lower? = some bound ∨ constraint.upper? = some bound →
        bound.version.IsWellFormed ∧ bound.version.IsClosed ∧ bound.version.IsObtained := by
  refine ⟨?_, ?_, ?_, Constraint.isWellFormed_any, ?_⟩
  · intro text version read
    obtain ⟨concrete, _⟩ := parse_eq_ok_iff.mp read
    exact ⟨concrete.isWellFormed, concrete.isClosed⟩
  · intro padding text version read
    exact isWellFormed_of_parseTarget read
  · intro major minor patch
    have concrete := isConcrete_ofNumbers major minor patch
    exact ⟨concrete.isWellFormed, concrete.isClosed⟩
  · intro constraint obtained
    refine ⟨obtained.isWellFormed, ?_⟩
    intro bound edge
    obtain ⟨concrete, _⟩ := obtained.isConcrete_bound edge
    exact ⟨concrete.isWellFormed, concrete.isClosed, concrete.isObtained⟩

/-- A concrete version with a revision, a target that leaves parts and its revision open, and the
bound of that target, which leaves none open. -/
theorem fields_are_well_formed_open :
    let concrete : Version := ⟨⟨.ofNumbers 1 2 3, .revision [4]⟩, some "b-1", "1.2.3-4+b-1"⟩
    let target : Version :=
      ⟨⟨⟨.value 1, .wildcard, .absent⟩, .anyRevision⟩, some "b-1", "v01.x+b-1"⟩
    let range : Constraint := ⟨.greaterThanOrEqual, target, .wildcard, ">=" ++ "v01.x+b-1"⟩
    parse "1.2.3-4+b-1" = .ok concrete ∧ concrete.IsWellFormed ∧ concrete.IsClosed ∧
      parseTarget .wildcard "v01.x+b-1" = .ok target ∧ target.IsWellFormed ∧ ¬target.IsClosed ∧
      range.IsObtained ∧ range.lower? = some ⟨ofNumbers 1 0 0, true⟩ ∧
      (ofNumbers 1 0 0).IsWellFormed ∧ (ofNumbers 1 0 0).IsClosed ∧ (ofNumbers 1 0 0).IsObtained := by
  intro concrete target range
  have strict : parse "1.2.3-4+b-1" = .ok concrete := by rfl
  have read : parseTarget .wildcard "v01.x+b-1" = .ok target := by rfl
  have spelled : Operator.parse ">=" = .ok .greaterThanOrEqual := rfl
  have obtained : range.IsObtained :=
    .read (Expression.parse_single spelled read) (List.mem_cons_self ..) (List.mem_cons_self ..)
  have lower : range.lower? = some ⟨ofNumbers 1 0 0, true⟩ := by rfl
  obtain ⟨parsed, targets, _, _, shown⟩ := fields_are_well_formed
  obtain ⟨form, closed⟩ := parsed _ concrete strict
  have unclosed : ¬target.IsClosed := by
    intro values
    have wildcard := values.revision [.wildcard] rfl .wildcard (List.mem_cons_self ..)
    contradiction
  exact ⟨strict, form, closed, read, targets _ _ target read, unclosed, obtained, lower,
    (shown range obtained).2 _ (.inl lower)⟩

end Version

end VersionRange
