import VersionRange.Proofs.Version.Target

/-! The written form of targets.

A target is written as one to three components, which may have a letter in front of
them, a suffix behind a hyphen and build metadata behind a plus sign. Exactly the
texts of this form are read. The form shows the fields of what is read: a component
stands for its part and a token for its element, and what is not written is absent.
-/

set_option autoImplicit false

namespace VersionRange

inductive Identifier.Reads : List Char → Identifier → Prop where
  | number {digits : List Char} (numeral : Text.isNumeral digits) :
      Reads digits (.numeric (Text.numeralValue digits))
  | text {token : List Char} (other : ¬Text.isNumeral token) :
      Reads token (.alphanumeric (String.ofList token))

/-- The revision and the pre-release that the tokens of a suffix stand for. Without a suffix there
is neither, unless the padding policy and the patch leave the revision open. -/
inductive Suffix.Reads (padding : Padding) (patch : Part) :
    Option (List (List Char)) → Option (List Part) → Option (List Identifier) → Prop where
  | revision {tokens : List (List Char)} {parts : List Part}
      (numerals : ∀ token ∈ tokens, Text.isNumeral token)
      (read : List.Forall₂ Part.Reads tokens parts) :
      Reads padding patch (some tokens) (some parts) none
  | preRelease {tokens : List (List Char)} {identifiers : List Identifier}
      (other : ¬∀ token ∈ tokens, Text.isNumeral token)
      (read : List.Forall₂ Identifier.Reads tokens identifiers) :
      Reads padding patch (some tokens) none (some identifiers)
  | bare (closed : padding = .zero ∨ patch.isValue) : Reads padding patch none none none
  | anyRevision (unpadded : padding = .wildcard) (unwritten : ¬patch.isValue) :
      Reads padding patch none (some [.wildcard]) none

structure TargetForm where
  letter : Bool
  components : List (List Char)
  suffix : Option (List (List Char))
  build : Option (List (List Char))

namespace TargetForm

def layout (form : TargetForm) : Layout where
  numbers := (if form.letter then ['v'] else []) ++ ['.'].intercalate form.components
  suffix := form.suffix.map (['.'].intercalate ·)
  build := form.build.map (['.'].intercalate ·)

def text (form : TargetForm) : List Char :=
  form.layout.text

structure IsValid (form : TargetForm) : Prop where
  components : ∀ component ∈ form.components, ∃ part, Part.Reads component part
  count : 1 ≤ form.components.length ∧ form.components.length ≤ 3
  suffix : ∀ tokens ∈ form.suffix, tokens ≠ [] ∧ ∀ token ∈ tokens, Layout.isToken token
  build : ∀ tokens ∈ form.build, tokens ≠ [] ∧ ∀ token ∈ tokens, Layout.isToken token

structure Shows (form : TargetForm) (padding : Padding) (version : Version) : Prop where
  written : List.Forall₂ Part.Reads form.components
    (version.release.parts.take form.components.length)
  unwritten : ∀ part ∈ version.release.parts.drop form.components.length, part = .absent
  suffix : Suffix.Reads padding version.release.patch form.suffix version.suffix.revision?
    version.suffix.preRelease?
  build : version.build = form.build.map fun tokens => String.ofList (['.'].intercalate tokens)
  text : version.text = String.ofList form.text

end TargetForm

theorem Identifier.reads_ofToken (token : List Char) : Reads token (ofToken token) := by
  unfold ofToken
  split
  · next numeral => exact .number numeral
  · next other => exact .text other

namespace Suffix

theorem reads_ofTokens (padding : Padding) (patch : Part) (tokens : List (List Char)) :
    Reads padding patch (some tokens) (ofTokens tokens).revision? (ofTokens tokens).preRelease? := by
  unfold ofTokens
  split
  · next numerals =>
    rw [List.all_eq_true] at numerals
    refine .revision numerals ?_
    rw [List.forall₂_map_right_iff, List.forall₂_map_right_iff, List.forall₂_same]
    exact fun token member => .number (numerals token member)
  · next other =>
    rw [List.all_eq_true] at other
    refine .preRelease other ?_
    rw [List.forall₂_map_right_iff, List.forall₂_same]
    exact fun token _ => Identifier.reads_ofToken token

theorem reads_impliedSuffix (padding : Padding) (release : Release) :
    Reads padding release.patch none (release.impliedSuffix padding).revision?
      (release.impliedSuffix padding).preRelease? := by
  obtain ⟨major, minor, patch⟩ := release
  cases padding with
  | zero => exact .bare (.inl rfl)
  | wildcard =>
    cases patch with
    | absent | wildcard => exact .anyRevision rfl Bool.false_ne_true
    | value n => exact .bare (.inr rfl)

end Suffix

namespace TargetForm

def isComponentChar (c : Char) : Bool :=
  c.isDigit || c == '*' || c == 'x' || c == 'X'

theorem all_isComponentChar {component : List Char} {part : Part}
    (read : Part.Reads component part) : component.all isComponentChar := by
  cases read with
  | number numeral =>
    simp only [Text.isNumeral, Bool.and_eq_true] at numeral
    apply Text.all_mono numeral.2
    intro c digit
    simp [isComponentChar, digit]
  | star | small | capital => rfl

section

variable {form : TargetForm} (valid : form.IsValid)
include valid

theorem IsValid.components_ne_nil : form.components ≠ [] := by
  intro empty
  have some := valid.count.1
  rw [empty] at some
  contradiction

theorem IsValid.all_components {component : List Char} (member : component ∈ form.components) :
    component.all isComponentChar := by
  obtain ⟨part, read⟩ := valid.components component member
  exact all_isComponentChar read

theorem IsValid.not_mem_components {mark : Char} (dot : mark ≠ '.')
    (other : isComponentChar mark = false) : mark ∉ ['.'].intercalate form.components := by
  have chars : (['.'].intercalate form.components).all fun c => isComponentChar c || c == '.' := by
    apply Layout.all_intercalate rfl
    intro component member
    apply Text.all_mono (valid.all_components member)
    intro c inside
    simp [inside]
  exact Text.not_mem_of_all chars (by simp [other, dot])

theorem IsValid.tokens_components :
    Layout.tokens (['.'].intercalate form.components) = form.components := by
  refine List.splitOn_intercalate '.' ?_ valid.components_ne_nil
  intro component member
  exact Text.not_mem_of_all (valid.all_components member) (by decide)

theorem IsValid.dropLetter_numbers :
    Layout.dropLetter form.layout.numbers = ['.'].intercalate form.components := by
  rw [layout]
  cases form.letter with
  | true => rfl
  | false => exact Layout.dropLetter_of_not_mem (valid.not_mem_components (by decide) (by decide))

theorem IsValid.not_mem_numbers {mark : Char} (letter : mark ≠ 'v') (dot : mark ≠ '.')
    (other : isComponentChar mark = false) : mark ∉ form.layout.numbers := by
  intro member
  rcases List.mem_append.mp member with front | back
  · cases found : form.letter <;> simp [found, letter] at front
  · exact valid.not_mem_components dot other back

theorem IsValid.ofText_text : Layout.ofText form.text = form.layout := by
  apply Layout.ofText_text
  · exact valid.not_mem_numbers (by decide) (by decide) (by decide)
  · exact valid.not_mem_numbers (by decide) (by decide) (by decide)
  · intro piece written
    obtain ⟨tokens, found, rfl⟩ := Option.map_eq_some_iff.mp written
    exact Text.not_mem_of_all (Layout.all_isPieceChar (valid.suffix tokens found).2) (by decide)

theorem IsValid.exists_release : ∃ release, Release.Reads form.components release := by
  -- each component has a part, so the components have a list of them
  have each : List.Forall₂ (fun component _ => ∃ part, Part.Reads component part) form.components
      form.components := List.forall₂_same.mpr valid.components
  obtain ⟨written, read, _⟩ := exists_forall₂ (T := fun _ _ => True) each
    fun _ _ found => found.imp fun _ reads => ⟨reads, trivial⟩
  obtain ⟨some, three⟩ := valid.count
  rw [read.length_eq] at some three
  match written, some, three with
  | [major], _, _ => exact ⟨⟨major, .absent, .absent⟩, [major], 2, read, rfl⟩
  | [major, minor], _, _ => exact ⟨⟨major, minor, .absent⟩, [major, minor], 1, read, rfl⟩
  | [major, minor, patch], _, _ => exact ⟨⟨major, minor, patch⟩, [major, minor, patch], 0, read, rfl⟩

theorem IsValid.readParts?_layout {release : Release} (read : Release.Reads form.components release) :
    form.layout.readParts? = some release := by
  rw [Version.readParts?_eq_some_iff, valid.dropLetter_numbers, valid.tokens_components]
  exact read

theorem IsValid.readSuffix?_layout :
    form.layout.readSuffix? Layout.isToken = some (form.suffix.map Suffix.ofTokens) := by
  cases written : form.suffix with
  | none => simp [Layout.readSuffix?, layout, written]
  | some tokens =>
    obtain ⟨filled, forms⟩ := valid.suffix tokens written
    have cut := Layout.tokens_intercalate filled forms
    simp only [Layout.readSuffix?, layout, written, Option.map_some, cut]
    rw [if_pos (List.all_eq_true.mpr forms)]

theorem IsValid.readBuild?_layout : form.layout.readBuild? =
    some (form.build.map fun tokens => String.ofList (['.'].intercalate tokens)) := by
  cases written : form.build with
  | none => simp [Layout.readBuild?, layout, written]
  | some tokens =>
    obtain ⟨filled, forms⟩ := valid.build tokens written
    have cut := Layout.tokens_intercalate filled forms
    simp only [Layout.readBuild?, layout, written, Option.map_some, cut]
    rw [if_pos (List.all_eq_true.mpr forms)]

theorem IsValid.parseTarget_text {release : Release} (read : Release.Reads form.components release)
    (padding : Padding) :
    Version.parseTarget padding (String.ofList form.text) =
      .ok ⟨⟨release, (form.suffix.map Suffix.ofTokens).getD (release.impliedSuffix padding)⟩,
        form.build.map fun tokens => String.ofList (['.'].intercalate tokens),
        String.ofList form.text⟩ := by
  rw [Version.parseTarget_eq_ok_iff, String.toList_ofList, valid.ofText_text]
  exact ⟨release, _, _, valid.readParts?_layout read, valid.readSuffix?_layout,
    valid.readBuild?_layout, rfl⟩

theorem IsValid.exists_shows (padding : Padding) : ∃ version,
    Version.parseTarget padding (String.ofList form.text) = .ok version ∧
      form.Shows padding version := by
  obtain ⟨release, found⟩ := valid.exists_release
  refine ⟨_, valid.parseTarget_text found padding, ?_, ?_, ?_, rfl, rfl⟩
  · obtain ⟨written, missing, read, parts⟩ := found
    dsimp only
    rw [parts, read.length_eq, List.take_left]
    exact read
  · obtain ⟨written, missing, read, parts⟩ := found
    dsimp only
    rw [parts, read.length_eq, List.drop_left]
    exact fun part member => List.eq_of_mem_replicate member
  · dsimp only
    cases form.suffix with
    | none => exact Suffix.reads_impliedSuffix padding release
    | some tokens => exact Suffix.reads_ofTokens padding release.patch tokens

end

end TargetForm

namespace TargetForm

def ofLayout (layout : Layout) : TargetForm where
  letter := layout.numbers.head? == some 'v'
  components := Layout.tokens (Layout.dropLetter layout.numbers)
  suffix := layout.suffix.map Layout.tokens
  build := layout.build.map Layout.tokens

theorem letter_append_dropLetter (numbers : List Char) :
    (if numbers.head? == some 'v' then ['v'] else []) ++ Layout.dropLetter numbers = numbers := by
  cases numbers with
  | nil => rfl
  | cons c rest =>
    rw [Layout.dropLetter_cons]
    by_cases letter : c = 'v'
    · subst letter
      rfl
    · simp [letter]

theorem layout_ofLayout (layout : Layout) : (ofLayout layout).layout = layout := by
  obtain ⟨numbers, suffix, build⟩ := layout
  have joined (piece : Option (List Char)) :
      (piece.map Layout.tokens).map (['.'].intercalate ·) = piece := by
    cases piece with
    | none => rfl
    | some piece => simp [Layout.intercalate_tokens]
  rw [TargetForm.layout, Layout.mk.injEq]
  refine ⟨?_, joined suffix, joined build⟩
  change (if numbers.head? == some 'v' then ['v'] else []) ++
    ['.'].intercalate (Layout.tokens (Layout.dropLetter numbers)) = numbers
  rw [Layout.intercalate_tokens, letter_append_dropLetter]

theorem isValid_ofLayout {layout : Layout} {release : Release} {suffix : Option Suffix}
    {build : Option String} (parts : layout.readParts? = some release)
    (elements : layout.readSuffix? Layout.isToken = some suffix)
    (metadata : layout.readBuild? = some build) : (ofLayout layout).IsValid := by
  obtain ⟨written, missing, components, shape⟩ := Version.readParts?_eq_some_iff.mp parts
  constructor
  case components =>
    intro component member
    obtain ⟨part, _, reads⟩ := exists_of_forall₂ components component member
    exact ⟨part, reads⟩
  case count =>
    have three := Release.three_eq_add shape
    rw [← components.length_eq] at three
    have some := List.length_pos_iff.mpr (Layout.tokens_ne_nil (Layout.dropLetter layout.numbers))
    exact ⟨some, three ▸ Nat.le_add_right _ missing⟩
  case suffix =>
    intro tokens member
    obtain ⟨piece, there, rfl⟩ := Option.map_eq_some_iff.mp member
    exact ⟨Layout.tokens_ne_nil piece, Version.isToken_of_readSuffix? elements piece there⟩
  case build =>
    intro tokens member
    obtain ⟨piece, there, rfl⟩ := Option.map_eq_some_iff.mp member
    exact ⟨Layout.tokens_ne_nil piece, Version.isToken_of_readBuild? metadata piece there⟩

end TargetForm

namespace Version

theorem exists_form_of_parseTarget {padding : Padding} {text : String} {version : Version}
    (read : parseTarget padding text = .ok version) :
    ∃ form : TargetForm, form.IsValid ∧ form.text = text.toList := by
  obtain ⟨release, suffix, build, parts, elements, metadata, _⟩ := parseTarget_eq_ok_iff.mp read
  refine ⟨.ofLayout (Layout.ofText text.toList), ?_, ?_⟩
  · exact TargetForm.isValid_ofLayout parts elements metadata
  · rw [TargetForm.text, TargetForm.layout_ofLayout, Layout.text_ofText]

theorem exists_shows_of_parseTarget {padding : Padding} {text : String} {version : Version}
    (read : parseTarget padding text = .ok version) :
    ∃ form : TargetForm, form.IsValid ∧ form.text = text.toList ∧ form.Shows padding version := by
  obtain ⟨form, valid, written⟩ := exists_form_of_parseTarget read
  obtain ⟨again, reread, shows⟩ := valid.exists_shows padding
  rw [written, String.ofList_toList, read] at reread
  cases reread
  exact ⟨form, valid, written, shows⟩

end Version

end VersionRange
