import VersionRange.Proofs.Version.Suffix
import VersionRange.Version.Strict

/-! Concrete versions and their texts.

A concrete version is read from exactly one text, the canonical text of its
fields, and no other text is read. Each reader is inverted on its own piece; the
pieces of a canonical text are those of its fields, since none holds a mark.
-/

set_option autoImplicit false

namespace VersionRange

namespace Release

theorem mem_render_ofNumbers {major minor patch : Nat} {token : List Char}
    (member : token ∈ (ofNumbers major minor patch).parts.map Part.render) :
    ∃ n, token = Text.numeral n := by
  simp only [ofNumbers, parts, List.map_cons, List.map_nil, Part.render, List.mem_cons,
    List.not_mem_nil, or_false] at member
  rcases member with rfl | rfl | rfl <;> exact ⟨_, rfl⟩

end Release

namespace Layout

def isBuild (build : String) : Bool :=
  (tokens build.toList).all isToken

theorem tokens_render_ofNumbers (major minor patch : Nat) :
    tokens (Release.ofNumbers major minor patch).render =
      [Text.numeral major, Text.numeral minor, Text.numeral patch] := by
  apply tokens_intercalate (by simp [Release.parts])
  intro token member
  obtain ⟨n, rfl⟩ := Release.mem_render_ofNumbers member
  exact isToken_of_isStrictToken (isStrictToken_numeral n)

theorem readNumbers?_eq_some_iff {layout : Layout} {release : Release} :
    layout.readNumbers? = some release ↔
      (∃ major minor patch, release = .ofNumbers major minor patch) ∧
        layout.numbers = release.render := by
  constructor
  · intro read
    unfold readNumbers? at read
    split at read
    · next major minor patch cut =>
      split at read
      · next canonical =>
        cases read
        refine ⟨⟨_, _, _, rfl⟩, ?_⟩
        simp only [List.all_cons, List.all_nil, Bool.and_true, Bool.and_eq_true] at canonical
        obtain ⟨first, second, third⟩ := canonical
        have joined := intercalate_tokens layout.numbers
        rw [cut] at joined
        rw [← joined]
        simp only [Release.render, Release.parts, Release.ofNumbers, List.map_cons, List.map_nil,
          Part.render, Text.numeral_numeralValue first, Text.numeral_numeralValue second,
          Text.numeral_numeralValue third]
      · contradiction
    · contradiction
  · rintro ⟨⟨major, minor, patch, rfl⟩, written⟩
    simp [readNumbers?, written, tokens_render_ofNumbers, Text.isCanonicalNumeral_numeral]

theorem readSuffix?_eq_some_iff {layout : Layout} {suffix : Suffix} :
    (∃ read, layout.readSuffix? isStrictToken = some read ∧ read.getD .bare = suffix) ↔
      suffix.isConcrete ∧ layout.suffix = suffix.piece? := by
  constructor
  · rintro ⟨read, found, rfl⟩
    unfold readSuffix? at found
    split at found
    · next none =>
      cases found
      exact ⟨rfl, none⟩
    · next piece written =>
      split at found
      · next strict =>
        cases found
        rw [List.all_eq_true] at strict
        have forms := forall_isToken_of_isStrictToken strict
        refine ⟨Suffix.isConcrete_ofTokens (tokens_ne_nil piece) forms, ?_⟩
        rw [written, Option.getD_some, Suffix.piece?, Suffix.tokens?_ofTokens strict,
          Option.map_some, intercalate_tokens]
      · contradiction
  · rintro ⟨concrete, written⟩
    cases elements : suffix.tokens? with
    | none =>
      have bare : suffix = .bare := by cases suffix <;> simp_all [Suffix.tokens?]
      subst bare
      exact ⟨none, by rw [readSuffix?, written]; rfl, rfl⟩
    | some pieces =>
      obtain ⟨nonempty, strict, back⟩ := Suffix.ofTokens_tokens? concrete elements
      have forms := forall_isToken_of_isStrictToken strict
      refine ⟨some suffix, ?_, rfl⟩
      rw [readSuffix?, written, Suffix.piece?, elements, Option.map_some]
      simp only [tokens_intercalate nonempty forms]
      rw [if_pos (List.all_eq_true.mpr strict), back]

theorem readBuild?_eq_some_iff {layout : Layout} {build : Option String} :
    layout.readBuild? = some build ↔
      build.all isBuild ∧ layout.build = build.map String.toList := by
  unfold readBuild?
  cases written : layout.build with
  | none => cases build <;> simp
  | some piece =>
    cases build with
    | none => simp
    | some text =>
      have same : text = String.ofList piece ↔ piece = text.toList := by
        rw [← String.toList_inj, String.toList_ofList, eq_comm]
      simp only [Option.ite_none_right_eq_some, Option.some.injEq, Option.all_some, isBuild,
        Option.map_some, eq_comm (a := String.ofList piece), same]
      constructor
      · rintro ⟨forms, rfl⟩
        exact ⟨forms, rfl⟩
      · rintro ⟨forms, rfl⟩
        exact ⟨forms, rfl⟩

theorem isSome_readNumbers? (layout : Layout) :
    layout.readNumbers?.isSome ↔ (tokens layout.numbers).length = 3 ∧
      (tokens layout.numbers).all Text.isCanonicalNumeral := by
  unfold readNumbers?
  split
  · next cut => split <;> simp_all
  · next other =>
    constructor
    · simp
    · rintro ⟨three, _⟩
      match cut : tokens layout.numbers, three with
      | [major, minor, patch], _ => exact absurd cut (other major minor patch)

theorem isSome_readSuffix? (condition : List Char → Bool) (layout : Layout) :
    (layout.readSuffix? condition).isSome ↔
      layout.suffix.all fun piece => (tokens piece).all condition := by
  unfold readSuffix?
  cases layout.suffix with
  | none => simp
  | some piece => split <;> simp_all

theorem isSome_readBuild? (layout : Layout) :
    layout.readBuild?.isSome ↔ layout.build.all fun piece => (tokens piece).all isToken := by
  unfold readBuild?
  cases layout.build with
  | none => simp
  | some piece => split <;> simp_all

theorem isStrict_iff (layout : Layout) :
    layout.isStrict ↔ layout.readNumbers?.isSome ∧ (layout.readSuffix? isStrictToken).isSome ∧
      layout.readBuild?.isSome := by
  rw [isSome_readNumbers?, isSome_readSuffix?, isSome_readBuild?, isStrict]
  simp only [Bool.and_eq_true, beq_iff_eq, and_assoc]

end Layout

namespace Version

/-- A version with concrete fields, together with its canonical text. -/
structure IsConcrete (version : Version) : Prop where
  release : ∃ major minor patch, version.release = .ofNumbers major minor patch
  suffix : version.suffix.isConcrete
  build : version.build.all Layout.isBuild
  text : version.text = String.ofList version.render

theorem isConcrete_toVersion {precedence : Precedence}
    (numbers : ∃ major minor patch, precedence.release = .ofNumbers major minor patch)
    (concrete : precedence.suffix.isConcrete) : precedence.toVersion.IsConcrete where
  release := numbers
  suffix := concrete
  build := rfl
  text := by rw [Precedence.toVersion, render, List.append_nil]

def layout (version : Version) : Layout :=
  ⟨version.release.render, version.suffix.piece?, version.build.map String.toList⟩

theorem text_layout (version : Version) : version.layout.text = version.render := by
  unfold layout Layout.text render Precedence.render
  rw [Suffix.render_eq_behind]
  cases version.build <;> rfl

theorem all_render_release {release : Release}
    (numbers : ∃ major minor patch, release = .ofNumbers major minor patch) :
    release.render.all fun c => c.isDigit || c == '.' := by
  obtain ⟨major, minor, patch, rfl⟩ := numbers
  apply Layout.all_intercalate rfl
  intro token member
  obtain ⟨n, rfl⟩ := Release.mem_render_ofNumbers member
  apply Text.all_mono (Text.all_isDigit_numeral n)
  intro c digit
  simp [digit]

theorem plus_not_mem_piece {suffix : Suffix} (concrete : suffix.isConcrete) :
    ∀ piece ∈ suffix.piece?, '+' ∉ piece := by
  intro piece member
  obtain ⟨pieces, written, rfl⟩ := Option.map_eq_some_iff.mp member
  obtain ⟨_, strict, _⟩ := Suffix.ofTokens_tokens? concrete written
  have chars := Layout.all_isPieceChar (Layout.forall_isToken_of_isStrictToken strict)
  exact Text.not_mem_of_all chars (by decide)

theorem IsConcrete.ofText_render {version : Version} (concrete : version.IsConcrete) :
    Layout.ofText version.render = version.layout := by
  rw [← text_layout]
  -- the numbers hold no mark, and the suffix no plus; its hyphens do no harm
  apply Layout.ofText_text
  · exact Text.not_mem_of_all (all_render_release concrete.release) (by decide)
  · exact Text.not_mem_of_all (all_render_release concrete.release) (by decide)
  · exact plus_not_mem_piece concrete.suffix

theorem parse_eq_ok_iff_pieces {text : String} {version : Version} :
    parse text = .ok version ↔
      ∃ release suffix build, (Layout.ofText text.toList).readNumbers? = some release ∧
        (Layout.ofText text.toList).readSuffix? Layout.isStrictToken = some suffix ∧
        (Layout.ofText text.toList).readBuild? = some build ∧
        version = ⟨⟨release, suffix.getD .bare⟩, build, text⟩ := by
  unfold parse
  dsimp only
  constructor
  · intro read
    split at read
    · next release suffix build numbers tokens metadata =>
      cases read
      exact ⟨release, suffix, build, numbers, tokens, metadata, rfl⟩
    · contradiction
  · rintro ⟨release, suffix, build, numbers, tokens, metadata, rfl⟩
    simp only [numbers, tokens, metadata]

theorem eq_of_parse_eq_error {text : String} {error : InvalidVersion}
    (refused : parse text = .error error) : error = ⟨text⟩ := by
  unfold parse at refused
  dsimp only at refused
  split at refused
  · contradiction
  · exact (Except.error.inj refused).symm

/-- What is read are the canonical texts, each as the fields that it is the text of. -/
theorem parse_eq_ok_iff {text : String} {version : Version} :
    parse text = .ok version ↔ version.IsConcrete ∧ version.text = text := by
  constructor
  · intro read
    obtain ⟨release, suffix, build, numbers, tokens, metadata, rfl⟩ :=
      parse_eq_ok_iff_pieces.mp read
    obtain ⟨form, numbers⟩ := Layout.readNumbers?_eq_some_iff.mp numbers
    obtain ⟨concrete, piece⟩ := Layout.readSuffix?_eq_some_iff.mp ⟨suffix, tokens, rfl⟩
    obtain ⟨buildForm, metadata⟩ := Layout.readBuild?_eq_some_iff.mp metadata
    refine ⟨⟨form, concrete, buildForm, ?_⟩, rfl⟩
    -- the pieces of the text are those of the fields, so the text is theirs too
    rw [← text_layout, layout, ← numbers, ← piece, ← metadata, Layout.text_ofText]
    exact String.ofList_toList.symm
  · rintro ⟨concrete, rfl⟩
    have pieces : Layout.ofText version.text.toList = version.layout := by
      rw [concrete.text, String.toList_ofList, concrete.ofText_render]
    obtain ⟨suffix, tokens, same⟩ : ∃ read, version.layout.readSuffix? Layout.isStrictToken =
        some read ∧ read.getD .bare = version.suffix :=
      Layout.readSuffix?_eq_some_iff.mpr ⟨concrete.suffix, rfl⟩
    rw [parse_eq_ok_iff_pieces, pieces]
    refine ⟨version.release, suffix, version.build, ?_, tokens, ?_, ?_⟩
    · exact Layout.readNumbers?_eq_some_iff.mpr ⟨concrete.release, rfl⟩
    · exact Layout.readBuild?_eq_some_iff.mpr ⟨concrete.build, rfl⟩
    · rw [same]

theorem isValid_iff {text : String} : isValid text ↔ ∃ version, parse text = .ok version := by
  rw [isValid, Layout.isStrict_iff]
  constructor
  · rintro ⟨numbers, tokens, metadata⟩
    obtain ⟨release, numbers⟩ := Option.isSome_iff_exists.mp numbers
    obtain ⟨suffix, tokens⟩ := Option.isSome_iff_exists.mp tokens
    obtain ⟨build, metadata⟩ := Option.isSome_iff_exists.mp metadata
    exact ⟨_, parse_eq_ok_iff_pieces.mpr
      ⟨release, suffix, build, numbers, tokens, metadata, rfl⟩⟩
  · rintro ⟨version, read⟩
    obtain ⟨release, suffix, build, numbers, tokens, metadata, _⟩ :=
      parse_eq_ok_iff_pieces.mp read
    simp [numbers, tokens, metadata]

theorem parse_eq_error_iff {text : String} {error : InvalidVersion} :
    parse text = .error error ↔ ¬isValid text ∧ error = ⟨text⟩ := by
  rw [isValid_iff]
  cases read : parse text with
  | ok version => simp
  | error fault => simp [eq_of_parse_eq_error read, eq_comm]

def ofFields (precedence : Precedence) (build : Option String) : Version :=
  ⟨precedence, build, String.ofList (render ⟨precedence, build, ""⟩)⟩

/-- Printing and reading are inverse to each other on all concrete fields and on all texts that
are read; every other text is refused and quoted as it is. -/
theorem parse_inverts_render :
    (∀ (major minor patch : Nat) (suffix : Suffix) (build : Option String),
      suffix.isConcrete → build.all Layout.isBuild →
      let version := ofFields ⟨.ofNumbers major minor patch, suffix⟩ build
      parse version.text = .ok version) ∧
    (∀ text version, parse text = .ok version →
      (∃ major minor patch, version.release = .ofNumbers major minor patch) ∧
      version.suffix.isConcrete ∧ version.build.all Layout.isBuild ∧
      version.text = text ∧ String.ofList version.render = text) ∧
    (∀ text, (∃ version, parse text = .ok version) ∨ parse text = .error ⟨text⟩) ∧
    (∀ text, isValid text ↔ ∃ version, parse text = .ok version) := by
  refine ⟨?_, ?_, ?_, fun text => isValid_iff⟩
  · intro major minor patch suffix build concrete metadata
    exact parse_eq_ok_iff.mpr ⟨⟨⟨major, minor, patch, rfl⟩, concrete, metadata, rfl⟩, rfl⟩
  · intro text version read
    obtain ⟨concrete, rfl⟩ := parse_eq_ok_iff.mp read
    exact ⟨concrete.release, concrete.suffix, concrete.build, rfl, concrete.text.symm⟩
  · intro text
    cases read : parse text with
    | ok version => exact .inl ⟨version, rfl⟩
    | error error =>
      rw [eq_of_parse_eq_error read]
      exact .inr rfl

/-- A pre-release whose tokens hold hyphens and digits, with metadata that starts with a zero. -/
theorem parse_hyphenated :
    (Suffix.preRelease [.alphanumeric "x-0", .numeric 7]).isConcrete ∧
      (some "01.-").all Layout.isBuild ∧
      let version := ofFields ⟨.ofNumbers 1 0 20, .preRelease [.alphanumeric "x-0", .numeric 7]⟩
        (some "01.-")
      version.text = "1.0.20-x-0.7+01.-" ∧ parse version.text = .ok version := by
  have concrete : (Suffix.preRelease [.alphanumeric "x-0", .numeric 7]).isConcrete := by decide
  have metadata : (some "01.-").all Layout.isBuild := by decide
  exact ⟨concrete, metadata, by decide, parse_inverts_render.1 1 0 20 _ _ concrete metadata⟩

end Version

end VersionRange
