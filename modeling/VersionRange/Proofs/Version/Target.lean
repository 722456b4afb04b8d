import VersionRange.Proofs.Traversal
import VersionRange.Proofs.Version.Strict
import VersionRange.Version.Target

/-! Reading targets.

A target is read piece by piece and its parts component by component. Whatever reads
as a concrete version reads as a target with the same fields, and there the padding
policy does not show.
-/

set_option autoImplicit false

namespace VersionRange

inductive Part.Reads : List Char → Part → Prop where
  | number {digits : List Char} (numeral : Text.isNumeral digits) :
      Reads digits (.value (Text.numeralValue digits))
  | star : Reads ['*'] .wildcard
  | small : Reads ['x'] .wildcard
  | capital : Reads ['X'] .wildcard

/-- The release that components stand for: the parts that they write and, behind them, those that
are not written. -/
def Release.Reads (components : List (List Char)) (release : Release) : Prop :=
  ∃ written missing, List.Forall₂ Part.Reads components written ∧
    release.parts = written ++ List.replicate missing .absent

theorem Part.ofToken?_eq_some_iff {token : List Char} {part : Part} :
    ofToken? token = some part ↔ Reads token part := by
  unfold ofToken?
  constructor
  · intro read
    split at read
    · next numeral =>
      cases read
      exact .number numeral
    · split at read
      · next mark =>
        cases read
        simp only [Bool.or_eq_true, beq_iff_eq] at mark
        rcases mark with (rfl | rfl) | rfl
        · exact .star
        · exact .small
        · exact .capital
      · contradiction
  · intro read
    cases read with
    | number numeral => rw [if_pos numeral]
    | star | small | capital => rfl

theorem Part.ne_absent_of_reads {components : List (List Char)} {written : List Part}
    (read : List.Forall₂ Reads components written) : ∀ part ∈ written, part ≠ .absent := by
  intro part member
  obtain ⟨_, _, reads⟩ := exists_of_forall₂ read.flip part member
  cases reads <;> simp

theorem Release.Reads.exists_first {components : List (List Char)} {release : Release}
    (read : Reads components release) (filled : components ≠ []) :
    ∃ first others, components = first :: others ∧ Part.Reads first release.major := by
  obtain ⟨written, missing, each, parts⟩ := read
  cases each with
  | nil => contradiction
  | cons first rest =>
    obtain ⟨major, _⟩ := List.cons.inj parts
    exact ⟨_, _, rfl, major ▸ first⟩

theorem Release.Reads.major_ne_absent {components : List (List Char)} {release : Release}
    (read : Reads components release) (filled : components ≠ []) : release.major ≠ .absent := by
  obtain ⟨first, others, _, reads⟩ := read.exists_first filled
  intro absent
  rw [absent] at reads
  cases reads

theorem Release.three_eq_add {release : Release} {written : List Part} {missing : Nat}
    (parts : release.parts = written ++ List.replicate missing .absent) :
    3 = written.length + missing := by
  have lengths := congrArg List.length parts
  rwa [List.length_append, List.length_replicate] at lengths

theorem Part.ofToken?_numeral (n : Nat) : ofToken? (Text.numeral n) = some (.value n) := by
  have numeral := Text.isNumeral_of_isCanonicalNumeral (Text.isCanonicalNumeral_numeral n)
  simp [ofToken?, numeral]

namespace Layout

theorem dropLetter_cons (c : Char) (rest : List Char) :
    dropLetter (c :: rest) = if c = 'v' then rest else c :: rest := by
  by_cases letter : c = 'v'
  · subst letter
    rfl
  · rw [if_neg letter]
    unfold dropLetter
    split
    · next found =>
      cases found
      contradiction
    · rfl

theorem dropLetter_of_not_mem {text : List Char} (absent : 'v' ∉ text) : dropLetter text = text := by
  unfold dropLetter
  split
  · simp at absent
  · rfl

theorem readParts?_of_readNumbers? {layout : Layout} {release : Release}
    (read : layout.readNumbers? = some release) : layout.readParts? = some release := by
  obtain ⟨numbers, written⟩ := readNumbers?_eq_some_iff.mp read
  have noLetter : 'v' ∉ release.render :=
    Text.not_mem_of_all (Version.all_render_release numbers) (by decide)
  obtain ⟨major, minor, patch, rfl⟩ := numbers
  rw [readParts?, written, dropLetter_of_not_mem noLetter, tokens_render_ofNumbers]
  simp [Part.ofToken?_numeral, Release.ofNumbers]

theorem readSuffix?_isToken {layout : Layout} {suffix : Option Suffix}
    (read : layout.readSuffix? isStrictToken = some suffix) :
    layout.readSuffix? isToken = some suffix := by
  unfold readSuffix? at read ⊢
  cases written : layout.suffix with
  | none => simpa [written] using read
  | some piece =>
    simp only [written] at read ⊢
    split at read
    · next strict =>
      rw [List.all_eq_true] at strict
      have forms := forall_isToken_of_isStrictToken strict
      rw [if_pos (List.all_eq_true.mpr forms)]
      exact read
    · contradiction

theorem suffix_ofText_of_not_mem {text : List Char} (absent : '-' ∉ text.takeWhile (· != '+')) :
    (ofText text).suffix = none := by
  simp only [ofText, Text.cut_fst, Text.cut_of_not_mem absent]

end Layout

namespace Version

theorem parseTarget_eq_ok_iff {padding : Padding} {text : String} {version : Version} :
    parseTarget padding text = .ok version ↔
      ∃ release suffix build, (Layout.ofText text.toList).readParts? = some release ∧
        (Layout.ofText text.toList).readSuffix? Layout.isToken = some suffix ∧
        (Layout.ofText text.toList).readBuild? = some build ∧
        version = ⟨⟨release, suffix.getD (release.impliedSuffix padding)⟩, build, text⟩ := by
  unfold parseTarget
  dsimp only
  constructor
  · intro read
    split at read
    · next release suffix build parts tokens metadata =>
      cases read
      exact ⟨release, suffix, build, parts, tokens, metadata, rfl⟩
    · contradiction
  · rintro ⟨release, suffix, build, parts, tokens, metadata, rfl⟩
    simp only [parts, tokens, metadata]

theorem parseTarget_eq_error_iff {padding : Padding} {text : String} {error : InvalidVersion} :
    parseTarget padding text = .error error ↔
      (∀ version, parseTarget padding text ≠ .ok version) ∧ error = ⟨text⟩ := by
  unfold parseTarget
  dsimp only
  split
  · simp
  · simp [eq_comm]

theorem text_of_parseTarget {padding : Padding} {text : String} {version : Version}
    (read : parseTarget padding text = .ok version) : version.text = text := by
  obtain ⟨release, suffix, build, _, _, _, rfl⟩ := parseTarget_eq_ok_iff.mp read
  rfl

theorem parseTarget_of_parse {text : String} {version : Version} (read : parse text = .ok version)
    (padding : Padding) : parseTarget padding text = .ok version := by
  obtain ⟨release, suffix, build, numbers, tokens, metadata, rfl⟩ := parse_eq_ok_iff_pieces.mp read
  refine parseTarget_eq_ok_iff.mpr ⟨release, suffix, build, Layout.readParts?_of_readNumbers? numbers,
    Layout.readSuffix?_isToken tokens, metadata, ?_⟩
  -- a patch that is written implies no open revision
  obtain ⟨⟨major, minor, patch, rfl⟩, _⟩ := Layout.readNumbers?_eq_some_iff.mp numbers
  have bare : (Release.ofNumbers major minor patch).impliedSuffix padding = .bare := by
    cases padding <;> rfl
  rw [bare]

/-- The policy has no part in reading a concrete version's text, which gives that version with all
its fields. Of the texts of targets, the strict ones are those that print back what they are read
as, with no field left open. -/
theorem parseTarget_extends_parse (padding : Padding) (text : String) :
    (∀ version, parse text = .ok version →
      parseTarget padding text = .ok version ∧ version.text = text) ∧
    ∀ target, parseTarget padding text = .ok target → (isValid text ↔ target.IsConcrete) := by
  constructor
  · intro version concrete
    have read := parseTarget_of_parse concrete padding
    exact ⟨read, text_of_parseTarget read⟩
  · intro target read
    rw [isValid_iff]
    constructor
    · rintro ⟨version, concrete⟩
      -- both readers give one version
      rw [parseTarget_of_parse concrete padding] at read
      cases read
      exact (parse_eq_ok_iff.mp concrete).1
    · intro form
      exact ⟨target, parse_eq_ok_iff.mpr ⟨form, text_of_parseTarget read⟩⟩

/-- A pre-release whose tokens hold hyphens, with metadata that starts with a zero; and a letter in
front of numbers that are concrete. -/
theorem parseTarget_extends_parse_hyphenated :
    let version : Version :=
      ⟨⟨.ofNumbers 1 0 20, .preRelease [.alphanumeric "x-0", .numeric 7]⟩, some "01.-",
        "1.0.20-x-0.7+01.-"⟩
    let lettered : Version := ⟨⟨.ofNumbers 1 0 20, .bare⟩, none, "v1.0.20"⟩
    parse "1.0.20-x-0.7+01.-" = .ok version ∧ parseTarget .zero "1.0.20-x-0.7+01.-" = .ok version ∧
      parseTarget .wildcard "v1.0.20" = .ok lettered ∧ ¬lettered.IsConcrete := by
  intro version lettered
  have concrete : parse "1.0.20-x-0.7+01.-" = .ok version := by rfl
  have read : parseTarget .wildcard "v1.0.20" = .ok lettered := by rfl
  obtain ⟨kept, _⟩ := parseTarget_extends_parse .zero "1.0.20-x-0.7+01.-"
  obtain ⟨_, strict⟩ := parseTarget_extends_parse .wildcard "v1.0.20"
  refine ⟨concrete, (kept version concrete).1, read, ?_⟩
  intro form
  have valid := (strict lettered read).mpr form
  contradiction

def isTargetChar (c : Char) : Bool :=
  Layout.isPieceChar c || c == '+' || c == '*'

theorem isTargetChar_of_isPieceChar {c : Char} (piece : Layout.isPieceChar c) : isTargetChar c := by
  simp [isTargetChar, piece]

theorem all_isTargetChar_behind {mark : Char} {piece : Option (List Char)} (form : isTargetChar mark)
    (chars : ∀ text ∈ piece, text.all Layout.isPieceChar) :
    (Text.behind mark piece).all isTargetChar := by
  cases piece with
  | none => rfl
  | some text =>
    rw [Text.behind, List.all_cons, form, Bool.true_and]
    exact Text.all_mono (chars text rfl) fun _ inside => isTargetChar_of_isPieceChar inside

theorem all_isTargetChar_of_reads {component : List Char} {part : Part}
    (read : Part.Reads component part) : component.all isTargetChar := by
  cases read with
  | number numeral =>
    apply Text.all_mono (Layout.all_isTokenChar (Layout.isToken_of_isNumeral numeral))
    intro c inside
    simp [isTargetChar, Layout.isPieceChar, inside]
  | star | small | capital => rfl

theorem readParts?_eq_some_iff {layout : Layout} {release : Release} :
    layout.readParts? = some release ↔
      Release.Reads (Layout.tokens (Layout.dropLetter layout.numbers)) release := by
  have filled := Layout.tokens_ne_nil (Layout.dropLetter layout.numbers)
  have each (written : List Part) :
      (Layout.tokens (Layout.dropLetter layout.numbers)).mapM Part.ofToken? = some written ↔
        List.Forall₂ Part.Reads (Layout.tokens (Layout.dropLetter layout.numbers)) written := by
    simp only [mapM_eq_some_iff, Part.ofToken?_eq_some_iff]
  constructor
  · intro read
    unfold Layout.readParts? at read
    split at read
    · next major found =>
      cases read
      exact ⟨[major], 2, (each _).mp found, rfl⟩
    · next major minor found =>
      cases read
      exact ⟨[major, minor], 1, (each _).mp found, rfl⟩
    · next major minor patch found =>
      cases read
      exact ⟨[major, minor, patch], 0, (each _).mp found, rfl⟩
    · contradiction
  · rintro ⟨written, missing, found, parts⟩
    have three := Release.three_eq_add parts
    have some : 0 < written.length := by
      rw [← found.length_eq, List.length_pos_iff]
      exact filled
    obtain ⟨major, minor, patch⟩ := release
    rw [Layout.readParts?, (each written).mpr found]
    -- one, two or three parts are written, which fixes how many are missing
    match written, some, three with
    | [_], _, three =>
      obtain rfl : missing = 2 := by simp at three; omega
      cases parts
      rfl
    | [_, _], _, three =>
      obtain rfl : missing = 1 := by simp at three; omega
      cases parts
      rfl
    | [_, _, _], _, three =>
      obtain rfl : missing = 0 := by simp at three; omega
      cases parts
      rfl
    | _ :: _ :: _ :: _ :: rest, _, three =>
      simp only [List.length_cons] at three
      omega

theorem all_isTargetChar_numbers {layout : Layout} {release : Release}
    (read : layout.readParts? = some release) : layout.numbers.all isTargetChar := by
  have parts : (Layout.dropLetter layout.numbers).all isTargetChar := by
    rw [← Layout.intercalate_tokens (Layout.dropLetter layout.numbers)]
    apply Layout.all_intercalate rfl
    intro component member
    obtain ⟨_, _, each, _⟩ := readParts?_eq_some_iff.mp read
    obtain ⟨_, _, reads⟩ := exists_of_forall₂ each component member
    exact all_isTargetChar_of_reads reads
  unfold Layout.dropLetter at parts
  split at parts
  · next rest written => rw [written, List.all_cons, parts]; rfl
  · exact parts

theorem isToken_of_readSuffix? {layout : Layout} {suffix : Option Suffix}
    (read : layout.readSuffix? Layout.isToken = some suffix) :
    ∀ piece ∈ layout.suffix, ∀ token ∈ Layout.tokens piece, Layout.isToken token := by
  have forms := (Layout.isSome_readSuffix? _ _).mp (Option.isSome_of_eq_some read)
  intro piece written
  rwa [Option.mem_def.mp written, Option.all_some, List.all_eq_true] at forms

theorem isToken_of_readBuild? {layout : Layout} {build : Option String}
    (read : layout.readBuild? = some build) :
    ∀ piece ∈ layout.build, ∀ token ∈ Layout.tokens piece, Layout.isToken token := by
  have forms := (Layout.isSome_readBuild? _).mp (Option.isSome_of_eq_some read)
  intro piece written
  rwa [Option.mem_def.mp written, Option.all_some, List.all_eq_true] at forms

theorem all_isPieceChar_of_tokens {piece : List Char}
    (forms : ∀ token ∈ Layout.tokens piece, Layout.isToken token) :
    piece.all Layout.isPieceChar := by
  have chars := Layout.all_isPieceChar forms
  rwa [Layout.intercalate_tokens] at chars

theorem all_isTargetChar_of_parseTarget {padding : Padding} {text : String} {version : Version}
    (read : parseTarget padding text = .ok version) : text.toList.all isTargetChar := by
  obtain ⟨release, suffix, build, parts, tokens, metadata, _⟩ := parseTarget_eq_ok_iff.mp read
  rw [← Layout.text_ofText text.toList, Layout.text, List.all_append, List.all_append,
    all_isTargetChar_numbers parts, Bool.true_and, Bool.and_eq_true]
  constructor
  · apply all_isTargetChar_behind rfl
    intro piece written
    exact all_isPieceChar_of_tokens (isToken_of_readSuffix? tokens piece written)
  · apply all_isTargetChar_behind rfl
    intro piece written
    exact all_isPieceChar_of_tokens (isToken_of_readBuild? metadata piece written)

theorem ne_empty_of_parseTarget {padding : Padding} {text : String} {version : Version}
    (read : parseTarget padding text = .ok version) : text.toList ≠ [] := by
  intro empty
  obtain ⟨release, _, _, parts, _⟩ := parseTarget_eq_ok_iff.mp read
  rw [empty] at parts
  contradiction

theorem major_ne_absent_of_parseTarget {padding : Padding} {text : String} {version : Version}
    (read : parseTarget padding text = .ok version) : version.release.major ≠ .absent := by
  obtain ⟨release, _, _, parts, _, _, rfl⟩ := parseTarget_eq_ok_iff.mp read
  exact (readParts?_eq_some_iff.mp parts).major_ne_absent (Layout.tokens_ne_nil _)

theorem suffix_of_parseTarget {padding : Padding} {text : String} {version : Version}
    (read : parseTarget padding text = .ok version)
    (unwritten : '-' ∉ text.toList.takeWhile (· != '+')) :
    version.suffix = version.release.impliedSuffix padding := by
  obtain ⟨release, suffix, build, _, tokens, _, rfl⟩ := parseTarget_eq_ok_iff.mp read
  rw [Layout.readSuffix?, Layout.suffix_ofText_of_not_mem unwritten] at tokens
  cases tokens
  rfl

end Version

end VersionRange
