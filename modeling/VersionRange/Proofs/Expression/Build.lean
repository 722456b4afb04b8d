import VersionRange.Proofs.Constraint.Position
import VersionRange.Proofs.Expression.Single
import VersionRange.Proofs.Version.Order

/-! Build metadata.

The plus sign is looked for before anything else, so metadata behind a text leaves its
other pieces as they are. What is read then differs in the metadata and in the text,
and neither the order, the hash nor a constraint looks at those. A bound is printed
from the floor, which has no metadata to print.
-/

set_option autoImplicit false

namespace VersionRange

namespace Layout

variable {text : List Char} {build : String}

theorem ofText_append_build (bare : '+' ∉ text) (build : List Char) :
    ofText (text ++ '+' :: build) = { ofText text with build := some build } := by
  simp only [ofText, Text.cut_append bare, Text.cut_of_not_mem bare]

theorem readBuild?_ofText_append (bare : '+' ∉ text) (valid : isBuild build) :
    (ofText (text ++ '+' :: build.toList)).readBuild? = some (some build) := by
  rw [ofText_append_build bare]
  exact readBuild?_eq_some_iff.mpr ⟨valid, rfl⟩

end Layout

namespace Version

def rebuilt (version : Version) (build : String) : Version :=
  { version with build := some build, text := version.text ++ "+" ++ build }

variable {text build : String} {version : Version}

theorem toList_append_build (text build : String) :
    (text ++ "+" ++ build).toList = text.toList ++ '+' :: build.toList := by
  simp

theorem parse_rebuilt (bare : '+' ∉ text.toList) (valid : Layout.isBuild build)
    (read : parse text = .ok version) :
    parse (text ++ "+" ++ build) = .ok (version.rebuilt build) := by
  obtain ⟨release, suffix, _, numbers, tokens, _, rfl⟩ := parse_eq_ok_iff_pieces.mp read
  have metadata := Layout.readBuild?_ofText_append bare valid
  rw [parse_eq_ok_iff_pieces, toList_append_build]
  refine ⟨release, suffix, some build, ?_, ?_, metadata, rfl⟩
  · rw [Layout.ofText_append_build bare]
    exact numbers
  · rw [Layout.ofText_append_build bare]
    exact tokens

theorem parseTarget_rebuilt {padding : Padding} (bare : '+' ∉ text.toList)
    (valid : Layout.isBuild build) (read : parseTarget padding text = .ok version) :
    parseTarget padding (text ++ "+" ++ build) = .ok (version.rebuilt build) := by
  obtain ⟨release, suffix, _, parts, tokens, _, rfl⟩ := parseTarget_eq_ok_iff.mp read
  have metadata := Layout.readBuild?_ofText_append bare valid
  rw [parseTarget_eq_ok_iff, toList_append_build]
  refine ⟨release, suffix, some build, ?_, ?_, metadata, rfl⟩
  · rw [Layout.ofText_append_build bare]
    exact parts
  · rw [Layout.ofText_append_build bare]
    exact tokens

theorem beq_rebuilt (version : Version) (build : String) : version == version.rebuilt build :=
  beq_iff_toPrecedence_eq.mpr rfl

theorem compare_congr {a b : Version} (same : a == b) (other : Version) :
    compare a other = compare b other ∧ compare other a = compare other b := by
  have precedence := beq_iff_toPrecedence_eq.mp same
  change compare a.toPrecedence other.toPrecedence = compare b.toPrecedence other.toPrecedence ∧
    compare other.toPrecedence a.toPrecedence = compare other.toPrecedence b.toPrecedence
  rw [precedence]
  exact ⟨rfl, rfl⟩

end Version

theorem Constraint.admits_of_beq {a b : Version} (same : a == b) (constraint : Constraint) :
    constraint.admits a = constraint.admits b := by
  have precedence := Version.beq_iff_toPrecedence_eq.mp same
  simp only [admits, locate, compareFloor, isBelowCeiling, precedence]

theorem Expression.admits_of_beq {a b : Version} (same : a == b) (expression : Expression) :
    expression.admits a = expression.admits b := by
  simp only [admits, Constraint.admits_of_beq same]

theorem Constraint.agree_rebuilt (operator : Operator) (target : Version) (padding : Padding)
    (build first second : String) :
    let plain : Constraint := ⟨operator, target, padding, first⟩
    let rebuilt : Constraint := ⟨operator, target.rebuilt build, padding, second⟩
    (∀ version, plain.admits version = rebuilt.admits version) ∧ plain.lower? = rebuilt.lower? ∧
      plain.upper? = rebuilt.upper? ∧ plain.isUniversal = rebuilt.isUniversal :=
  agree_of_target rfl rfl rfl

namespace Expression

/-- Build metadata behind the text of a concrete version gives an equal version: it has the same
hash, is ordered alike and is admitted by the same expressions. Behind the text of a target it
changes neither what a constraint admits nor its bounds. -/
theorem build_never_shows {build : String} (valid : Layout.isBuild build) :
    (∀ (text : String) (version : Version), '+' ∉ text.toList → Version.parse text = .ok version →
      ∃ rebuilt, Version.parse (text ++ "+" ++ build) = .ok rebuilt ∧ version == rebuilt ∧
        version.hashed = rebuilt.hashed ∧
        (∀ other : Version, compare version other = compare rebuilt other ∧
          compare other version = compare other rebuilt) ∧
        ∀ expression : Expression, expression.admits version = expression.admits rebuilt) ∧
    ∀ (padding : Padding) (text : String) (target : Version), '+' ∉ text.toList →
      Version.parseTarget padding text = .ok target →
      ∃ rebuilt, Version.parseTarget padding (text ++ "+" ++ build) = .ok rebuilt ∧
        ∀ operator : Operator,
          (let plain := Constraint.ofVersion operator target
            let marked := Constraint.ofVersion operator rebuilt
            (∀ version, plain.admits version = marked.admits version) ∧
              plain.lower? = marked.lower? ∧ plain.upper? = marked.upper?) ∧
          ∀ spelling, Operator.parse spelling = .ok operator →
            ∃ plain marked, parse padding (spelling ++ text) =
                .ok ⟨[[plain]], padding, spelling ++ text⟩ ∧
              parse padding (spelling ++ (text ++ "+" ++ build)) =
                .ok ⟨[[marked]], padding, spelling ++ (text ++ "+" ++ build)⟩ ∧
              (∀ version, plain.admits version = marked.admits version) ∧
              plain.lower? = marked.lower? ∧ plain.upper? = marked.upper? := by
  constructor
  · intro text version bare read
    have same := version.beq_rebuilt build
    exact ⟨_, Version.parse_rebuilt bare valid read, same, Version.beq_iff_hashed_eq.mp same,
      Version.compare_congr same, Expression.admits_of_beq same⟩
  · intro padding text target bare read
    have reread := Version.parseTarget_rebuilt bare valid read
    refine ⟨_, reread, ?_⟩
    intro operator
    constructor
    · obtain ⟨admits, lower, upper, _⟩ :=
        Constraint.agree_rebuilt operator target .wildcard build _ _
      exact ⟨admits, lower, upper⟩
    · intro spelling spelled
      obtain ⟨admits, lower, upper, _⟩ := Constraint.agree_rebuilt operator target padding build _ _
      exact ⟨_, _, parse_single spelled read, parse_single spelled reread, admits, lower, upper⟩

/-- A pre-release with metadata that holds a hyphen and a leading zero, and the same metadata behind
a caret range of a padded target. -/
theorem build_never_shows_caret :
    let version : Version :=
      ⟨⟨.ofNumbers 1 2 3, .preRelease [.alphanumeric "rc", .numeric 1]⟩, none, "1.2.3-rc.1"⟩
    let target : Version := ⟨⟨⟨.value 0, .value 7, .absent⟩, .bare⟩, none, "v0.07"⟩
    Layout.isBuild "x-y.01" ∧ '+' ∉ "1.2.3-rc.1".toList ∧ Version.parse "1.2.3-rc.1" = .ok version ∧
      (∃ rebuilt, Version.parse "1.2.3-rc.1+x-y.01" = .ok rebuilt ∧ version == rebuilt ∧
        compare rebuilt (.ofNumbers 1 2 3) = .lt) ∧
      '+' ∉ "v0.07".toList ∧ Version.parseTarget .zero "v0.07" = .ok target ∧
      ∃ plain marked, parse .zero "^v0.07" = .ok ⟨[[plain]], .zero, "^v0.07"⟩ ∧
        parse .zero "^v0.07+x-y.01" = .ok ⟨[[marked]], .zero, "^v0.07+x-y.01"⟩ ∧
        plain.upper? = marked.upper? := by
  intro version target
  have valid : Layout.isBuild "x-y.01" := by decide
  have versionBare : '+' ∉ "1.2.3-rc.1".toList := by decide
  have concrete : Version.parse "1.2.3-rc.1" = .ok version := by rfl
  have targetBare : '+' ∉ "v0.07".toList := by decide
  have read : Version.parseTarget .zero "v0.07" = .ok target := by rfl
  obtain ⟨versions, targets⟩ := build_never_shows valid
  obtain ⟨rebuilt, reread, same, _, order, _⟩ := versions _ version versionBare concrete
  obtain ⟨_, _, constraints⟩ := targets .zero _ target targetBare read
  obtain ⟨plain, marked, parsed, reparsed, _, _, upper⟩ := (constraints .caret).2 "^" rfl
  rw [show "1.2.3-rc.1" ++ "+" ++ "x-y.01" = "1.2.3-rc.1+x-y.01" by decide] at reread
  rw [show "^" ++ "v0.07" = "^v0.07" by decide] at parsed
  rw [show "^" ++ ("v0.07" ++ "+" ++ "x-y.01") = "^v0.07+x-y.01" by decide] at reparsed
  have below : compare rebuilt (.ofNumbers 1 2 3) = .lt := (order _).1.symm.trans (by decide)
  exact ⟨valid, versionBare, concrete, ⟨rebuilt, reread, same, below⟩, targetBare, read, plain, marked,
    parsed, reparsed, upper⟩

end Expression

end VersionRange
