import VersionRange.Proofs.Constraint.Bounds
import VersionRange.Proofs.Expression.Construction
import VersionRange.Proofs.Expression.RoundTrip

/-! The texts of bounds.

A bound is a floor or a ceiling and prints as its fields say. However the target is
written, its floor has numbers for its parts, and a suffix that is read has what the
strict form asks for once its numbers are printed without leading zeros. So the text
of a bound is that of a concrete version, and is read as the bound's own.
-/

set_option autoImplicit false

namespace VersionRange

namespace Release

theorem exists_numbers_of_tildeCeiling {release ceiling : Release}
    (found : release.tildeCeiling? = some ceiling) :
    ∃ major minor patch, ceiling = ofNumbers major minor patch := by
  unfold tildeCeiling? at found
  split at found
  case h_3 => contradiction
  all_goals
    cases found
    exact ⟨_, _, _, rfl⟩

theorem exists_numbers_of_caretCeiling {release ceiling : Release}
    (found : release.caretCeiling? = some ceiling) :
    ∃ major minor patch, ceiling = ofNumbers major minor patch := by
  unfold caretCeiling? at found
  split at found
  case h_4 => contradiction
  all_goals
    cases found
    exact ⟨_, _, _, rfl⟩

end Release

theorem Layout.isConcrete_of_readSuffix? {layout : Layout} {suffix : Suffix}
    (read : layout.readSuffix? isToken = some (some suffix)) : suffix.isConcrete := by
  unfold readSuffix? at read
  split at read
  · cases Option.some.inj read
  · next piece _ =>
    split at read
    · next forms =>
      cases read
      exact Suffix.isConcrete_ofTokens (tokens_ne_nil piece) (List.all_eq_true.mp forms)
    · contradiction

namespace Version

/-- Leading zeros are gone once the tokens are read, and a revision that is left open has none
for its floor. -/
theorem isConcrete_floor_of_parseTarget {padding : Padding} {text : String} {version : Version}
    (read : parseTarget padding text = .ok version) : version.suffix.floor.isConcrete := by
  obtain ⟨release, suffix, build, _, elements, _, rfl⟩ := parseTarget_eq_ok_iff.mp read
  cases suffix with
  | none =>
    change (release.impliedSuffix padding).floor.isConcrete
    rw [Release.floor_impliedSuffix]
    rfl
  | some suffix =>
    have concrete := Layout.isConcrete_of_readSuffix? elements
    have closed : suffix ≠ .anyRevision := by
      rintro rfl
      contradiction
    change suffix.floor.isConcrete
    rwa [Suffix.floor_eq_self closed]

end Version

namespace Constraint

/-- The ways to come by a constraint: in an expression that is read, and against a version. -/
inductive IsObtained : Constraint → Prop where
  | read {padding : Padding} {text : String} {expression : Expression} {group : List Constraint}
      {constraint : Constraint} (parsed : Expression.parse padding text = .ok expression)
      (inside : group ∈ expression.groups) (member : constraint ∈ group) : IsObtained constraint
  | built (operator : Operator) {version : Version} (obtained : version.IsObtained) :
      IsObtained (.ofVersion operator version)

variable {constraint : Constraint}

theorem IsObtained.exists_parseTarget (obtained : constraint.IsObtained) :
    ∃ padding, Version.parseTarget padding constraint.version.text = .ok constraint.version := by
  cases obtained with
  | read parsed inside member =>
    exact ⟨_, (Expression.isReread_of_parse parsed _ inside _ member).target⟩
  | built operator obtained => exact obtained.exists_parseTarget

theorem IsObtained.isConcrete_floor (obtained : constraint.IsObtained) :
    constraint.floor.toVersion.IsConcrete := by
  obtain ⟨padding, read⟩ := obtained.exists_parseTarget
  refine Version.isConcrete_toVersion ⟨_, _, _, rfl⟩ ?_
  exact Version.isConcrete_floor_of_parseTarget read

theorem isConcrete_ceiling {ceiling : Release} (found : constraint.ceiling? = some ceiling) :
    (Precedence.toVersion ⟨ceiling, .bare⟩).IsConcrete := by
  refine Version.isConcrete_toVersion ?_ rfl
  unfold ceiling? at found
  split at found
  · exact Release.exists_numbers_of_tildeCeiling found
  · exact Release.exists_numbers_of_caretCeiling found
  · contradiction

theorem eq_floor_of_lower? {bound : Bound} (lower : constraint.lower? = some bound) :
    bound.version = constraint.floor.toVersion := by
  rcases lower?_eq_some lower with ⟨rfl, _⟩ | rfl <;> rfl

theorem IsObtained.isConcrete_bound (obtained : constraint.IsObtained) {bound : Bound}
    (edge : constraint.lower? = some bound ∨ constraint.upper? = some bound) :
    bound.version.IsConcrete ∧ bound.version.build = none := by
  have floor := obtained.isConcrete_floor
  rcases edge with lower | upper
  · rw [eq_floor_of_lower? lower]
    exact ⟨floor, rfl⟩
  · rcases upper?_eq_some upper with same | ⟨ceiling, found, same⟩
    · rw [same]
      exact ⟨floor, rfl⟩
    · rw [same]
      exact ⟨isConcrete_ceiling found, rfl⟩

theorem lower?_of_parse (constraint : Constraint) {text : String}
    (concrete : Version.parse text = .ok constraint.version)
    (operator : constraint.operator = .greaterThanOrEqual) :
    ∃ bound, constraint.lower? = some bound ∧
      bound.version.text = String.ofList (text.toList.takeWhile (· != '+')) := by
  obtain ⟨form, _⟩ := Version.parse_eq_ok_iff.mp concrete
  refine ⟨constraint.floorBound true, by rw [lower?, operator], ?_⟩
  rw [floorBound, floor_of_concrete form, Version.takeWhile_of_parse concrete]
  rfl

end Constraint

namespace Expression

/-- Bounds are concrete versions without build metadata, which are read from their own texts. The
lower bound of at-least on a concrete version is that version up to its build metadata. -/
theorem bounds_are_printable :
    (∀ (constraint : Constraint) (bound : Bound), constraint.IsObtained →
      constraint.lower? = some bound ∨ constraint.upper? = some bound →
        Version.parse bound.version.text = .ok bound.version ∧ bound.version.build = none) ∧
    ∀ (text : String) (version : Version), Version.parse text = .ok version →
      let front := String.ofList (text.toList.takeWhile (· != '+'))
      (∃ bound, (Constraint.ofVersion .greaterThanOrEqual version).lower? = some bound ∧
        bound.version.text = front) ∧
      ∀ (padding : Padding) (spelling : String),
        Operator.parse spelling = .ok .greaterThanOrEqual →
          ∃ constraint bound, parse padding (spelling ++ text) =
              .ok ⟨[[constraint]], padding, spelling ++ text⟩ ∧
            constraint.lower? = some bound ∧ bound.version.text = front := by
  constructor
  · intro constraint bound obtained edge
    obtain ⟨concrete, unbuilt⟩ := obtained.isConcrete_bound edge
    exact ⟨Version.parse_eq_ok_iff.mpr ⟨concrete, rfl⟩, unbuilt⟩
  · intro text version concrete front
    constructor
    · exact Constraint.lower?_of_parse _ concrete rfl
    · intro padding spelling spelled
      have read := parse_single spelled (Version.parseTarget_of_parse concrete padding)
      obtain ⟨bound, lower, written⟩ := Constraint.lower?_of_parse
        ⟨.greaterThanOrEqual, version, padding, spelling ++ text⟩ concrete rfl
      exact ⟨_, bound, read, lower, written⟩

/-- A target with a letter, leading zeros and a wildcard in front of its pre-release, whose floor is
written without them; and a revision with build metadata. -/
theorem bounds_are_printable_lenient :
    let target : Version :=
      ⟨⟨⟨.value 1, .wildcard, .absent⟩, .preRelease [.alphanumeric "a", .numeric 7]⟩, none,
        "v01.x-a.007"⟩
    let range : Constraint := ⟨.caret, target, .zero, "^" ++ "v01.x-a.007"⟩
    let lower := Precedence.toVersion ⟨.ofNumbers 1 0 0, .preRelease [.alphanumeric "a", .numeric 7]⟩
    let upper := Version.ofNumbers 2 0 0
    let version : Version := ⟨⟨.ofNumbers 1 2 3, .revision [4]⟩, some "b", "1.2.3-4+b"⟩
    range.IsObtained ∧ range.lower? = some ⟨lower, true⟩ ∧ range.upper? = some ⟨upper, false⟩ ∧
      lower.text = "1.0.0-a.7" ∧ Version.parse lower.text = .ok lower ∧
      upper.text = "2.0.0" ∧ Version.parse upper.text = .ok upper ∧
      Version.parse "1.2.3-4+b" = .ok version ∧
      ∃ constraint bound, parse .zero ("=>" ++ "1.2.3-4+b") =
          .ok ⟨[[constraint]], .zero, "=>" ++ "1.2.3-4+b"⟩ ∧
        constraint.lower? = some bound ∧ bound.version.text = "1.2.3-4" := by
  intro target range lower upper version
  have spelled : Operator.parse "^" = .ok .caret := rfl
  have read : Version.parseTarget .zero "v01.x-a.007" = .ok target := by rfl
  have obtained : range.IsObtained :=
    .read (parse_single spelled read) (List.mem_cons_self ..) (List.mem_cons_self ..)
  have below : range.lower? = some ⟨lower, true⟩ := by rfl
  have above : range.upper? = some ⟨upper, false⟩ := by rfl
  have concrete : Version.parse "1.2.3-4+b" = .ok version := by rfl
  obtain ⟨printable, least⟩ := bounds_are_printable
  obtain ⟨lowest, _⟩ := printable range _ obtained (.inl below)
  obtain ⟨highest, _⟩ := printable range _ obtained (.inr above)
  have front : String.ofList ("1.2.3-4+b".toList.takeWhile (· != '+')) = "1.2.3-4" := by decide
  obtain ⟨constraint, bound, reread, edge, written⟩ := (least _ version concrete).2 .zero "=>" rfl
  exact ⟨obtained, below, above, by decide, lowest, by decide, highest, concrete, constraint, bound,
    reread, edge, written.trans front⟩

end Expression

end VersionRange
