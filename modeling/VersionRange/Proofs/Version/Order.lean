import VersionRange.Proofs.Version.Strict

/-! Order, equality and hash.

Versions are compared field by field, and two of them compare equal when no field
differs. The hash is taken of the same fields. Between concrete versions that is
the case when their texts agree up to the first plus sign, since what stands in
front of it can be read back.
-/

set_option autoImplicit false

namespace VersionRange

namespace Suffix

/-- Having no pre-release is above having any. -/
def comparePreRelease : Option (List Identifier) → Option (List Identifier) → Ordering
  | none, none => .eq
  | none, some _ => .gt
  | some _, none => .lt
  | some a, some b => compare a b

theorem comparePreRelease_eq_eq {a b : Option (List Identifier)} :
    comparePreRelease a b = .eq ↔ a = b := by
  cases a with
  | none => cases b <;> simp [comparePreRelease]
  | some a =>
    cases b with
    | none => simp [comparePreRelease]
    | some b => simp [comparePreRelease]

theorem compare_map_value (a b : List Nat) :
    compare (a.map Part.value) (b.map Part.value) = compare a b := by
  induction a generalizing b with
  | nil => cases b <;> rfl
  | cons m a ih =>
    cases b with
    | nil => rfl
    | cons n b =>
      rw [List.map_cons, List.map_cons, List.compare_cons_cons, List.compare_cons_cons, ih]
      rfl

/-- The kinds of suffixes are ordered as the two fields are: no revision is below every revision,
and only without one do pre-releases count. -/
theorem compare_eq_then (a b : Suffix) :
    compare a b = (compare a.revision? b.revision?).then
      (comparePreRelease a.preRelease? b.preRelease?) := by
  cases a with
  | preRelease identifiers => cases b <;> rfl
  | bare => cases b <;> rfl
  | revision numbers =>
    cases b with
    | revision others =>
      change compare numbers others =
        (compare (numbers.map Part.value) (others.map Part.value)).then .eq
      rw [compare_map_value, Ordering.then_eq]
    | anyRevision => cases numbers <;> rfl
    | preRelease _ | bare => rfl
  | anyRevision =>
    cases b with
    | revision others => cases others <;> rfl
    | preRelease _ | bare | anyRevision => rfl

end Suffix

namespace Release

theorem compare_ofNumbers_eq_lt {a b c a' b' c' : Nat} :
    compare (ofNumbers a b c) (ofNumbers a' b' c') = .lt ↔
      a < a' ∨ a = a' ∧ (b < b' ∨ b = b' ∧ c < c') := by
  change ((compare a a').then ((compare b b').then (compare c c'))) = .lt ↔ _
  simp only [Ordering.then_eq_lt, Nat.compare_eq_lt, Nat.compare_eq_eq]

end Release

namespace Version

/-- Of the five fields the first that differs decides. -/
theorem compare_eq_then (a b : Version) :
    compare a b = (compare a.release.major b.release.major).then
      ((compare a.release.minor b.release.minor).then
        ((compare a.release.patch b.release.patch).then
          ((compare a.suffix.revision? b.suffix.revision?).then
            (Suffix.comparePreRelease a.suffix.preRelease? b.suffix.preRelease?)))) := by
  change compare a.toPrecedence b.toPrecedence = _
  rw [Precedence.compare_eq_then, Release.compare_eq_then, Suffix.compare_eq_then]
  simp only [Ordering.then_assoc]

theorem compare_eq_eq {a b : Version} :
    compare a b = .eq ↔ a.release.major = b.release.major ∧ a.release.minor = b.release.minor ∧
      a.release.patch = b.release.patch ∧ a.suffix.revision? = b.suffix.revision? ∧
      a.suffix.preRelease? = b.suffix.preRelease? := by
  simp only [compare_eq_then, Ordering.then_eq_eq, Std.LawfulEqOrd.compare_eq_iff_eq,
    Suffix.comparePreRelease_eq_eq]

theorem beq_iff_hashed_eq {a b : Version} : a == b ↔ a.hashed = b.hashed := by
  change (compare a b == .eq) ↔ _
  simp only [beq_iff_eq, compare_eq_eq, hashed, Prod.mk.injEq]

instance : LawfulHashable Version where
  hash_eq a b same := by
    change hash a.hashed = hash b.hashed
    rw [beq_iff_hashed_eq.mp same]

theorem beq_iff_toPrecedence_eq {a b : Version} : a == b ↔ a.toPrecedence = b.toPrecedence := by
  change (compare a.toPrecedence b.toPrecedence == .eq) ↔ _
  rw [beq_iff_eq, Std.LawfulEqOrd.compare_eq_iff_eq]

theorem IsConcrete.toVersion {version : Version} (concrete : version.IsConcrete) :
    version.toPrecedence.toVersion.IsConcrete :=
  isConcrete_toVersion concrete.release concrete.suffix

theorem IsConcrete.toPrecedence_eq {a b : Version} (first : a.IsConcrete) (second : b.IsConcrete)
    (same : a.toPrecedence.render = b.toPrecedence.render) : a.toPrecedence = b.toPrecedence := by
  have left : parse (String.ofList a.toPrecedence.render) = .ok a.toPrecedence.toVersion :=
    parse_eq_ok_iff.mpr ⟨first.toVersion, rfl⟩
  have right : parse (String.ofList b.toPrecedence.render) = .ok b.toPrecedence.toVersion :=
    parse_eq_ok_iff.mpr ⟨second.toVersion, rfl⟩
  rw [same, right] at left
  have versions := congrArg Version.toPrecedence (Except.ok.inj left)
  exact versions.symm

theorem takeWhile_of_parse {text : String} {version : Version} (read : parse text = .ok version) :
    text.toList.takeWhile (· != '+') = version.toPrecedence.render := by
  obtain ⟨concrete, rfl⟩ := parse_eq_ok_iff.mp read
  rw [concrete.text, String.toList_ofList, ← Layout.front_ofText, concrete.ofText_render, layout,
    ← Suffix.render_eq_behind]
  rfl

/-- The order is total, finds two versions equal when they have the same fields, and goes with
the hash. On concrete versions this is agreement of the texts up to the first plus sign. -/
theorem order_agrees_with_fields :
    (∀ a : Version, compare a a = .eq) ∧
    (∀ a b : Version, compare b a = (compare a b).swap) ∧
    (∀ a b c : Version, (compare a b).isLE → (compare b c).isLE → (compare a c).isLE) ∧
    (∀ a b : Version, compare a b = .eq ↔
      a.release.major = b.release.major ∧ a.release.minor = b.release.minor ∧
      a.release.patch = b.release.patch ∧ a.suffix.revision? = b.suffix.revision? ∧
      a.suffix.preRelease? = b.suffix.preRelease?) ∧
    (∀ a b : Version, compare a b = .eq ↔ a.hashed = b.hashed) ∧
    (∀ a b : Version, a == b → hash a = hash b) ∧
    (∀ (s t : String) (a b : Version), parse s = .ok a → parse t = .ok b →
      (a == b ↔ s.toList.takeWhile (· != '+') = t.toList.takeWhile (· != '+'))) := by
  refine ⟨?_, ?_, ?_, ?_, ?_, ?_, ?_⟩
  · intro a
    exact Std.ReflOrd.compare_self
  · intro a b
    exact Std.OrientedOrd.eq_swap
  · intro a b c first second
    exact Std.TransOrd.isLE_trans first second
  · intro a b
    exact compare_eq_eq
  · intro a b
    rw [← beq_iff_hashed_eq]
    exact beq_iff_eq.symm
  · intro a b same
    exact LawfulHashable.hash_eq a b same
  · intro s t a b first second
    rw [takeWhile_of_parse first, takeWhile_of_parse second, beq_iff_toPrecedence_eq]
    constructor
    · intro same
      rw [same]
    · exact (parse_eq_ok_iff.mp first).1.toPrecedence_eq (parse_eq_ok_iff.mp second).1

/-- A pre-release, its release and a revision in ascending order, and two texts of the revision of
which one has build metadata. -/
theorem order_of_revision :
    let preRelease : Version :=
      ⟨⟨.ofNumbers 1 0 0, .preRelease [.alphanumeric "rc", .numeric 2]⟩, none, "1.0.0-rc.2"⟩
    let release : Version := .ofNumbers 1 0 0
    let revision : Version := ⟨⟨.ofNumbers 1 0 0, .revision [0]⟩, none, "1.0.0-0"⟩
    let rebuilt : Version := ⟨⟨.ofNumbers 1 0 0, .revision [0]⟩, some "a-1", "1.0.0-0+a-1"⟩
    (compare preRelease release).isLE ∧ (compare release revision).isLE ∧
      (compare preRelease revision).isLE ∧ parse "1.0.0-0" = .ok revision ∧
      parse "1.0.0-0+a-1" = .ok rebuilt ∧ revision == rebuilt ∧ hash revision = hash rebuilt := by
  intro preRelease release revision rebuilt
  obtain ⟨_, _, trans, _, _, hashes, texts⟩ := order_agrees_with_fields
  have first : (compare preRelease release).isLE := by decide
  have second : (compare release revision).isLE := by decide
  have read : parse "1.0.0-0" = .ok revision := by rfl
  have reread : parse "1.0.0-0+a-1" = .ok rebuilt := by rfl
  have same : revision == rebuilt := (texts _ _ _ _ read reread).mpr (by decide)
  exact ⟨first, second, trans _ _ _ first second, read, reread, same, hashes _ _ same⟩

end Version

end VersionRange
