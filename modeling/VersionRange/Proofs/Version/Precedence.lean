import VersionRange.Proofs.Version.Order

/-! Precedence of concrete versions.

The rules of precedence, one by one: numbers from left to right, then pre-releases,
the bare release and revisions in this order, and between two suffixes of one kind
the first element that differs. The order of versions follows these rules and looks
at nothing else.
-/

set_option autoImplicit false

namespace VersionRange

theorem compare_eq_lt_iff_lex {A : Type} [Ord A] [Std.LawfulEqOrd A] {precedes : A → A → Prop}
    (elements : ∀ a b : A, compare a b = .lt ↔ precedes a b) (first second : List A) :
    compare first second = .lt ↔ List.Lex precedes first second := by
  induction first generalizing second with
  | nil =>
    cases second with
    | nil => simp
    | cons b second => exact ⟨fun _ => .nil, fun _ => rfl⟩
  | cons a first ih =>
    cases second with
    | nil => simp
    | cons b second =>
      rw [List.compare_cons_cons, Ordering.then_eq_lt, List.cons_lex_cons_iff, ih, elements,
        Std.LawfulEqOrd.compare_eq_iff_eq]

inductive Identifier.Precedes : Identifier → Identifier → Prop where
  | numbers {m n : Nat} (less : m < n) : Precedes (.numeric m) (.numeric n)
  | kinds {n : Nat} {text : String} : Precedes (.numeric n) (.alphanumeric text)
  | texts {first second : String}
      (less : List.Lex (fun c d : Char => c.toNat < d.toNat) first.toList second.toList) :
      Precedes (.alphanumeric first) (.alphanumeric second)

inductive Suffix.Precedes : Suffix → Suffix → Prop where
  | preReleases {first second : List Identifier}
      (less : List.Lex Identifier.Precedes first second) :
      Precedes (.preRelease first) (.preRelease second)
  | preRelease_bare {identifiers : List Identifier} : Precedes (.preRelease identifiers) .bare
  | preRelease_revision {identifiers : List Identifier} {numbers : List Nat} :
      Precedes (.preRelease identifiers) (.revision numbers)
  | bare_revision {numbers : List Nat} : Precedes .bare (.revision numbers)
  | revisions {first second : List Nat} (less : List.Lex (· < ·) first second) :
      Precedes (.revision first) (.revision second)

inductive Precedence.Precedes : Precedence → Precedence → Prop where
  | major {x y z x' y' z' : Nat} {suffix other : Suffix} (less : x < x') :
      Precedes ⟨.ofNumbers x y z, suffix⟩ ⟨.ofNumbers x' y' z', other⟩
  | minor {x y z y' z' : Nat} {suffix other : Suffix} (less : y < y') :
      Precedes ⟨.ofNumbers x y z, suffix⟩ ⟨.ofNumbers x y' z', other⟩
  | patch {x y z z' : Nat} {suffix other : Suffix} (less : z < z') :
      Precedes ⟨.ofNumbers x y z, suffix⟩ ⟨.ofNumbers x y z', other⟩
  | suffix {x y z : Nat} {suffix other : Suffix} (less : suffix.Precedes other) :
      Precedes ⟨.ofNumbers x y z, suffix⟩ ⟨.ofNumbers x y z, other⟩

theorem compare_text_eq_lt (first second : String) : compare first second = .lt ↔
    List.Lex (fun c d : Char => c.toNat < d.toNat) first.toList second.toList := by
  change compareOfLessAndEq first second = .lt ↔ _
  rw [compareOfLessAndEq_eq_lt]
  rfl

theorem Identifier.compare_eq_lt_iff (a b : Identifier) : compare a b = .lt ↔ a.Precedes b := by
  cases a with
  | numeric m =>
    cases b with
    | numeric n =>
      change compare m n = .lt ↔ _
      rw [Nat.compare_eq_lt]
      exact ⟨.numbers, fun | .numbers less => less⟩
    | alphanumeric text => exact ⟨fun _ => .kinds, fun _ => rfl⟩
  | alphanumeric first =>
    cases b with
    | numeric n =>
      constructor
      · intro less
        contradiction
      · intro precedes
        cases precedes
    | alphanumeric second =>
      change compare first second = .lt ↔ _
      rw [compare_text_eq_lt]
      exact ⟨.texts, fun | .texts less => less⟩

theorem Suffix.compare_eq_lt_iff {a b : Suffix} (first : a.isConcrete) (second : b.isConcrete) :
    compare a b = .lt ↔ a.Precedes b := by
  cases a with
  | preRelease identifiers =>
    cases b with
    | preRelease others =>
      change compare identifiers others = .lt ↔ _
      rw [compare_eq_lt_iff_lex Identifier.compare_eq_lt_iff]
      exact ⟨.preReleases, fun | .preReleases less => less⟩
    | bare => exact ⟨fun _ => .preRelease_bare, fun _ => rfl⟩
    | revision numbers => exact ⟨fun _ => .preRelease_revision, fun _ => rfl⟩
    | anyRevision => contradiction
  | bare =>
    cases b with
    | revision numbers => exact ⟨fun _ => .bare_revision, fun _ => rfl⟩
    | preRelease _ | bare =>
      constructor
      · intro less
        contradiction
      · intro precedes
        cases precedes
    | anyRevision => contradiction
  | revision numbers =>
    cases b with
    | revision others =>
      change compare numbers others = .lt ↔ _
      rw [compare_eq_lt_iff_lex fun m n => Nat.compare_eq_lt]
      exact ⟨.revisions, fun | .revisions less => less⟩
    | preRelease _ | bare =>
      constructor
      · intro less
        contradiction
      · intro precedes
        cases precedes
    | anyRevision => contradiction
  | anyRevision => contradiction

theorem Suffix.precedes_bare_iff {suffix : Suffix} :
    suffix.Precedes .bare ↔ suffix.preRelease?.isSome := by
  constructor
  · intro precedes
    cases precedes
    rfl
  · intro form
    cases suffix with
    | preRelease identifiers => exact .preRelease_bare
    | bare | revision _ | anyRevision => contradiction

theorem Suffix.bare_precedes_iff {suffix : Suffix} (concrete : suffix.isConcrete) :
    Suffix.bare.Precedes suffix ↔ suffix.revision?.isSome := by
  constructor
  · intro precedes
    cases precedes
    rfl
  · intro form
    cases suffix with
    | revision numbers => exact .bare_revision
    | preRelease _ | bare | anyRevision => contradiction

namespace Precedence

theorem compare_ofNumbers_eq_lt {x y z x' y' z' : Nat} {suffix other : Suffix} :
    compare (mk (.ofNumbers x y z) suffix) ⟨.ofNumbers x' y' z', other⟩ = .lt ↔
      x < x' ∨ x = x' ∧ (y < y' ∨ y = y' ∧ (z < z' ∨ z = z' ∧ compare suffix other = .lt)) := by
  change ((compare x x').then ((compare y y').then (compare z z'))).then (compare suffix other) =
    .lt ↔ _
  simp only [Ordering.then_assoc, Ordering.then_eq_lt, Nat.compare_eq_lt, Nat.compare_eq_eq]

theorem compare_eq_lt_iff {x y z x' y' z' : Nat} {suffix other : Suffix}
    (first : suffix.isConcrete) (second : other.isConcrete) :
    compare (mk (.ofNumbers x y z) suffix) ⟨.ofNumbers x' y' z', other⟩ = .lt ↔
      Precedes ⟨.ofNumbers x y z, suffix⟩ ⟨.ofNumbers x' y' z', other⟩ := by
  rw [compare_ofNumbers_eq_lt, Suffix.compare_eq_lt_iff first second]
  constructor
  · rintro (less | ⟨rfl, less | ⟨rfl, less | ⟨rfl, less⟩⟩⟩)
    · exact .major less
    · exact .minor less
    · exact .patch less
    · exact .suffix less
  · intro precedes
    cases precedes with
    | major less => exact .inl less
    | minor less => exact .inr ⟨rfl, .inl less⟩
    | patch less => exact .inr ⟨rfl, .inr ⟨rfl, .inl less⟩⟩
    | suffix less => exact .inr ⟨rfl, .inr ⟨rfl, .inr ⟨rfl, less⟩⟩⟩

end Precedence

namespace Version

theorem compare_eq_lt_iff {a b : Version} (first : a.IsConcrete) (second : b.IsConcrete) :
    compare a b = .lt ↔ a.toPrecedence.Precedes b.toPrecedence := by
  obtain ⟨⟨release, suffix⟩, _, _⟩ := a
  obtain ⟨⟨release', suffix'⟩, _, _⟩ := b
  obtain ⟨x, y, z, rfl⟩ := first.release
  obtain ⟨x', y', z', rfl⟩ := second.release
  exact Precedence.compare_eq_lt_iff first.suffix second.suffix

theorem between_patches_iff {version : Version} (concrete : version.IsConcrete) (x y z : Nat) :
    compare (ofNumbers x y z) version = .lt ∧ compare version (ofNumbers x y (z + 1)) = .lt ↔
      version.release = .ofNumbers x y z ∧ version.hasRevision ∨
        version.release = .ofNumbers x y (z + 1) ∧ version.isPreRelease := by
  obtain ⟨⟨release, suffix⟩, build, text⟩ := version
  obtain ⟨x', y', z', rfl⟩ := concrete.release
  have form : suffix.isConcrete := concrete.suffix
  change compare (Precedence.mk (.ofNumbers x y z) .bare) ⟨.ofNumbers x' y' z', suffix⟩ = .lt ∧
      compare (Precedence.mk (.ofNumbers x' y' z') suffix) ⟨.ofNumbers x y (z + 1), .bare⟩ = .lt ↔
    Release.ofNumbers x' y' z' = .ofNumbers x y z ∧ suffix.revision?.isSome ∨
      Release.ofNumbers x' y' z' = .ofNumbers x y (z + 1) ∧ suffix.preRelease?.isSome
  rw [Precedence.compare_ofNumbers_eq_lt, Precedence.compare_ofNumbers_eq_lt,
    Suffix.compare_eq_lt_iff rfl form, Suffix.compare_eq_lt_iff form rfl,
    Suffix.bare_precedes_iff form, Suffix.precedes_bare_iff]
  simp only [Release.ofNumbers, Release.mk.injEq, Part.value.injEq]
  grind

/-- The order of concrete versions follows the rules of precedence, in both directions, and takes
two versions for equal when their numbers and suffixes are. So between a release and the next
patch lie first the revisions of the one and then the pre-releases of the other. -/
theorem order_follows_precedence {s t : String} {a b : Version} (first : parse s = .ok a)
    (second : parse t = .ok b) :
    (compare a b = .lt ↔ a.toPrecedence.Precedes b.toPrecedence) ∧
    (compare a b = .gt ↔ b.toPrecedence.Precedes a.toPrecedence) ∧
    (compare a b = .eq ↔ a.toPrecedence = b.toPrecedence) ∧
    ∀ x y z : Nat,
      (compare (ofNumbers x y z) a = .lt ∧ compare a (ofNumbers x y (z + 1)) = .lt ↔
        a.release = .ofNumbers x y z ∧ a.hasRevision ∨
          a.release = .ofNumbers x y (z + 1) ∧ a.isPreRelease) ∧
      (a.release = .ofNumbers x y z → b.release = .ofNumbers x y (z + 1) → compare a b = .lt) := by
  have left := (parse_eq_ok_iff.mp first).1
  have right := (parse_eq_ok_iff.mp second).1
  refine ⟨compare_eq_lt_iff left right, ?_, ?_, ?_⟩
  · rw [Std.OrientedOrd.eq_swap, Ordering.swap_eq_gt]
    exact compare_eq_lt_iff right left
  · exact Std.LawfulEqOrd.compare_eq_iff_eq (α := Precedence)
  · intro x y z
    refine ⟨between_patches_iff left x y z, ?_⟩
    intro lower upper
    have patches : compare a.release b.release = .lt := by
      rw [lower, upper, Release.compare_ofNumbers_eq_lt]
      omega
    change compare a.toPrecedence b.toPrecedence = .lt
    rw [Precedence.compare_eq_then, patches]
    rfl

/-- A revision below a pre-release of the next patch, and this one below another, since a number
is below another by its value. -/
theorem order_follows_precedence_patches :
    let revision : Version := ⟨⟨.ofNumbers 1 2 3, .revision [4, 5]⟩, some "b-1", "1.2.3-4.5+b-1"⟩
    let lower : Version :=
      ⟨⟨.ofNumbers 1 2 4, .preRelease [.alphanumeric "rc", .numeric 9, .alphanumeric "x"]⟩, none,
        "1.2.4-rc.9.x"⟩
    let higher : Version :=
      ⟨⟨.ofNumbers 1 2 4, .preRelease [.alphanumeric "rc", .numeric 10]⟩, none, "1.2.4-rc.10"⟩
    parse "1.2.3-4.5+b-1" = .ok revision ∧ parse "1.2.4-rc.9.x" = .ok lower ∧
      parse "1.2.4-rc.10" = .ok higher ∧ compare revision lower = .lt ∧
      compare revision (ofNumbers 1 2 4) = .lt ∧ compare lower higher = .lt ∧
      compare higher lower = .gt := by
  intro revision lower higher
  have first : parse "1.2.3-4.5+b-1" = .ok revision := by rfl
  have second : parse "1.2.4-rc.9.x" = .ok lower := by rfl
  have third : parse "1.2.4-rc.10" = .ok higher := by rfl
  obtain ⟨_, _, _, patches⟩ := order_follows_precedence first second
  obtain ⟨between, across⟩ := patches 1 2 3
  have precedes : lower.toPrecedence.Precedes higher.toPrecedence :=
    .suffix (.preReleases (.cons (.rel (.numbers (by decide)))))
  refine ⟨first, second, third, across rfl rfl, ?_, ?_, ?_⟩
  · exact (between.mpr (.inl ⟨rfl, rfl⟩)).2
  · exact (order_follows_precedence second third).1.mpr precedes
  · exact (order_follows_precedence third second).2.1.mpr precedes

end Version

end VersionRange
