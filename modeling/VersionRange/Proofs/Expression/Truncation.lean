import VersionRange.Proofs.Constraint.Padding
import VersionRange.Proofs.Expression.Comparison
import VersionRange.Proofs.Version.Grammar

/-! Leaving out the last number of a target.

On the shorter target the walk stops one part earlier, the floor is no higher and the
ceiling, if there still is one, no lower. So whatever matches the longer target, or
lies between its floor and its ceiling, does so on the shorter one, and the operators
that admit what lies outside go the other way.
-/

set_option autoImplicit false

namespace VersionRange

/-- Of two targets that share their front, one that goes on with a wildcard decides nothing behind
it, so it does not matter what follows on either walk. -/
theorem Part.within_or_locateAll_eq {parts front : List Part} (more : front.length < parts.length)
    (tail rest : List Part) (next other : Unit → Position) :
    (locateAll parts (front ++ .wildcard :: rest)).orElse next = .within ∨
      (locateAll parts (front ++ tail)).orElse other =
        (locateAll parts (front ++ .wildcard :: rest)).orElse next := by
  rw [locateAll_append, locateAll_append, Position.orElse_assoc, Position.orElse_assoc]
  cases locateAll (parts.take front.length) front with
  | less | greater | within => exact .inr rfl
  | equal =>
    rw [List.drop_eq_getElem_cons more]
    exact .inl rfl

namespace Release

theorem isLE_compare_ofNumbers {a b c a' b' c' : Nat} :
    (compare (ofNumbers a b c) (ofNumbers a' b' c')).isLE ↔
      a < a' ∨ a = a' ∧ (b < b' ∨ b = b' ∧ c ≤ c') := by
  change ((compare a a').then ((compare b b').then (compare c c'))).isLE ↔ _
  simp only [Ordering.isLE_then_iff_or, Nat.isLE_compare, Nat.compare_eq_lt, Nat.compare_eq_eq]

/-- Whether the second release writes the numbers of the first one but the last. A wildcard takes
the place of an only number. -/
inductive DropsLast : Release → Release → Prop where
  | patch (major minor patch : Nat) :
      DropsLast (ofNumbers major minor patch) ⟨.value major, .value minor, .absent⟩
  | minor (major minor : Nat) :
      DropsLast ⟨.value major, .value minor, .absent⟩ ⟨.value major, .absent, .absent⟩
  | major (major : Nat) : DropsLast ⟨.value major, .absent, .absent⟩ ⟨.wildcard, .absent, .absent⟩

namespace DropsLast

variable {long short upper : Release}

theorem exists_parts (drops : long.DropsLast short) : ∃ front tail rest, front.length < 3 ∧
    (long.resolve .wildcard).parts = front ++ tail ∧
      (short.resolve .wildcard).parts = front ++ .wildcard :: rest := by
  cases drops with
  | patch major minor patch =>
    exact ⟨[.value major, .value minor], [.value patch], [], by simp, rfl, rfl⟩
  | minor major minor =>
    exact ⟨[.value major], [.value minor, .wildcard], [.wildcard], by simp, rfl, rfl⟩
  | major major =>
    exact ⟨[], [.value major, .wildcard, .wildcard], [.wildcard, .wildcard], by simp, rfl, rfl⟩

theorem isLE_floor (drops : long.DropsLast short) : (compare short.floor long.floor).isLE := by
  cases drops with
  | patch major minor patch =>
    change (compare (ofNumbers major minor 0) (ofNumbers major minor patch)).isLE
    rw [isLE_compare_ofNumbers]
    omega
  | minor major minor =>
    change (compare (ofNumbers major 0 0) (ofNumbers major minor 0)).isLE
    rw [isLE_compare_ofNumbers]
    omega
  | major major =>
    change (compare (ofNumbers 0 0 0) (ofNumbers major 0 0)).isLE
    rw [isLE_compare_ofNumbers]
    omega

theorem exists_tildeCeiling_isLE (drops : long.DropsLast short)
    (ends : short.tildeCeiling? = some upper) :
    ∃ lower, long.tildeCeiling? = some lower ∧ (compare lower upper).isLE := by
  cases drops with
  | patch major minor patch => exact ⟨upper, ends, Ordering.isLE_of_eq_eq Std.ReflOrd.compare_self⟩
  | minor major minor =>
    cases ends
    exact ⟨_, rfl, isLE_compare_ofNumbers.mpr (.inl (Nat.lt_succ_self _))⟩
  | major major => contradiction

/-- Where the caret raises the number that is left out, it raises the one in front of that instead;
otherwise the ceiling stays. -/
theorem exists_caretCeiling_isLE (drops : long.DropsLast short)
    (ends : short.caretCeiling? = some upper) :
    ∃ lower, long.caretCeiling? = some lower ∧ (compare lower upper).isLE := by
  have same : (compare upper upper).isLE := Ordering.isLE_of_eq_eq Std.ReflOrd.compare_self
  cases drops with
  | patch major minor patch =>
    -- the patch is raised behind two zeros alone
    match major, minor with
    | 0, 0 =>
      cases ends
      exact ⟨_, rfl, isLE_compare_ofNumbers.mpr (by omega)⟩
    | 0, _ + 1 | _ + 1, _ => exact ⟨upper, ends, same⟩
  | minor major minor =>
    -- without a patch, the minor is raised behind a zero whether it is zero or not
    match major, minor with
    | 0, 0 | 0, _ + 1 =>
      cases ends
      exact ⟨_, rfl, isLE_compare_ofNumbers.mpr (by omega)⟩
    | _ + 1, _ => exact ⟨upper, ends, same⟩
  | major major => contradiction

end DropsLast

end Release

namespace Constraint

/-- Whether the second constraint leaves out the last number of the first one's target. Neither
target is padded. -/
structure TruncatesTo (first second : Constraint) : Prop where
  operator : first.operator = second.operator
  release : first.version.release.DropsLast second.version.release
  suffix : first.version.suffix.floor = second.version.suffix.floor
  policy : first.padding = .wildcard ∧ second.padding = .wildcard

namespace TruncatesTo

variable {first second : Constraint} (truncates : first.TruncatesTo second) {version : Version}
include truncates

theorem widensTo : first.WidensTo second := by
  refine ⟨truncates.operator, ?_⟩
  intro version
  obtain ⟨front, tail, rest, more, long, short⟩ := truncates.release.exists_parts
  rw [locate, locate, target, target, truncates.policy.1, truncates.policy.2, Precedence.locate,
    Precedence.locate, long, short]
  -- the suffixes may differ too, but the shorter walk ends in front of its own
  exact Part.within_or_locateAll_eq more tail rest _ _

theorem isLE_floor : (compare second.floor first.floor).isLE := by
  have suffix : second.floor.suffix = first.floor.suffix := truncates.suffix.symm
  rw [Precedence.compare_eq_then, release_floor, release_floor, suffix, Std.ReflOrd.compare_self,
    Ordering.then_eq]
  exact truncates.release.isLE_floor

theorem isGE_compareFloor (reached : (first.compareFloor version).isGE) :
    (second.compareFloor version).isGE := by
  rw [compareFloor, Std.OrientedOrd.eq_swap, Ordering.isGE_swap] at reached ⊢
  exact Std.TransOrd.isLE_trans truncates.isLE_floor reached

theorem isLT_compareFloor (below : (second.compareFloor version).isLT) :
    (first.compareFloor version).isLT := by
  rw [Ordering.isLT_iff_eq_lt] at below ⊢
  exact Std.TransCmp.lt_of_lt_of_isLE below truncates.isLE_floor

theorem exists_ceiling_isLE {upper : Release} (ends : second.ceiling? = some upper) :
    ∃ lower, first.ceiling? = some lower ∧ (compare lower upper).isLE := by
  unfold ceiling? at ends ⊢
  rw [truncates.operator]
  cases operator : second.operator with
  | tilde =>
    rw [operator] at ends
    exact truncates.release.exists_tildeCeiling_isLE ends
  | caret =>
    rw [operator] at ends
    exact truncates.release.exists_caretCeiling_isLE ends
  | implicit | equal | notEqual | lessThan | lessThanOrEqual | greaterThan | greaterThanOrEqual =>
    rw [operator] at ends
    contradiction

theorem isBelowCeiling (below : first.isBelowCeiling version) :
    second.isBelowCeiling version := by
  unfold Constraint.isBelowCeiling at below ⊢
  cases ends : second.ceiling? with
  | none => rfl
  | some upper =>
    obtain ⟨lower, found, rises⟩ := truncates.exists_ceiling_isLE ends
    rw [found] at below
    simp only [Ordering.isLT_iff_eq_lt] at below ⊢
    exact Std.TransCmp.lt_of_lt_of_isLE below rises

theorem admits_shorter (operator : first.operator ∈
      [.implicit, .equal, .lessThanOrEqual, .greaterThanOrEqual, .tilde, .caret])
    (admitted : first.admits version) : second.admits version := by
  have same := truncates.operator.symm
  simp only [List.mem_cons, List.not_mem_nil, or_false] at operator
  rcases operator with operator | operator | operator | operator | operator | operator <;>
    rw [operator] at same
  case inl | inr.inl | inr.inr.inl =>
    exact truncates.widensTo.admits_wider (by rw [operator]; rfl) rfl admitted
  case inr.inr.inr.inl =>
    simp only [admits, operator, same] at admitted ⊢
    exact truncates.isGE_compareFloor admitted
  case inr.inr.inr.inr.inl | inr.inr.inr.inr.inr =>
    simp only [admits, operator, same, Bool.and_eq_true] at admitted ⊢
    exact ⟨truncates.isGE_compareFloor admitted.1, truncates.isBelowCeiling admitted.2⟩

theorem admits_longer (operator : first.operator ∈ [.notEqual, .lessThan, .greaterThan])
    (admitted : second.admits version) : first.admits version := by
  have same := truncates.operator.symm
  simp only [List.mem_cons, List.not_mem_nil, or_false] at operator
  rcases operator with operator | operator | operator <;> rw [operator] at same
  case inl | inr.inr =>
    exact truncates.widensTo.admits_narrower (by rw [operator]; rfl) rfl admitted
  case inr.inl =>
    simp only [admits, operator, same] at admitted ⊢
    exact truncates.isLT_compareFloor admitted

end TruncatesTo

end Constraint

namespace TargetForm

def truncate (form : TargetForm) : TargetForm :=
  { form with
    components := match form.components with
      | [_] => [['*']]
      | components => components.dropLast }

section

variable {form : TargetForm} (valid : form.IsValid)
include valid

theorem IsValid.truncate : form.truncate.IsValid := by
  obtain ⟨letter, components, suffix, build⟩ := form
  obtain ⟨some, three⟩ := valid.count
  have written := valid.components
  match components with
  | [_] =>
    refine ⟨?_, ⟨Nat.le_refl 1, Nat.le_add_left 1 2⟩, valid.suffix, valid.build⟩
    intro component star
    rw [List.mem_singleton.mp star]
    exact ⟨.wildcard, .star⟩
  | first :: second :: rest =>
    refine ⟨?_, ?_, valid.suffix, valid.build⟩
    · intro component member
      exact written component (List.dropLast_subset _ member)
    · change 1 ≤ (first :: second :: rest).dropLast.length ∧
        (first :: second :: rest).dropLast.length ≤ 3
      rw [List.length_dropLast]
      simp only [List.length_cons] at three ⊢
      omega

theorem IsValid.exists_dropsLast (numbers : ∀ component ∈ form.components, Text.isNumeral component) :
    ∃ long short, Release.Reads form.components long ∧
      Release.Reads form.truncate.components short ∧ long.DropsLast short := by
  obtain ⟨letter, components, suffix, build⟩ := form
  obtain ⟨some, three⟩ := valid.count
  have read : ∀ component ∈ components, Part.Reads component (.value (Text.numeralValue component)) :=
    fun component member => .number (numbers component member)
  match components, some, three with
  | [major], _, _ =>
    simp only [List.mem_singleton, forall_eq] at read
    exact ⟨_, _, ⟨_, 2, .cons read .nil, rfl⟩, ⟨_, 2, .cons .star .nil, rfl⟩, .major _⟩
  | [major, minor], _, _ =>
    simp only [List.mem_cons, List.not_mem_nil, or_false, forall_eq_or_imp, forall_eq] at read
    obtain ⟨first, second⟩ := read
    exact ⟨_, _, ⟨_, 1, .cons first (.cons second .nil), rfl⟩, ⟨_, 2, .cons first .nil, rfl⟩,
      .minor _ _⟩
  | [major, minor, patch], _, _ =>
    simp only [List.mem_cons, List.not_mem_nil, or_false, forall_eq_or_imp, forall_eq] at read
    obtain ⟨first, second, third⟩ := read
    exact ⟨_, _, ⟨_, 0, .cons first (.cons second (.cons third .nil)), rfl⟩,
      ⟨_, 1, .cons first (.cons second .nil), rfl⟩, .patch _ _ _⟩

theorem IsValid.exists_truncated (numbers : ∀ component ∈ form.components, Text.isNumeral component)
    (unsuffixed : form.suffix = none) : ∃ long short,
      Version.parseTarget .wildcard (String.ofList form.text) = .ok long ∧
      Version.parseTarget .wildcard (String.ofList form.truncate.text) = .ok short ∧
      long.release.DropsLast short.release ∧ long.suffix.floor = short.suffix.floor := by
  obtain ⟨first, second, written, truncated, drops⟩ := valid.exists_dropsLast numbers
  refine ⟨_, _, valid.parseTarget_text written .wildcard,
    valid.truncate.parseTarget_text truncated .wildcard, drops, ?_⟩
  have absent : form.truncate.suffix = none := unsuffixed
  rw [unsuffixed, absent]
  exact (first.floor_impliedSuffix .wildcard).trans (second.floor_impliedSuffix .wildcard).symm

end

end TargetForm

namespace Expression

/-- Without padding, a target that leaves out the last of its numbers, or puts a star for an only
one, admits no less by equality, at-most, at-least, tilde and caret, and no more by not-equal,
less-than and greater-than. -/
theorem truncation_widens_target {form : TargetForm} (valid : form.IsValid)
    (numbers : ∀ component ∈ form.components, Text.isNumeral component)
    (unsuffixed : form.suffix = none) {spelling : String} {operator : Operator}
    (spelled : Operator.parse spelling = .ok operator) :
    ∃ long short, parse .wildcard (spelling ++ String.ofList form.text) = .ok long ∧
      parse .wildcard (spelling ++ String.ofList form.truncate.text) = .ok short ∧
      ∀ version : Version,
        (operator ∈ [.implicit, .equal, .lessThanOrEqual, .greaterThanOrEqual, .tilde, .caret] →
          long.admits version → short.admits version) ∧
        (operator ∈ [.notEqual, .lessThan, .greaterThan] →
          short.admits version → long.admits version) := by
  obtain ⟨target, shorter, read, reread, drops, suffix⟩ := valid.exists_truncated numbers unsuffixed
  refine ⟨_, _, parse_single spelled read, parse_single spelled reread, ?_⟩
  have truncates : Constraint.TruncatesTo
      ⟨operator, target, .wildcard, spelling ++ String.ofList form.text⟩
      ⟨operator, shorter, .wildcard, spelling ++ String.ofList form.truncate.text⟩ :=
    ⟨rfl, drops, suffix, rfl, rfl⟩
  intro version
  rw [admits_single, admits_single]
  exact ⟨truncates.admits_shorter, truncates.admits_longer⟩

/-- A caret that raises the patch, and the minor once no patch is written. -/
theorem truncation_widens_target_caret :
    let form : TargetForm := ⟨true, [['0'], ['0'], ['0', '3']], none, none⟩
    let version : Version := ⟨⟨.ofNumbers 0 0 3, .revision [5]⟩, none, "0.0.3-5"⟩
    form.IsValid ∧ (∀ component ∈ form.components, Text.isNumeral component) ∧
      form.suffix = none ∧ Operator.parse "^" = .ok .caret ∧
      ∃ long short, parse .wildcard ("^" ++ "v0.0.03") = .ok long ∧
        parse .wildcard ("^" ++ "v0.0") = .ok short ∧ long.admits version ∧ short.admits version ∧
        ¬long.admits (.ofNumbers 0 0 4) := by
  intro form version
  have numbers : ∀ component ∈ form.components, Text.isNumeral component := by decide
  have valid : form.IsValid :=
    ⟨fun component member => ⟨_, .number (numbers component member)⟩, by decide, by decide, by decide⟩
  have spelled : Operator.parse "^" = .ok .caret := rfl
  have target : Version.parseTarget .wildcard "v0.0.03" =
      .ok ⟨⟨.ofNumbers 0 0 3, .bare⟩, none, "v0.0.03"⟩ := by rfl
  have found := parse_single spelled target
  obtain ⟨long, short, read, reread, widens⟩ := truncation_widens_target valid numbers rfl spelled
  rw [show String.ofList form.text = "v0.0.03" by decide, found] at read
  rw [show String.ofList form.truncate.text = "v0.0" by decide] at reread
  cases read
  refine ⟨valid, numbers, rfl, spelled, _, short, found, reread, by decide, ?_, by decide⟩
  exact (widens version).1 (by decide) (by decide)

end Expression

end VersionRange
