import Mathlib.Data.List.Forall2

/-! Reading a list element by element.

A list is read when each of its elements is, so the readings stand beside what they
were read from, one to one and in order. The first element that is not read ends the
traversal.
-/

set_option autoImplicit false

namespace VersionRange

variable {A B E : Type} {read : A → Except E B} {R : A → B → Prop}

theorem mapM_eq_ok_iff {texts : List A} {values : List B} : texts.mapM read = .ok values ↔
    List.Forall₂ (fun text value => read text = .ok value) texts values := by
  induction texts generalizing values with
  | nil =>
    cases values with
    | nil => exact ⟨fun _ => .nil, fun _ => rfl⟩
    | cons value values => simp [pure, Except.pure]
  | cons text texts ih =>
    rw [List.mapM_cons, List.forall₂_cons_left_iff]
    constructor
    · intro all
      cases first : read text with
      | error error => simp [first, bind, Except.bind] at all
      | ok value =>
        cases others : texts.mapM read with
        | error error => simp [first, others, bind, Except.bind] at all
        | ok rest =>
          rw [first, others] at all
          exact ⟨value, rest, rfl, ih.mp others, (Except.ok.inj all).symm⟩
    · rintro ⟨value, rest, first, others, rfl⟩
      rw [first, ih.mpr others]
      rfl

theorem mapM_eq_some_iff {read : A → Option B} {texts : List A} {values : List B} :
    texts.mapM read = some values ↔
      List.Forall₂ (fun text value => read text = some value) texts values := by
  induction texts generalizing values with
  | nil =>
    cases values with
    | nil => exact ⟨fun _ => .nil, fun _ => rfl⟩
    | cons value values => simp
  | cons text texts ih =>
    simp only [List.mapM_cons, Option.bind_eq_bind, Option.bind_eq_some_iff, ih,
      List.forall₂_cons_left_iff]
    constructor
    · rintro ⟨value, first, rest, others, same⟩
      exact ⟨value, rest, first, others, (Option.some.inj same).symm⟩
    · rintro ⟨value, rest, first, others, rfl⟩
      exact ⟨value, first, rest, others, rfl⟩

theorem forall₂_append_iff {front back : List A} {values : List B} :
    List.Forall₂ R (front ++ back) values ↔
      ∃ first second, List.Forall₂ R front first ∧ List.Forall₂ R back second ∧
        values = first ++ second := by
  constructor
  · intro all
    refine ⟨values.take front.length, values.drop front.length, ?_, ?_, ?_⟩
    · simpa using List.forall₂_take front.length all
    · simpa using List.forall₂_drop front.length all
    · exact (List.take_append_drop ..).symm
  · rintro ⟨first, second, left, right, rfl⟩
    exact List.rel_append left right

theorem exists_of_forall₂ {texts : List A} {values : List B} (all : List.Forall₂ R texts values) :
    ∀ text ∈ texts, ∃ value ∈ values, R text value := by
  induction all with
  | nil => simp
  | @cons text value texts values first rest ih =>
    intro other member
    rcases List.mem_cons.mp member with rfl | member
    · exact ⟨value, List.mem_cons_self .., first⟩
    · obtain ⟨found, inside, holds⟩ := ih other member
      exact ⟨found, List.mem_cons_of_mem value inside, holds⟩

section

variable {P : A → Prop} {Q : B → Prop} {texts : List A} {values : List B}

theorem forall_mem_congr (all : List.Forall₂ R texts values) (same : ∀ a b, R a b → (P a ↔ Q b)) :
    (∀ text ∈ texts, P text) ↔ ∀ value ∈ values, Q value := by
  induction all with
  | nil => simp
  | cons first _ ih => rw [List.forall_mem_cons, List.forall_mem_cons, same _ _ first, ih]

theorem exists_mem_congr (all : List.Forall₂ R texts values) (same : ∀ a b, R a b → (P a ↔ Q b)) :
    (∃ text ∈ texts, P text) ↔ ∃ value ∈ values, Q value := by
  induction all with
  | nil => simp
  | cons first _ ih => rw [List.exists_mem_cons_iff, List.exists_mem_cons_iff, same _ _ first, ih]

end

theorem exists_forall₂ {C : Type} {S : A → C → Prop} {T : B → C → Prop} {texts : List A}
    {values : List B} (all : List.Forall₂ R texts values)
    (step : ∀ a b, R a b → ∃ c, S a c ∧ T b c) :
    ∃ others, List.Forall₂ S texts others ∧ List.Forall₂ T values others := by
  induction all with
  | nil => exact ⟨[], .nil, .nil⟩
  | cons first _ ih =>
    obtain ⟨other, read, related⟩ := step _ _ first
    obtain ⟨others, reads, relations⟩ := ih
    exact ⟨other :: others, .cons read reads, .cons related relations⟩

theorem mapM_eq_error {front rest : List A} {text : A} {error : E}
    (good : ∀ other ∈ front, ∃ value, read other = .ok value) (bad : read text = .error error) :
    (front ++ text :: rest).mapM read = .error error := by
  induction front with
  | nil =>
    rw [List.nil_append, List.mapM_cons, bad]
    rfl
  | cons first front ih =>
    obtain ⟨value, found⟩ := good first (by simp)
    have others := ih fun other member => good other (List.mem_cons_of_mem first member)
    rw [List.cons_append, List.mapM_cons, found, others]
    rfl

theorem mapM_eq_error_iff {texts : List A} {error : E} : texts.mapM read = .error error ↔
    ∃ front text rest, texts = front ++ text :: rest ∧
      (∀ other ∈ front, ∃ value, read other = .ok value) ∧ read text = .error error := by
  constructor
  · intro refused
    induction texts with
    | nil => contradiction
    | cons text texts ih =>
      rw [List.mapM_cons] at refused
      cases first : read text with
      | error fault =>
        rw [first] at refused
        cases refused
        exact ⟨[], text, texts, rfl, by simp, first⟩
      | ok value =>
        cases others : texts.mapM read with
        | ok values =>
          rw [first, others] at refused
          contradiction
        | error fault =>
          rw [first, others] at refused
          cases refused
          obtain ⟨front, bad, rest, rfl, good, found⟩ := ih others
          refine ⟨text :: front, bad, rest, rfl, ?_, found⟩
          exact List.forall_mem_cons.mpr ⟨⟨value, first⟩, good⟩
  · rintro ⟨front, text, rest, rfl, good, bad⟩
    exact mapM_eq_error good bad

end VersionRange
