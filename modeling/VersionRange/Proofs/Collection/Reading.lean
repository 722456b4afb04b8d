import Mathlib.Data.List.Perm.Basic
import VersionRange.Proofs.Collection.Sorting
import VersionRange.Proofs.Traversal

/-! Collections and their texts.

A collection is read if each of its texts is a concrete version, and keeps the texts.
Otherwise the first text that is none is reported. In which order the texts are given
makes no difference once the collection is sorted.
-/

set_option autoImplicit false

namespace VersionRange.Collection

variable {texts : List String} {collection : Collection}

theorem parse_eq_ok_iff_forall₂ : parse texts = .ok collection ↔
    List.Forall₂ (fun text version => Version.parse text = .ok version) texts
      collection.versions := by
  rw [← mapM_eq_ok_iff, parse]
  cases texts.mapM Version.parse with
  | error error => simp [bind, Except.bind]
  | ok versions =>
    obtain ⟨others⟩ := collection
    simp [bind, Except.bind, pure, Except.pure]

theorem parse_eq_ok_iff : parse texts = .ok collection ↔
    (∀ version ∈ collection.versions, version.IsConcrete) ∧
      collection.versions.map Version.text = texts := by
  obtain ⟨versions⟩ := collection
  simp only [parse_eq_ok_iff_forall₂, Version.parse_eq_ok_iff]
  induction versions generalizing texts with
  | nil => simp [eq_comm]
  | cons version versions ih =>
    rw [List.forall₂_cons_right_iff, List.forall_mem_cons, List.map_cons]
    constructor
    · rintro ⟨_, rest, ⟨concrete, rfl⟩, others, rfl⟩
      obtain ⟨all, rfl⟩ := ih.mp others
      exact ⟨⟨concrete, all⟩, rfl⟩
    · rintro ⟨⟨concrete, all⟩, rfl⟩
      exact ⟨version.text, _, ⟨concrete, rfl⟩, ih.mpr ⟨all, rfl⟩, rfl⟩

theorem parse_eq_error_iff {error : InvalidVersion} : parse texts = .error error ↔
    ∃ front text rest, texts = front ++ text :: rest ∧
      (∀ other ∈ front, Version.isValid other) ∧ ¬Version.isValid text ∧ error = ⟨text⟩ := by
  have whole : parse texts = .error error ↔ texts.mapM Version.parse = .error error := by
    rw [parse]
    cases texts.mapM Version.parse <;> simp [bind, Except.bind, pure, Except.pure]
  simp only [whole, mapM_eq_error_iff, ← Version.isValid_iff, Version.parse_eq_error_iff]

theorem sort_of_perm {others : List String} (perm : others.Perm texts)
    (read : parse texts = .ok collection) :
    ∃ other, parse others = .ok other ∧ other.sort == collection.sort := by
  obtain ⟨versions, reads, same⟩ := List.perm_comp_forall₂ perm (parse_eq_ok_iff_forall₂.mp read)
  exact ⟨⟨versions⟩, parse_eq_ok_iff_forall₂.mpr reads, sort_beq_sort same⟩

end VersionRange.Collection
