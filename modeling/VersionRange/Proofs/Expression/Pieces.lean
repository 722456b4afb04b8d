import Mathlib.Data.List.Induction
import VersionRange.Proofs.Expression.RoundTrip

/-! The pieces of an expression.

An expression is cut at the first double bar, and behind it again, until none is
left. White space at the ends of the whole text stands at the ends of the first and
the last piece, where it is trimmed off as around the bars.
-/

set_option autoImplicit false

namespace VersionRange.Expression

/-- The texts between double bars. No double bar begins in front of the one that ends a text. -/
inductive Cut : List Char → List (List Char) → Prop where
  | last {text : List Char} (whole : ¬['|', '|'] <:+: text) : Cut text [text]
  | next {front rest : List Char} {texts : List (List Char)}
      (leftmost : ¬['|', '|'] <:+: front ++ ['|']) (others : Cut rest texts) :
      Cut (front ++ '|' :: '|' :: rest) (front :: texts)

theorem bars_cons_iff {c : Char} {rest : List Char} : ¬['|', '|'] <:+: c :: rest ↔
    (c = '|' → ∀ tail, rest ≠ '|' :: tail) ∧ ¬['|', '|'] <:+: rest := by
  rw [List.infix_cons_iff, not_or]
  refine and_congr_left fun _ => ?_
  constructor
  · rintro apart rfl tail rfl
    exact apart ⟨tail, rfl⟩
  · rintro single ⟨tail, same⟩
    cases same
    exact single rfl tail rfl

theorem ne_bar_append {front : List Char} (stops : ∀ tail, front ++ ['|'] ≠ '|' :: tail)
    (rest tail : List Char) : front ++ '|' :: rest ≠ '|' :: tail := by
  cases front with
  | nil => exact absurd rfl (stops [])
  | cons d front =>
    rintro same
    cases same
    exact stops _ rfl

theorem Cut.cons {c : Char} {rest : List Char} {texts : List (List Char)}
    (single : c = '|' → ∀ tail, rest ≠ '|' :: tail) (cut : Cut rest texts) :
    Cut (c :: rest) (texts.modifyHead (c :: ·)) := by
  cases cut with
  | last whole => exact .last (bars_cons_iff.mpr ⟨single, whole⟩)
  | @next front rest texts leftmost others =>
    refine @Cut.next (c :: front) _ _ (bars_cons_iff.mpr ⟨?_, leftmost⟩) others
    rintro bar tail same
    cases front with
    | nil => exact single bar _ rfl
    | cons d front =>
      cases same
      exact single bar _ rfl

theorem cut_splitBars (text : List Char) : Cut text (splitBars text) := by
  fun_induction splitBars text with
  | case1 => exact .last (by decide)
  | case2 rest ih => exact @Cut.next [] _ _ (by decide) ih
  | case3 c rest single ih => exact ih.cons fun bar tail same => single tail bar same

theorem splitBars_of_single {text : List Char} (whole : ¬['|', '|'] <:+: text) :
    splitBars text = [text] := by
  induction text with
  | nil => rfl
  | cons c rest ih =>
    obtain ⟨single, whole⟩ := bars_cons_iff.mp whole
    rw [splitBars_cons single, ih whole]
    rfl

theorem splitBars_leftmost {front : List Char} (leftmost : ¬['|', '|'] <:+: front ++ ['|'])
    (rest : List Char) : splitBars (front ++ '|' :: '|' :: rest) = front :: splitBars rest := by
  induction front with
  | nil => rfl
  | cons c front ih =>
    obtain ⟨single, leftmost⟩ := bars_cons_iff.mp leftmost
    rw [List.cons_append, splitBars_cons fun bar => ne_bar_append (single bar) _, ih leftmost]
    rfl

theorem cut_iff {text : List Char} {texts : List (List Char)} :
    Cut text texts ↔ splitBars text = texts := by
  constructor
  · intro cut
    induction cut with
    | last whole => exact splitBars_of_single whole
    | next leftmost others ih => rw [splitBars_leftmost leftmost, ih]
  · rintro rfl
    exact cut_splitBars text

theorem splitBars_append_blank {c : Char} (blank : Text.isBlank c) (text : List Char) :
    ∃ front last, splitBars text = front ++ [last] ∧
      splitBars (text ++ [c]) = front ++ [last ++ [c]] := by
  have other : c ≠ '|' := by
    rintro rfl
    contradiction
  fun_induction splitBars text with
  | case1 => exact ⟨[], [], rfl, splitBars_cons fun bar => absurd bar other⟩
  | case2 rest ih =>
    obtain ⟨front, last, split, appended⟩ := ih
    refine ⟨[] :: front, last, ?_, ?_⟩
    · rw [split]
      rfl
    · change [] :: splitBars (rest ++ [c]) = _
      rw [appended]
      rfl
  | case3 d rest single ih =>
    obtain ⟨front, last, split, appended⟩ := ih
    -- the blank does not make a double bar of a single one
    have alone : d = '|' → ∀ tail, rest ++ [c] ≠ '|' :: tail := by
      intro bar tail same
      cases rest with
      | nil =>
        cases same
        exact other rfl
      | cons e rest =>
        cases same
        exact single rest bar rfl
    rw [List.cons_append, splitBars_cons alone, split, appended]
    cases front with
    | nil => exact ⟨[], d :: last, rfl, rfl⟩
    | cons first front => exact ⟨(d :: first) :: front, last, rfl, rfl⟩

theorem pieces_append_blank {c : Char} (blank : Text.isBlank c) (text : List Char) :
    pieces (text ++ [c]) = pieces text := by
  obtain ⟨front, last, split, appended⟩ := splitBars_append_blank blank text
  rw [pieces, appended, pieces, split, List.map_append, List.map_append, List.map_singleton,
    List.map_singleton, Text.trim_append blank]

theorem pieces_dropWhile (text : List Char) : pieces (text.dropWhile Text.isBlank) = pieces text := by
  induction text with
  | nil => rfl
  | cons c text ih =>
    rw [List.dropWhile_cons]
    split
    · next blank => rw [ih, pieces_cons_blank blank]
    · rfl

theorem pieces_trimEnd (text : List Char) : pieces (Text.trimEnd text) = pieces text := by
  induction text using List.reverseRecOn with
  | nil => rfl
  | append_singleton text c ih =>
    rw [Text.trimEnd, List.reverse_append, List.reverse_singleton, List.singleton_append,
      List.dropWhile_cons]
    split
    · next blank =>
      rw [pieces_append_blank blank]
      exact ih
    · simp

theorem pieces_trim (text : List Char) : pieces (Text.trim text) = pieces text := by
  rw [Text.trim, pieces_trimEnd, pieces_dropWhile]

theorem pieces_of_cut {text : List Char} {texts : List (List Char)}
    (cut : Cut (Text.trim text) texts) : pieces text = texts.map Text.trim := by
  rw [← pieces_trim, pieces, cut_iff.mp cut]

end VersionRange.Expression
