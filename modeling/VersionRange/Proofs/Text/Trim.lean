import Mathlib.Data.List.Basic
import VersionRange.Text.Blank

/-! Trimmed texts.

Trimming takes away white space at the two ends and nothing else. What it leaves
begins and ends with another character, and such a text is left as it is.
-/

set_option autoImplicit false

namespace VersionRange.Text

variable {text : List Char} {c : Char}

theorem mem_dropWhile {inside : Char → Bool} (member : c ∈ text) (stops : inside c = false) :
    c ∈ text.dropWhile inside := by
  rw [← List.takeWhile_append_dropWhile (p := inside) (l := text)] at member
  rcases List.mem_append.mp member with taken | dropped
  · have held := List.all_eq_true.mp List.all_takeWhile c taken
    rw [stops] at held
    contradiction
  · exact dropped

theorem mem_trim (member : c ∈ text) (solid : isBlank c = false) : c ∈ trim text := by
  have front := mem_dropWhile member solid
  exact List.mem_reverse.mpr (mem_dropWhile (List.mem_reverse.mpr front) solid)

theorem trim_of_ends (start : ∀ c ∈ text.head?, isBlank c = false)
    (stop : ∀ c ∈ text.getLast?, isBlank c = false) : trim text = text := by
  have front : text.dropWhile isBlank = text := by
    cases text with
    | nil => rfl
    | cons c rest => rw [List.dropWhile_cons_of_neg (by simp [start c rfl])]
  have back : text.reverse.dropWhile isBlank = text.reverse := by
    cases reversed : text.reverse with
    | nil => rfl
    | cons c rest =>
      have last : c ∈ text.getLast? := by
        rw [← List.head?_reverse, reversed]
        rfl
      rw [List.dropWhile_cons_of_neg (by simp [stop c last])]
  rw [trim, front, trimEnd, back, List.reverse_reverse]

theorem getLast?_trimEnd (last : c ∈ (trimEnd text).getLast?) : isBlank c = false := by
  rw [trimEnd, List.getLast?_reverse] at last
  have stops := List.head?_dropWhile_not isBlank text.reverse
  rw [Option.mem_def.mp last] at stops
  simpa using stops

theorem getLast?_trim (last : c ∈ (trim text).getLast?) : isBlank c = false :=
  getLast?_trimEnd last

theorem trimEnd_prefix (text : List Char) : trimEnd text <+: text := by
  have behind := List.dropWhile_suffix isBlank (l := text.reverse)
  have reversed := List.reverse_prefix.mpr behind
  rwa [List.reverse_reverse] at reversed

theorem exists_trimEnd_append (text : List Char) :
    ∃ after, after.all isBlank ∧ trimEnd text ++ after = text := by
  refine ⟨(text.reverse.takeWhile isBlank).reverse, ?_, ?_⟩
  · rw [List.all_reverse]
    exact List.all_takeWhile
  · rw [trimEnd, ← List.reverse_append, List.takeWhile_append_dropWhile, List.reverse_reverse]

theorem mem_of_mem_trim (member : c ∈ trim text) : c ∈ text := by
  have front : trim text <+: text.dropWhile isBlank := trimEnd_prefix _
  exact (List.dropWhile_suffix isBlank).subset (front.subset member)

theorem head?_trim (first : c ∈ (trim text).head?) : isBlank c = false := by
  -- what is taken away at the end leaves the first character in its place
  have front : trim text <+: text.dropWhile isBlank := trimEnd_prefix _
  have stops := List.head?_dropWhile_not isBlank text
  obtain ⟨rest, whole⟩ := front
  rw [← whole, List.head?_append, Option.mem_def.mp first] at stops
  simpa using stops

theorem trim_trim (text : List Char) : trim (trim text) = trim text :=
  trim_of_ends (fun _ first => head?_trim first) fun _ last => getLast?_trim last

theorem trim_between {first second : List Char} (between : List Char) (firstFilled : first ≠ [])
    (secondFilled : second ≠ []) (firstTrimmed : trim first = first)
    (secondTrimmed : trim second = second) :
    trim (first ++ (between ++ second)) = first ++ (between ++ second) := by
  apply trim_of_ends
  · intro c start
    rw [List.head?_append_of_ne_nil first firstFilled, ← firstTrimmed] at start
    exact head?_trim start
  · intro c stop
    rw [List.getLast?_append_of_ne_nil first (by simp [secondFilled]),
      List.getLast?_append_of_ne_nil between secondFilled, ← secondTrimmed] at stop
    exact getLast?_trim stop

theorem trim_cons (blank : isBlank c) : trim (c :: text) = trim text := by
  rw [trim, List.dropWhile_cons_of_pos blank, trim]

theorem trim_append (blank : isBlank c) : trim (text ++ [c]) = trim text := by
  rw [trim, trim, List.dropWhile_append]
  split
  · next empty =>
    rw [List.isEmpty_iff.mp empty, List.dropWhile_cons_of_pos blank]
    rfl
  · rw [trimEnd, List.reverse_append, List.reverse_singleton, List.singleton_append,
      List.dropWhile_cons_of_pos blank, trimEnd]

theorem trim_append_blanks {after : List Char} (blank : after.all isBlank) (text : List Char) :
    trim (text ++ after) = trim text := by
  induction after generalizing text with
  | nil => rw [List.append_nil]
  | cons c after ih =>
    rw [List.all_cons, Bool.and_eq_true] at blank
    rw [List.append_cons, ih blank.2, trim_append blank.1]

theorem trim_trimEnd (text : List Char) : trim (trimEnd text) = trim text := by
  obtain ⟨after, blank, whole⟩ := exists_trimEnd_append text
  rw [← trim_append_blanks blank (trimEnd text), whole]

theorem trim_surrounded {before after : List Char} (left : before.all isBlank)
    (right : after.all isBlank) (text : List Char) :
    trim (before ++ (text ++ after)) = trim text := by
  rw [List.all_eq_true] at left
  rw [trim, List.dropWhile_append_of_pos left, ← trim, trim_append_blanks right]

theorem trim_of_all (solid : text.all fun c => !isBlank c) : trim text = text := by
  rw [List.all_eq_true] at solid
  apply trim_of_ends
  · intro c first
    simpa using solid c (List.mem_of_mem_head? first)
  · intro c last
    simpa using solid c (List.mem_of_mem_getLast? last)

end VersionRange.Text
