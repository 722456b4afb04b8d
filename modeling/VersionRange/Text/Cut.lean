/-! Cutting a text at a mark.

A text without the mark stays whole. Any other is cut into what stands before
the first mark and what stands after it.
-/

set_option autoImplicit false

namespace VersionRange.Text

/-- Cut a text at the first occurrence of a mark, which is dropped. Without the mark there is no
second half. -/
def cut (mark : Char) (text : List Char) : List Char × Option (List Char) :=
  match text.dropWhile (· != mark) with
  | [] => (text, none)
  | _ :: rest => (text.takeWhile (· != mark), some rest)

theorem cut_of_not_mem {mark : Char} {text : List Char} (absent : mark ∉ text) :
    cut mark text = (text, none) := by
  have other : ∀ c ∈ text, (c != mark) = true := fun c member =>
    bne_iff_ne.mpr fun same => absent (same ▸ member)
  have dropped : (text ++ []).dropWhile (· != mark) = [] := List.dropWhile_append_of_pos other
  rw [List.append_nil] at dropped
  rw [cut, dropped]

theorem cut_append {mark : Char} {front : List Char} (absent : mark ∉ front) (rest : List Char) :
    cut mark (front ++ mark :: rest) = (front, some rest) := by
  have other : ∀ c ∈ front, (c != mark) = true := fun c member =>
    bne_iff_ne.mpr fun same => absent (same ▸ member)
  have dropped : (front ++ mark :: rest).dropWhile (· != mark) = mark :: rest := by
    rw [List.dropWhile_append_of_pos other, List.dropWhile_cons_of_neg (by simp)]
  have taken : (front ++ mark :: rest).takeWhile (· != mark) = front := by
    rw [List.takeWhile_append_of_pos other, List.takeWhile_cons_of_neg (by simp), List.append_nil]
  rw [cut, dropped, taken]

end VersionRange.Text
