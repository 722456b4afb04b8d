import VersionRange.Text.Blank

/-! Terms of a group.

A group is split into terms before any of them is read. A term is a run of
operator characters, blanks, and a target, which extends to the next blank or
comma. A group splits if no operator is left without a target.
-/

set_option autoImplicit false

namespace VersionRange

structure Term where
  operator : List Char
  gap : List Char
  target : List Char
  deriving DecidableEq, Repr, Inhabited

namespace Term

def isOperatorChar (c : Char) : Bool :=
  c == '<' || c == '>' || c == '=' || c == '!' || c == '~' || c == '^'

def isSeparator (c : Char) : Bool :=
  Text.isAsciiBlank c || c == ','

def text (term : Term) : List Char :=
  term.operator ++ term.gap ++ term.target

/-- Cut the pieces of one term off the front of a text. The target is empty if there is none. -/
def cut (text : List Char) : Term × List Char :=
  let afterOperator := text.dropWhile isOperatorChar
  let afterGap := afterOperator.dropWhile Text.isAsciiBlank
  ({ operator := text.takeWhile isOperatorChar
     gap := afterOperator.takeWhile Text.isAsciiBlank
     target := afterGap.takeWhile fun c => !isSeparator c },
    afterGap.dropWhile fun c => !isSeparator c)

theorem text_cut_append (text : List Char) : (cut text).1.text ++ (cut text).2 = text := by
  simp only [cut, Term.text, List.append_assoc, List.takeWhile_append_dropWhile]

theorem length_cut_lt {text : List Char} (nonempty : (cut text).1.target ≠ []) :
    (cut text).2.length < text.length := by
  have lengths := congrArg List.length (text_cut_append text)
  have positive := List.length_pos_iff.mpr nonempty
  simp only [Term.text, List.length_append] at lengths
  omega

def splitAll? (text : List Char) : Option (List Term) :=
  match _ : text.dropWhile isSeparator with
  | [] => some []
  | c :: rest =>
    if _ : (cut (c :: rest)).1.target = [] then none
    else (splitAll? (cut (c :: rest)).2).map ((cut (c :: rest)).1 :: ·)
termination_by text.length
decreasing_by
  rename_i atTerm present
  have shorter := length_cut_lt present
  have dropped := (List.dropWhile_suffix isSeparator (l := text)).length_le
  rw [atTerm] at dropped
  omega

end Term

end VersionRange
