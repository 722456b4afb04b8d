import VersionRange.Proofs.Expression.Trimming
import VersionRange.Proofs.Text.Bytes

/-! Splitting a group byte by byte.

The scanner walks over the bytes of a group and slices its terms out by their
offsets. Every offset that it slices at is a boundary of characters, and what it
slices out are the terms that the group splits into; where the group does not
split it gives up, behind the terms that stand in front of the fault.
-/

set_option autoImplicit false

namespace VersionRange.Term

open Text

def isOperatorByte : UInt8 → Bool :=
  isOneOf ['<', '>', '=', '!', '~', '^']

def isBlankByte : UInt8 → Bool :=
  isOneOf [' ', '\t', '\n', '\x0c', '\r']

def isSeparatorByte (b : UInt8) : Bool :=
  isBlankByte b || b == ','.toUInt8

theorem agree_operator : Agree isOperatorByte isOperatorChar := by
  refine agree_isOneOf rfl fun c => ?_
  simp [isOperatorChar, or_assoc]

theorem agree_blank : Agree isBlankByte isAsciiBlank := by
  refine agree_isOneOf rfl fun c => ?_
  simp [isAsciiBlank, or_assoc]

theorem agree_separator : Agree isSeparatorByte isSeparator :=
  agree_blank.or (agree_beq (by decide))

/-- The stretches that are sliced out, and whether the end of the text is reached. -/
structure Scan where
  spans : List Span
  complete : Bool
  deriving DecidableEq, Repr

def Scan.cons (span : Span) (scan : Scan) : Scan :=
  { scan with spans := span :: scan.spans }

/-- Scan from an offset on: pass separators, an operator, blanks and a target, slice out what stands
behind the separators, and go on. Without a target the scan ends early. -/
def scanFrom (bytes : ByteArray) (i : Nat) : Scan :=
  let start := advance isSeparatorByte bytes i
  if start = bytes.size then ⟨[], true⟩
  else
    let target := advance isBlankByte bytes (advance isOperatorByte bytes start)
    let stop := advance (fun b => !isSeparatorByte b) bytes target
    if _ : target = stop then ⟨[], false⟩
    else (scanFrom bytes stop).cons ⟨start, stop⟩
termination_by bytes.size - i
decreasing_by
  rename_i present
  have toStart : i ≤ start := le_advance ..
  have toGap : start ≤ advance isOperatorByte bytes start := le_advance ..
  have toTarget : advance isOperatorByte bytes start ≤ target := le_advance ..
  have toStop : target ≤ stop := le_advance ..
  -- the target was passed, so its end is not behind the last byte
  have inside : stop ≤ bytes.size := advance_le_size present
  change bytes.size - stop < bytes.size - i
  omega

def scan (text : String) : Scan :=
  scanFrom text.toByteArray 0

section

variable {text : String} {i : Nat} {rest : List Char}

theorem scanFrom_of_dropWhile_eq_nil (here : IsAt text i rest)
    (ended : rest.dropWhile isSeparator = []) : scanFrom text.toByteArray i = ⟨[], true⟩ := by
  have started := here.advance_eq agree_separator
  have atEnd := (here.passed isSeparator).eq_size_iff.mpr ended
  rw [scanFrom, started]
  exact if_pos atEnd

theorem advance_cut (here : IsAt text i rest) :
    advance isOperatorByte text.toByteArray i = i + size (cut rest).1.operator ∧
      advance isBlankByte text.toByteArray (i + size (cut rest).1.operator) =
        i + size ((cut rest).1.operator ++ (cut rest).1.gap) ∧
      advance (fun b => !isSeparatorByte b) text.toByteArray
        (i + size ((cut rest).1.operator ++ (cut rest).1.gap)) = i + size (cut rest).1.text := by
  have atGap := here.passed isOperatorChar
  have atTarget := atGap.passed isAsciiBlank
  simp only [Term.text, size_append, ← Nat.add_assoc]
  exact ⟨here.advance_eq agree_operator, atGap.advance_eq agree_blank,
    atTarget.advance_eq agree_separator.not⟩

theorem size_text_eq_iff (term : Term) :
    i + size (term.operator ++ term.gap) = i + size term.text ↔ term.target = [] := by
  rw [Term.text, size_append _ term.target, ← size_eq_zero_iff]
  omega

theorem scanFrom_of_dropWhile_eq_cons {c : Char} {tail : List Char} (here : IsAt text i rest)
    (atTerm : rest.dropWhile isSeparator = c :: tail) :
    scanFrom text.toByteArray i =
      let start := i + size (rest.takeWhile isSeparator)
      let stop := start + size (cut (c :: tail)).1.text
      if (cut (c :: tail)).1.target = [] then ⟨[], false⟩
      else (scanFrom text.toByteArray stop).cons ⟨start, stop⟩ := by
  have started := here.advance_eq agree_separator
  have atStart := here.passed isSeparator
  rw [atTerm] at atStart
  have unfinished : i + size (rest.takeWhile isSeparator) ≠ text.toByteArray.size := by
    rw [Ne, atStart.eq_size_iff]
    exact List.cons_ne_nil c tail
  obtain ⟨operator, gap, target⟩ := advance_cut atStart
  rw [scanFrom]
  simp only [started, operator, gap, target, if_neg unfinished, size_text_eq_iff, dite_eq_ite]

theorem exists_terms_of_scanFrom (here : IsAt text i rest) :
    ∃ terms : List Term, (scanFrom text.toByteArray i).spans.mapM (slice? text) =
        some (terms.map fun term => String.ofList term.text) ∧
      splitAll? rest = if (scanFrom text.toByteArray i).complete then some terms else none := by
  -- the offset moves along: what is left of the group stands behind it
  fun_induction splitAll? rest generalizing i with
  | case1 rest ended =>
    rw [scanFrom_of_dropWhile_eq_nil here ended]
    exact ⟨[], rfl, rfl⟩
  | case2 rest c tail atTerm absent =>
    rw [scanFrom_of_dropWhile_eq_cons here atTerm, if_pos absent]
    exact ⟨[], rfl, rfl⟩
  | case3 rest c tail atTerm present ih =>
    have atStart := here.passed isSeparator
    rw [atTerm, ← text_cut_append (c :: tail)] at atStart
    obtain ⟨terms, slices, split⟩ := ih atStart.behind
    rw [scanFrom_of_dropWhile_eq_cons here atTerm]
    dsimp only
    rw [if_neg present]
    refine ⟨(cut (c :: tail)).1 :: terms, ?_, ?_⟩
    · rw [Scan.cons, List.mapM_cons, atStart.slice?_eq, slices]
      rfl
    · rw [split, Scan.cons]
      dsimp only
      split <;> rfl

end

/-- No slice is taken off the boundaries of characters, not even in front of a fault. -/
theorem isValid_of_mem_scan (text : String) : ∀ span ∈ (scan text).spans,
    String.Pos.Raw.IsValid text ⟨span.start⟩ ∧ String.Pos.Raw.IsValid text ⟨span.stop⟩ := by
  intro span member
  obtain ⟨terms, slices, _⟩ := exists_terms_of_scanFrom (isAt_zero text)
  obtain ⟨piece, _, sliced⟩ := exists_of_forall₂ (mapM_eq_some_iff.mp slices) span member
  exact isValid_of_slice? sliced

/-- A text as separators and terms in turn: each term is listed with the separators behind it, of
which only those behind the last term may be missing. -/
structure IsLaidOut (text leading : List Char) (rows : List (Term × List Char)) : Prop where
  separators : leading.all isSeparator
  written : ∀ row ∈ rows, row.1.IsWritten
  behind : ∀ row ∈ rows, row.2.all isSeparator
  between : ∀ row ∈ rows.dropLast, row.2 ≠ []
  whole : text = leading ++ rows.flatMap fun row => row.1.text ++ row.2

theorem IsLaidOut.leading_ne_nil {text leading : List Char} {row : Term × List Char}
    {rows : List (Term × List Char)} (layout : IsLaidOut text leading (row :: rows))
    (starts : ∀ c ∈ text.head?, isSeparator c) : leading ≠ [] := by
  rintro rfl
  have written := layout.written row (List.mem_cons_self ..)
  rw [layout.whole, List.nil_append, List.flatMap_cons, List.append_assoc] at starts
  obtain ⟨c, tail, start⟩ := List.exists_cons_of_ne_nil written.text_ne_nil
  have first (others : List Char) : c ∈ (row.1.text ++ others).head? := by
    rw [start]
    rfl
  have separator := starts c (first _)
  rw [written.starts c (first [])] at separator
  contradiction

theorem Splits.exists_isLaidOut {text : List Char} {terms : List Term} (splits : Splits text terms) :
    ∃ leading rows, rows.map Prod.fst = terms ∧ IsLaidOut text leading rows := by
  induction splits with
  | @done text separators =>
    refine ⟨text, [], rfl, separators, ?_, ?_, ?_, ?_⟩ <;> simp
  | @term leading rest term terms separators written ends others ih =>
    obtain ⟨behind, rows, rfl, layout⟩ := ih
    refine ⟨leading, (term, behind) :: rows, rfl, separators,
      List.forall_mem_cons.mpr ⟨written, layout.written⟩,
      List.forall_mem_cons.mpr ⟨layout.separators, layout.behind⟩, ?_, ?_⟩
    · cases rows with
      | nil => simp
      | cons next rows => exact List.forall_mem_cons.mpr ⟨layout.leading_ne_nil ends, layout.between⟩
    · rw [List.flatMap_cons, layout.whole, List.append_assoc]

theorem IsLaidOut.splits {text leading : List Char} {rows : List (Term × List Char)}
    (layout : IsLaidOut text leading rows) : Splits text (rows.map Prod.fst) := by
  induction rows generalizing text leading with
  | nil =>
    have whole := layout.whole
    rw [List.flatMap_nil, List.append_nil] at whole
    rw [whole]
    exact .done layout.separators
  | cons row rows ih =>
    obtain ⟨separators, written, behind, between, whole⟩ := layout
    rw [List.forall_mem_cons] at written behind
    -- the separators behind the first term lead the layout of the rest
    have others : IsLaidOut (row.2 ++ rows.flatMap fun row => row.1.text ++ row.2) row.2 rows := by
      refine ⟨behind.1, written.2, behind.2, ?_, rfl⟩
      intro other member
      cases rows with
      | nil => contradiction
      | cons next rows => exact between other (List.mem_cons_of_mem row member)
    rw [whole, List.flatMap_cons, List.append_assoc]
    refine .term separators written.1 ?_ (ih others)
    intro c first
    cases rows with
    | nil =>
      rw [List.flatMap_nil, List.append_nil] at first
      exact List.all_eq_true.mp behind.1 c (List.mem_of_mem_head? first)
    | cons next rows =>
      have filled : row.2 ≠ [] := between row (List.mem_cons_self ..)
      exact head?_append_of_all filled behind.1 c first

theorem splitAll?_eq_some_iff_isLaidOut {text : List Char} {terms : List Term} :
    splitAll? text = some terms ↔
      ∃ leading rows, rows.map Prod.fst = terms ∧ IsLaidOut text leading rows := by
  rw [splitAll?_eq_some_iff]
  constructor
  · exact Splits.exists_isLaidOut
  · rintro ⟨leading, rows, rfl, layout⟩
    exact layout.splits

end VersionRange.Term
