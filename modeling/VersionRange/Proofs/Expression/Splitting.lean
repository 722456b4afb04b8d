import VersionRange.Proofs.Expression.Term

/-! Splitting a group.

A group splits into the terms that it is laid out from: written terms one behind
the other, with separators in front of each, behind the last, and between any two.
A comma ends whatever stands in front of it, so splitting goes on behind it as at
the start of a text. A group does not split if an operator in it has no target.
-/

set_option autoImplicit false

namespace VersionRange

namespace Text

variable {inside : Char → Bool} {c : Char}

theorem takeWhile_stop (stops : inside c = false) (front rest : List Char) :
    (front ++ c :: rest).takeWhile inside = front.takeWhile inside := by
  induction front with
  | nil => rw [List.nil_append, List.takeWhile_cons_of_neg (by simp [stops]), List.takeWhile_nil]
  | cons d front ih =>
    rw [List.cons_append, List.takeWhile_cons, List.takeWhile_cons, ih]

theorem dropWhile_stop (stops : inside c = false) (front rest : List Char) :
    (front ++ c :: rest).dropWhile inside = front.dropWhile inside ++ c :: rest := by
  induction front with
  | nil => rw [List.nil_append, List.dropWhile_cons_of_neg (by simp [stops]), List.dropWhile_nil,
      List.nil_append]
  | cons d front ih =>
    rw [List.cons_append, List.dropWhile_cons, List.dropWhile_cons, ih]
    split <;> rfl

theorem stops_of_dropWhile {text rest : List Char} (dropped : text.dropWhile inside = rest) :
    ∀ c ∈ rest.head?, inside c = false := by
  intro c first
  have stops := List.head?_dropWhile_not inside text
  rw [dropped, Option.mem_def.mp first] at stops
  simpa using stops

theorem dropWhile_of_takeWhile_eq_nil {text : List Char} (none : text.takeWhile inside = []) :
    text.dropWhile inside = text := by
  have whole := List.takeWhile_append_dropWhile (p := inside) (l := text)
  rwa [none, List.nil_append] at whole

end Text

namespace Term

inductive Splits : List Char → List Term → Prop where
  | done {text : List Char} (separators : text.all isSeparator) : Splits text []
  | term {leading rest : List Char} {term : Term} {terms : List Term}
      (separators : leading.all isSeparator) (written : term.IsWritten)
      (ends : ∀ c ∈ rest.head?, isSeparator c) (others : Splits rest terms) :
      Splits (leading ++ (term.text ++ rest)) (term :: terms)

theorem not_isAsciiBlank_of_solid {c : Char} (solid : isSeparator c = false) :
    Text.isAsciiBlank c = false := by
  rw [isSeparator, Bool.or_eq_false_iff] at solid
  exact solid.1

/-- What is cut off in front of a separator or the end is a written term, unless it has no target. -/
theorem isWritten_cut {c : Char} {rest : List Char} (start : isSeparator c = false)
    (present : (cut (c :: rest)).1.target ≠ []) : (cut (c :: rest)).1.IsWritten where
  operator := List.all_takeWhile
  gap := List.all_takeWhile
  nonempty := present
  target := List.all_takeWhile
  gapless := by
    intro implicit
    have solid := not_isAsciiBlank_of_solid start
    rw [cut]
    dsimp only
    rw [Text.dropWhile_of_takeWhile_eq_nil implicit, List.takeWhile_cons_of_neg (by simp [solid])]
  unspelled := by
    intro gapless first begins
    rw [cut] at begins
    dsimp only at begins
    rw [Text.dropWhile_of_takeWhile_eq_nil gapless] at begins
    -- the target begins where the operator ends
    have front : (((c :: rest).dropWhile isOperatorChar).takeWhile fun c => !isSeparator c) <+:
        (c :: rest).dropWhile isOperatorChar := List.takeWhile_prefix _
    obtain ⟨behind, whole⟩ := front
    apply Text.stops_of_dropWhile rfl first
    rw [← whole, List.head?_append, Option.mem_def.mp begins]
    rfl

theorem ends_cut (text : List Char) : ∀ c ∈ (cut text).2.head?, isSeparator c := by
  intro c first
  simpa using Text.stops_of_dropWhile rfl c first

theorem separators_append_cut {text : List Char} {c : Char} {rest : List Char}
    (dropped : text.dropWhile isSeparator = c :: rest) :
    text.takeWhile isSeparator ++ ((cut (c :: rest)).1.text ++ (cut (c :: rest)).2) = text := by
  have whole := List.takeWhile_append_dropWhile (p := isSeparator) (l := text)
  rwa [dropped, ← text_cut_append (c :: rest)] at whole

theorem splits_of_splitAll? {text : List Char} {terms : List Term}
    (split : splitAll? text = some terms) : Splits text terms := by
  fun_induction splitAll? text generalizing terms with
  | case1 text dropped =>
    cases split
    apply Splits.done
    have whole := List.takeWhile_append_dropWhile (p := isSeparator) (l := text)
    rw [dropped, List.append_nil] at whole
    rw [← whole]
    exact List.all_takeWhile
  | case2 text c rest dropped absent => contradiction
  | case3 text c rest dropped present ih =>
    obtain ⟨others, restSplit, rfl⟩ := Option.map_eq_some_iff.mp split
    have start : isSeparator c = false := Text.stops_of_dropWhile dropped c rfl
    rw [← separators_append_cut dropped]
    exact .term List.all_takeWhile (isWritten_cut start present) (ends_cut _) (ih restSplit)

theorem splitAll?_eq_some_iff {text : List Char} {terms : List Term} :
    splitAll? text = some terms ↔ Splits text terms := by
  constructor
  · exact splits_of_splitAll?
  · intro splits
    induction splits with
    | done separators => exact splitAll?_separators separators
    | term separators written ends others ih =>
      rw [splitAll?_text_append separators written ends, ih]
      rfl

theorem Splits.isWritten {text : List Char} {terms : List Term} (splits : Splits text terms) :
    ∀ term ∈ terms, term.IsWritten := by
  induction splits with
  | done separators => simp
  | term separators written ends others ih => simpa using ⟨written, ih⟩

theorem Splits.exists_mem_text {text : List Char} {terms : List Term} (splits : Splits text terms)
    {c : Char} (member : c ∈ text) (solid : isSeparator c = false) : ∃ term ∈ terms, c ∈ term.text := by
  have outside {separators : List Char} (all : separators.all isSeparator) : c ∉ separators :=
    Text.not_mem_of_all all solid
  induction splits with
  | done separators => exact absurd member (outside separators)
  | @term leading rest term terms separators written ends others ih =>
    simp only [List.mem_append, outside separators, false_or] at member
    rcases member with here | further
    · exact ⟨term, List.mem_cons_self .., here⟩
    · obtain ⟨other, inside, found⟩ := ih further
      exact ⟨other, List.mem_cons_of_mem term inside, found⟩

theorem splits_intercalate {terms : List Term} (written : ∀ term ∈ terms, term.IsWritten)
    (leading : List Char) (separators : leading.all isSeparator) :
    Splits (leading ++ [',', ' '].intercalate (terms.map text)) terms := by
  induction terms generalizing leading with
  | nil => exact .done (by simpa using separators)
  | cons term terms ih =>
    have first := written term (List.mem_cons_self ..)
    have others := fun other member => written other (List.mem_cons_of_mem term member)
    cases terms with
    | nil =>
      have alone : Splits (leading ++ (term.text ++ [])) [term] :=
        .term separators first (by simp) (.done rfl)
      simpa using alone
    | cons next rest =>
      rw [List.map_cons, List.map_cons, List.intercalate_cons_cons, List.append_assoc]
      refine .term separators first ?_ (ih others [',', ' '] (by decide))
      intro c start
      cases start
      decide

theorem cut_comma (text rest : List Char) :
    cut (text ++ ',' :: rest) = ((cut text).1, (cut text).2 ++ ',' :: rest) := by
  have operator : isOperatorChar ',' = false := by decide
  have gap : Text.isAsciiBlank ',' = false := by decide
  have target : (!isSeparator ',') = false := by decide
  -- all three runs stop at a comma
  simp only [cut, Text.takeWhile_stop operator, Text.dropWhile_stop operator,
    Text.takeWhile_stop gap, Text.dropWhile_stop gap,
    @Text.takeWhile_stop (fun c => !isSeparator c) _ target,
    @Text.dropWhile_stop (fun c => !isSeparator c) _ target]

theorem splitAll?_of_dropWhile_eq_nil {text : List Char}
    (ended : text.dropWhile isSeparator = []) : splitAll? text = some [] := by
  rw [splitAll?]
  split
  · rfl
  · next found =>
    rw [ended] at found
    contradiction

theorem splitAll?_of_dropWhile_eq_cons {text rest : List Char} {c : Char}
    (atTerm : text.dropWhile isSeparator = c :: rest) :
    splitAll? text = if (cut (c :: rest)).1.target = [] then none
      else (splitAll? (cut (c :: rest)).2).map ((cut (c :: rest)).1 :: ·) := by
  rw [splitAll?]
  split
  · next ended =>
    rw [atTerm] at ended
    contradiction
  · next found =>
    rw [atTerm] at found
    cases found
    rfl

theorem splitAll?_of_dropWhile {a b : List Char}
    (same : a.dropWhile isSeparator = b.dropWhile isSeparator) : splitAll? a = splitAll? b := by
  cases found : b.dropWhile isSeparator with
  | nil =>
    rw [splitAll?_of_dropWhile_eq_nil found, splitAll?_of_dropWhile_eq_nil (same.trans found)]
  | cons c rest =>
    rw [splitAll?_of_dropWhile_eq_cons found, splitAll?_of_dropWhile_eq_cons (same.trans found)]

theorem splitAll?_comma (text rest : List Char) :
    splitAll? (text ++ ',' :: rest) =
      (splitAll? text).bind fun terms => (splitAll? rest).map (terms ++ ·) := by
  have comma : isSeparator ',' := by decide
  fun_induction splitAll? text with
  | case1 text dropped =>
    -- separators in front of the comma go the same way as it
    have onward : (text ++ ',' :: rest).dropWhile isSeparator = rest.dropWhile isSeparator := by
      rw [List.dropWhile_append, dropped, List.isEmpty_nil, if_pos rfl,
        List.dropWhile_cons_of_pos comma]
    rw [splitAll?_of_dropWhile onward]
    simp
  | case2 text c tail dropped absent =>
    have onward : (text ++ ',' :: rest).dropWhile isSeparator = c :: (tail ++ ',' :: rest) := by
      rw [List.dropWhile_append, dropped]
      rfl
    rw [splitAll?_of_dropWhile_eq_cons onward, ← List.cons_append, cut_comma, if_pos absent]
    rfl
  | case3 text c tail dropped present ih =>
    have onward : (text ++ ',' :: rest).dropWhile isSeparator = c :: (tail ++ ',' :: rest) := by
      rw [List.dropWhile_append, dropped]
      rfl
    rw [splitAll?_of_dropWhile_eq_cons onward, ← List.cons_append, cut_comma, if_neg present, ih]
    cases splitAll? (cut (c :: tail)).2 with
    | none => rfl
    | some terms => cases splitAll? rest <;> rfl

theorem splits_comma_iff {text rest : List Char} {terms : List Term} :
    Splits (text ++ ',' :: rest) terms ↔
      ∃ front back, Splits text front ∧ Splits rest back ∧ terms = front ++ back := by
  simp only [← splitAll?_eq_some_iff, splitAll?_comma, Option.bind_eq_some_iff,
    Option.map_eq_some_iff]
  constructor
  · rintro ⟨front, left, back, right, rfl⟩
    exact ⟨front, back, left, right, rfl⟩
  · rintro ⟨front, back, left, right, rfl⟩
    exact ⟨front, left, back, right, rfl⟩

/-- A text in which the scanner comes to an operator that blanks and then a comma or the end of the
text follow. -/
inductive Lacks : List Char → Prop where
  | here {leading operator gap rest : List Char} (separators : leading.all isSeparator)
      (nonempty : operator ≠ []) (spelled : operator.all isOperatorChar)
      (blank : gap.all Text.isAsciiBlank) (ends : ∀ c ∈ rest.head?, c = ',') :
      Lacks (leading ++ (operator ++ (gap ++ rest)))
  | behind {leading rest : List Char} {term : Term} (separators : leading.all isSeparator)
      (written : term.IsWritten) (ends : ∀ c ∈ rest.head?, isSeparator c) (others : Lacks rest) :
      Lacks (leading ++ (term.text ++ rest))

theorem cut_target_eq_nil {operator gap rest : List Char} (spelled : operator.all isOperatorChar)
    (blank : gap.all Text.isAsciiBlank) (ends : ∀ c ∈ rest.head?, c = ',') :
    (cut (operator ++ (gap ++ rest))).1.target = [] := by
  have comma {c : Char} {inside : Char → Bool} (stops : inside ',' = false) (first : c ∈ rest.head?) :
      inside c = false := ends c first ▸ stops
  have operatorEnds : ∀ c ∈ (gap ++ rest).head?, isOperatorChar c = false := by
    by_cases gapless : gap = []
    · rw [gapless]
      exact fun c first => comma rfl first
    · intro c first
      exact isOperatorChar_of_isAsciiBlank (Text.head?_append_of_all gapless blank c first)
  have target : rest.takeWhile (fun c => !isSeparator c) = [] := by
    cases rest with
    | nil => rfl
    | cons c rest =>
      cases ends c rfl
      rfl
  unfold cut
  dsimp only
  rw [Text.dropWhile_run spelled operatorEnds, Text.dropWhile_run blank fun c => comma rfl, target]

theorem lacks_of_target_eq_nil {leading rest : List Char} {c : Char}
    (separators : leading.all isSeparator) (start : isSeparator c = false)
    (absent : (cut (c :: rest)).1.target = []) : Lacks (leading ++ c :: rest) := by
  have solid := not_isAsciiBlank_of_solid start
  have whole : (c :: rest).takeWhile isOperatorChar ++
      (((c :: rest).dropWhile isOperatorChar).takeWhile Text.isAsciiBlank ++
        ((c :: rest).dropWhile isOperatorChar).dropWhile Text.isAsciiBlank) = c :: rest := by
    simp only [List.takeWhile_append_dropWhile]
  rw [cut] at absent
  dsimp only at absent
  rw [← whole]
  refine .here separators ?_ List.all_takeWhile List.all_takeWhile ?_
  · -- otherwise the text begins with a target
    intro implicit
    rw [Text.dropWhile_of_takeWhile_eq_nil implicit, List.dropWhile_cons_of_neg (by simp [solid]),
      List.takeWhile_cons_of_pos (by simp [start])] at absent
    contradiction
  · intro d first
    have stops : Text.isAsciiBlank d = false := Text.stops_of_dropWhile rfl d first
    have apart : (!isSeparator d) = false :=
      Text.stops_of_dropWhile (Text.dropWhile_of_takeWhile_eq_nil absent) d first
    simpa [isSeparator, stops] using apart

theorem splitAll?_eq_none_iff {text : List Char} : splitAll? text = none ↔ Lacks text := by
  constructor
  · intro unsplit
    -- the scan ends at this term, or at one behind it
    fun_induction splitAll? text with
    | case1 text dropped => contradiction
    | case2 text c rest dropped absent =>
      have start : isSeparator c = false := Text.stops_of_dropWhile dropped c rfl
      have whole := List.takeWhile_append_dropWhile (p := isSeparator) (l := text)
      rw [dropped] at whole
      rw [← whole]
      exact lacks_of_target_eq_nil List.all_takeWhile start absent
    | case3 text c rest dropped present ih =>
      have start : isSeparator c = false := Text.stops_of_dropWhile dropped c rfl
      rw [← separators_append_cut dropped]
      exact .behind List.all_takeWhile (isWritten_cut start present) (ends_cut _)
        (ih (Option.map_eq_none_iff.mp unsplit))
  · intro lacks
    induction lacks with
    | @here leading operator gap rest separators nonempty spelled blank ends =>
      have starts : ∀ c ∈ (operator ++ (gap ++ rest)).head?, isSeparator c = false := fun c first =>
        isSeparator_of_isOperatorChar (Text.head?_append_of_all nonempty spelled c first)
      have dropped := Text.dropWhile_run separators starts
      have absent := cut_target_eq_nil spelled blank ends
      obtain ⟨c, tail, same⟩ := List.exists_cons_of_ne_nil
        (List.append_ne_nil_of_left_ne_nil nonempty (gap ++ rest))
      rw [same] at dropped absent
      rw [same, splitAll?_of_dropWhile_eq_cons dropped, if_pos absent]
    | behind separators written ends others ih =>
      rw [splitAll?_text_append separators written ends, ih]
      rfl

theorem ne_nil_of_splitAll? {text : List Char} (terms : splitAll? text ≠ some []) : text ≠ [] := by
  rintro rfl
  exact terms (splitAll?_separators rfl)

end Term

end VersionRange
