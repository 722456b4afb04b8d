import VersionRange.Proofs.Expression.Reading

/-! Expressions put together.

Double bars between two expressions join their groups, and a comma between two
groups joins their terms. A single bar at an edge could pair up with a double bar
next to it; but no piece that is read holds a bar or is empty, so where either the
whole or the two parts are read none pairs up.
-/

set_option autoImplicit false

namespace VersionRange

namespace Expression

theorem splitBars_cons {c : Char} {rest : List Char}
    (single : c = '|' → ∀ tail, rest ≠ '|' :: tail) :
    splitBars (c :: rest) = (splitBars rest).modifyHead (c :: ·) := by
  rw [splitBars]
  intro tail bar double
  exact single bar tail double

theorem exists_splitBars_eq_cons (text : List Char) :
    ∃ piece pieces, splitBars text = piece :: pieces := by
  fun_induction splitBars text with
  | case1 => exact ⟨[], [], rfl⟩
  | case2 rest ih => exact ⟨[], splitBars rest, rfl⟩
  | case3 c rest single ih =>
    obtain ⟨piece, pieces, found⟩ := ih
    exact ⟨c :: piece, pieces, by rw [found]; rfl⟩

/-- Whether a bar is left over in a piece, or a piece behind the first is empty. -/
def IsMarred (pieces : List (List Char)) : Prop :=
  (∃ piece ∈ pieces, '|' ∈ piece) ∨ [] ∈ pieces.tail

theorem IsMarred.cons {pieces : List (List Char)} (marred : IsMarred pieces) (piece : List Char) :
    IsMarred (piece :: pieces) := by
  rcases marred with ⟨barred, member, bar⟩ | empty
  · exact .inl ⟨barred, List.mem_cons_of_mem piece member, bar⟩
  · exact .inr (List.mem_of_mem_tail empty)

theorem IsMarred.modifyHead {pieces : List (List Char)} (marred : IsMarred pieces) (c : Char) :
    IsMarred (pieces.modifyHead (c :: ·)) := by
  cases pieces with
  | nil => exact marred
  | cons first others =>
    rcases marred with ⟨barred, member, bar⟩ | empty
    · rcases List.mem_cons.mp member with rfl | member
      · exact .inl ⟨c :: barred, List.mem_cons_self .., List.mem_cons_of_mem c bar⟩
      · exact .inl ⟨barred, List.mem_cons_of_mem _ member, bar⟩
    · exact .inr empty

theorem isMarred_of_single {rest : List Char} (single : ∀ tail, rest ≠ '|' :: tail) :
    IsMarred (splitBars ('|' :: rest)) := by
  obtain ⟨piece, pieces, found⟩ := exists_splitBars_eq_cons rest
  rw [splitBars_cons fun _ => single, found]
  exact .inl ⟨'|' :: piece, List.mem_cons_self .., List.mem_cons_self ..⟩

/-- Of three bars the last is left over, or has nothing in front of a double bar. -/
theorem isMarred_of_triple (rest : List Char) : IsMarred (splitBars ('|' :: '|' :: '|' :: rest)) := by
  change IsMarred ([] :: splitBars ('|' :: rest))
  by_cases double : ∃ tail, rest = '|' :: tail
  · obtain ⟨tail, rfl⟩ := double
    exact .inr (List.mem_cons_self ..)
  · exact (isMarred_of_single fun tail same => double ⟨tail, same⟩).cons []

/-- The pieces around double bars are those of the two sides, unless a single bar in front of them
mars the pieces of that side and of the whole. -/
theorem splitBars_append (first second : List Char) :
    splitBars (first ++ '|' :: '|' :: second) = splitBars first ++ splitBars second ∨
      IsMarred (splitBars first) ∧ IsMarred (splitBars (first ++ '|' :: '|' :: second)) := by
  fun_induction splitBars first with
  | case1 => exact .inl rfl
  | case2 rest ih =>
    change [] :: splitBars (rest ++ '|' :: '|' :: second) = [] :: (splitBars rest ++ _) ∨
      _ ∧ IsMarred ([] :: splitBars (rest ++ '|' :: '|' :: second))
    rcases ih with same | ⟨left, whole⟩
    · exact .inl (congrArg ([] :: ·) same)
    · exact .inr ⟨left.cons [], whole.cons []⟩
  | case3 c rest single ih =>
    have alone : c = '|' → ∀ tail, rest ≠ '|' :: tail := fun bar tail => single tail bar
    by_cases bar : c = '|'
    · subst bar
      -- left over on its own side, this bar may pair up with the double bar in the whole
      refine .inr ⟨?_, ?_⟩
      · rw [← splitBars_cons alone]
        exact isMarred_of_single (alone rfl)
      · cases rest with
        | nil => exact isMarred_of_triple second
        | cons d rest =>
          apply isMarred_of_single
          rintro tail same
          cases same
          exact alone rfl rest rfl
    · rw [List.cons_append, splitBars_cons fun same => absurd same bar]
      rcases ih with same | ⟨left, whole⟩
      · obtain ⟨piece, pieces, found⟩ := exists_splitBars_eq_cons rest
        rw [same, found]
        exact .inl rfl
      · exact .inr ⟨left.modifyHead c, whole.modifyHead c⟩

variable {padding : Padding}

theorem not_isMarred {text : List Char} {groups : List (List Constraint)}
    (read : List.Forall₂ (IsGroup padding) (pieces text) groups) : ¬IsMarred (splitBars text) := by
  have trimmed : ∀ piece ∈ splitBars text, '|' ∉ Text.trim piece ∧ Text.trim piece ≠ [] := by
    intro piece member
    obtain ⟨group, _, found⟩ := exists_of_forall₂ read _ (List.mem_map_of_mem member)
    exact ⟨found.bar_not_mem, found.1⟩
  rintro (⟨piece, member, bar⟩ | empty)
  · exact (trimmed piece member).1 (Text.mem_trim bar (by decide))
  · exact (trimmed [] (List.mem_of_mem_tail empty)).2 rfl

theorem pieces_append {first second : List Char}
    (sound : ¬IsMarred (splitBars first) ∨ ¬IsMarred (splitBars (first ++ '|' :: '|' :: second))) :
    pieces (first ++ '|' :: '|' :: second) = pieces first ++ pieces second := by
  rcases splitBars_append first second with same | ⟨left, whole⟩
  · rw [pieces, same, List.map_append, pieces, pieces]
  · rcases sound with sound | sound
    · exact absurd left sound
    · exact absurd whole sound

theorem pieces_ne_nil (text : List Char) : pieces text ≠ [] := by
  obtain ⟨piece, others, found⟩ := exists_splitBars_eq_cons text
  simp [pieces, found]

theorem pieces_of_not_mem {text : List Char} (bare : '|' ∉ text) :
    pieces text = [Text.trim text] := by
  rw [pieces, splitBars_of_not_mem bare, List.map_singleton]

theorem forall₂_isGroup_bars {first second : List Char} {groups : List (List Constraint)} :
    List.Forall₂ (IsGroup padding) (pieces (first ++ '|' :: '|' :: second)) groups ↔
      ∃ front back, List.Forall₂ (IsGroup padding) (pieces first) front ∧
        List.Forall₂ (IsGroup padding) (pieces second) back ∧ groups = front ++ back := by
  constructor
  · intro read
    rw [pieces_append (.inr (not_isMarred read))] at read
    exact forall₂_append_iff.mp read
  · rintro ⟨front, back, left, right, same⟩
    rw [pieces_append (.inl (not_isMarred left))]
    exact forall₂_append_iff.mpr ⟨front, back, left, right, same⟩

theorem isGroup_comma {first second : List Char} (leftFilled : first ≠ []) (rightFilled : second ≠ [])
    {group : List Constraint} : IsGroup padding (first ++ ',' :: second) group ↔
      ∃ front back, IsGroup padding first front ∧ IsGroup padding second back ∧
        group = front ++ back := by
  constructor
  · rintro ⟨_, terms, splits, read⟩
    obtain ⟨left, right, leftSplits, rightSplits, rfl⟩ := Term.splits_comma_iff.mp splits
    obtain ⟨front, back, frontRead, backRead, rfl⟩ := forall₂_append_iff.mp read
    exact ⟨front, back, ⟨leftFilled, left, leftSplits, frontRead⟩,
      ⟨rightFilled, right, rightSplits, backRead⟩, rfl⟩
  · rintro ⟨front, back, ⟨_, left, leftSplits, frontRead⟩, ⟨_, right, rightSplits, backRead⟩, rfl⟩
    refine ⟨by simp, left ++ right, ?_, ?_⟩
    · exact Term.splits_comma_iff.mpr ⟨left, right, leftSplits, rightSplits, rfl⟩
    · exact forall₂_append_iff.mpr ⟨front, back, frontRead, backRead, rfl⟩

theorem parse_eq_ok_iff_group {text : String} {expression : Expression}
    (filled : Text.trim text.toList ≠ []) (bare : '|' ∉ text.toList)
    (trimmed : Text.trim text.toList = text.toList) : parse padding text = .ok expression ↔
      ∃ group, IsGroup padding text.toList group ∧ expression = ⟨[group], padding, text⟩ := by
  have alone : pieces text.toList = [text.toList] := by
    rw [pieces_of_not_mem bare, trimmed]
  rw [parse_eq_ok_iff filled, alone]
  constructor
  · rintro ⟨read, same⟩
    obtain ⟨group, others, found, rest, groups⟩ := List.forall₂_cons_left_iff.mp read
    rw [List.forall₂_nil_left_iff.mp rest] at groups
    rw [groups] at same
    exact ⟨group, found, same⟩
  · rintro ⟨group, found, rfl⟩
    exact ⟨.cons found .nil, rfl⟩

theorem exists_group {text : String} {expression : Expression}
    (filled : Text.trim text.toList ≠ []) (bare : '|' ∉ text.toList)
    (trimmed : Text.trim text.toList = text.toList) (read : parse padding text = .ok expression) :
    ∃ group, expression = ⟨[group], padding, text⟩ := by
  obtain ⟨group, _, same⟩ := (parse_eq_ok_iff_group filled bare trimmed).mp read
  exact ⟨group, same⟩

theorem groups_ne_nil {text : String} {expression : Expression}
    (read : parse padding text = .ok expression) : expression.groups ≠ [] := by
  by_cases blank : Text.trim text.toList = []
  · rw [parse_of_blank blank] at read
    cases read
    simp
  · obtain ⟨groups, _⟩ := (parse_eq_ok_iff blank).mp read
    intro none
    rw [none] at groups
    exact pieces_ne_nil text.toList (List.forall₂_nil_right_iff.mp groups)

section

variable {first second : String} {whole : Expression}

theorem parse_bars (leftFilled : Text.trim first.toList ≠ [])
    (rightFilled : Text.trim second.toList ≠ []) :
    parse padding (first ++ "||" ++ second) = .ok whole ↔
      ∃ left right, parse padding first = .ok left ∧ parse padding second = .ok right ∧
        whole = ⟨left.groups ++ right.groups, padding, first ++ "||" ++ second⟩ := by
  have layout : (first ++ "||" ++ second).toList = first.toList ++ '|' :: '|' :: second.toList := by
    simp
  have wholeFilled : Text.trim (first ++ "||" ++ second).toList ≠ [] := by
    have bar : '|' ∈ (first ++ "||" ++ second).toList := by simp
    exact List.ne_nil_of_mem (Text.mem_trim bar (by decide))
  rw [parse_eq_ok_iff wholeFilled, layout, forall₂_isGroup_bars]
  constructor
  · rintro ⟨⟨front, back, left, right, groups⟩, same⟩
    rw [groups] at same
    exact ⟨⟨front, padding, first⟩, ⟨back, padding, second⟩,
      (parse_eq_ok_iff leftFilled).mpr ⟨left, rfl⟩, (parse_eq_ok_iff rightFilled).mpr ⟨right, rfl⟩,
      same⟩
  · rintro ⟨left, right, leftRead, rightRead, rfl⟩
    have front := ((parse_eq_ok_iff leftFilled).mp leftRead).1
    have back := ((parse_eq_ok_iff rightFilled).mp rightRead).1
    exact ⟨⟨left.groups, right.groups, front, back, rfl⟩, rfl⟩

theorem parse_comma (leftFilled : Text.trim first.toList ≠ [])
    (rightFilled : Text.trim second.toList ≠ []) (leftBare : '|' ∉ first.toList)
    (rightBare : '|' ∉ second.toList) (leftTrimmed : Text.trim first.toList = first.toList)
    (rightTrimmed : Text.trim second.toList = second.toList) :
    parse padding (first ++ "," ++ second) = .ok whole ↔
      ∃ front back, parse padding first = .ok ⟨[front], padding, first⟩ ∧
        parse padding second = .ok ⟨[back], padding, second⟩ ∧
        whole = ⟨[front ++ back], padding, first ++ "," ++ second⟩ := by
  have leftSome : first.toList ≠ [] := leftTrimmed ▸ leftFilled
  have rightSome : second.toList ≠ [] := rightTrimmed ▸ rightFilled
  have layout : (first ++ "," ++ second).toList = first.toList ++ ',' :: second.toList := by simp
  have wholeBare : '|' ∉ (first ++ "," ++ second).toList := by simp [leftBare, rightBare]
  have wholeTrimmed :
      Text.trim (first ++ "," ++ second).toList = (first ++ "," ++ second).toList := by
    rw [layout]
    exact Text.trim_between [','] leftSome rightSome leftTrimmed rightTrimmed
  have wholeFilled : Text.trim (first ++ "," ++ second).toList ≠ [] := by
    rw [wholeTrimmed, layout]
    simp
  rw [parse_eq_ok_iff_group wholeFilled wholeBare wholeTrimmed, layout]
  simp only [isGroup_comma leftSome rightSome, parse_eq_ok_iff_group leftFilled leftBare leftTrimmed,
    parse_eq_ok_iff_group rightFilled rightBare rightTrimmed]
  constructor
  · rintro ⟨group, ⟨front, back, left, right, rfl⟩, rfl⟩
    exact ⟨front, back, ⟨front, left, rfl⟩, ⟨back, right, rfl⟩, rfl⟩
  · rintro ⟨front, back, ⟨_, left, frontSame⟩, ⟨_, right, backSame⟩, rfl⟩
    cases frontSame
    cases backSame
    exact ⟨front ++ back, ⟨front, back, left, right, rfl⟩, rfl⟩

end

theorem admits_append {left right : Expression} (leftFilled : left.groups ≠ [])
    (rightFilled : right.groups ≠ []) (text : String) (version : Version) :
    (Expression.mk (left.groups ++ right.groups) padding text).admits version =
      (left.admits version || right.admits version) := by
  have some : (left.groups ++ right.groups).isEmpty = false := by simp [leftFilled]
  have leftSome : left.groups.isEmpty = false := by simpa using leftFilled
  have rightSome : right.groups.isEmpty = false := by simpa using rightFilled
  simp only [admits, some, leftSome, rightSome, Bool.false_or, List.any_append]

theorem admits_group_append (first second : List Constraint) (text front back : String)
    (version : Version) :
    (Expression.mk [first ++ second] padding text).admits version =
      ((Expression.mk [first] padding front).admits version &&
        (Expression.mk [second] padding back).admits version) := by
  simp [admits]

/-- Double bars between two texts that are not blank join what the two are read as, with nothing
read that the two sides would not be read as on their own. So does a comma within a group. -/
theorem parse_composes (padding : Padding) {first second : String}
    (leftFilled : Text.trim first.toList ≠ []) (rightFilled : Text.trim second.toList ≠ []) :
    (((∃ whole, parse padding (first ++ "||" ++ second) = .ok whole) ↔
        (∃ left, parse padding first = .ok left) ∧ ∃ right, parse padding second = .ok right) ∧
      ∀ whole left right, parse padding (first ++ "||" ++ second) = .ok whole →
        parse padding first = .ok left → parse padding second = .ok right →
        whole.groups = left.groups ++ right.groups ∧
        ∀ version, whole.admits version = (left.admits version || right.admits version)) ∧
    ('|' ∉ first.toList → '|' ∉ second.toList →
      Text.trim first.toList = first.toList → Text.trim second.toList = second.toList →
      ((∃ whole, parse padding (first ++ "," ++ second) = .ok whole) ↔
        (∃ left, parse padding first = .ok left) ∧ ∃ right, parse padding second = .ok right) ∧
      ∀ whole left right, parse padding (first ++ "," ++ second) = .ok whole →
        parse padding first = .ok left → parse padding second = .ok right →
        (∃ front back, left.groups = [front] ∧ right.groups = [back] ∧
          whole.groups = [front ++ back]) ∧
        ∀ version, whole.admits version = (left.admits version && right.admits version)) := by
  refine ⟨⟨?_, ?_⟩, ?_⟩
  · constructor
    · rintro ⟨whole, read⟩
      obtain ⟨left, right, leftRead, rightRead, _⟩ := (parse_bars leftFilled rightFilled).mp read
      exact ⟨⟨left, leftRead⟩, right, rightRead⟩
    · rintro ⟨⟨left, leftRead⟩, right, rightRead⟩
      exact ⟨_, (parse_bars leftFilled rightFilled).mpr ⟨left, right, leftRead, rightRead, rfl⟩⟩
  · intro whole left right read leftRead rightRead
    have joined := (parse_bars leftFilled rightFilled).mpr ⟨left, right, leftRead, rightRead, rfl⟩
    rw [joined] at read
    cases read
    exact ⟨rfl, admits_append (groups_ne_nil leftRead) (groups_ne_nil rightRead) _⟩
  · intro leftBare rightBare leftTrimmed rightTrimmed
    have join {whole : Expression} :=
      @parse_comma padding _ _ whole leftFilled rightFilled leftBare rightBare leftTrimmed
        rightTrimmed
    refine ⟨⟨?_, ?_⟩, ?_⟩
    · rintro ⟨whole, read⟩
      obtain ⟨front, back, leftRead, rightRead, _⟩ := join.mp read
      exact ⟨⟨_, leftRead⟩, _, rightRead⟩
    · rintro ⟨⟨left, leftRead⟩, right, rightRead⟩
      obtain ⟨front, rfl⟩ := exists_group leftFilled leftBare leftTrimmed leftRead
      obtain ⟨back, rfl⟩ := exists_group rightFilled rightBare rightTrimmed rightRead
      exact ⟨_, join.mpr ⟨front, back, leftRead, rightRead, rfl⟩⟩
    · intro whole left right read leftRead rightRead
      obtain ⟨front, rfl⟩ := exists_group leftFilled leftBare leftTrimmed leftRead
      obtain ⟨back, rfl⟩ := exists_group rightFilled rightBare rightTrimmed rightRead
      rw [join.mpr ⟨front, back, leftRead, rightRead, rfl⟩] at read
      cases read
      exact ⟨⟨front, back, rfl, rfl, rfl⟩, admits_group_append front back _ _ _⟩

theorem parse_composes_ranges :
    Text.trim "^1.2".toList ≠ [] ∧ Text.trim "~>2.x".toList ≠ [] ∧
    '|' ∉ "^1.2".toList ∧ '|' ∉ "~>2.x".toList ∧
    Text.trim "^1.2".toList = "^1.2".toList ∧ Text.trim "~>2.x".toList = "~>2.x".toList ∧
    (∃ left, parse .zero "^1.2" = .ok left) ∧ (∃ right, parse .zero "~>2.x" = .ok right) ∧
    (∃ whole, parse .zero ("^1.2" ++ "||" ++ "~>2.x") = .ok whole ∧
      whole.admits (Version.ofNumbers 2 9 0) = true) ∧
    ∃ whole, parse .zero ("^1.2" ++ "," ++ "~>2.x") = .ok whole ∧
      whole.admits (Version.ofNumbers 2 9 0) = false := by
  have leftFilled : Text.trim "^1.2".toList ≠ [] := by decide
  have rightFilled : Text.trim "~>2.x".toList ≠ [] := by decide
  have leftBare : '|' ∉ "^1.2".toList := by decide
  have rightBare : '|' ∉ "~>2.x".toList := by decide
  have leftTrimmed : Text.trim "^1.2".toList = "^1.2".toList := by decide
  have rightTrimmed : Text.trim "~>2.x".toList = "~>2.x".toList := by decide
  have leftTarget : Version.parseTarget .zero "1.2" =
      .ok ⟨⟨⟨.value 1, .value 2, .absent⟩, .bare⟩, none, "1.2"⟩ := by rfl
  have rightTarget : Version.parseTarget .zero "2.x" =
      .ok ⟨⟨⟨.value 2, .wildcard, .absent⟩, .bare⟩, none, "2.x"⟩ := by rfl
  have left := parse_single (show Operator.parse "^" = .ok .caret from rfl) leftTarget
  have right := parse_single (show Operator.parse "~>" = .ok .tilde from rfl) rightTarget
  obtain ⟨⟨bars, joined⟩, comma⟩ := parse_composes .zero leftFilled rightFilled
  obtain ⟨commas, met⟩ := comma leftBare rightBare leftTrimmed rightTrimmed
  obtain ⟨either, eitherRead⟩ := bars.mpr ⟨⟨_, left⟩, _, right⟩
  obtain ⟨both, bothRead⟩ := commas.mpr ⟨⟨_, left⟩, _, right⟩
  refine ⟨leftFilled, rightFilled, leftBare, rightBare, leftTrimmed, rightTrimmed, ⟨_, left⟩,
    ⟨_, right⟩, ⟨either, eitherRead, ?_⟩, both, bothRead, ?_⟩
  · rw [(joined either _ _ eitherRead left right).2]
    decide
  · rw [(met both _ _ bothRead left right).2]
    decide

end Expression

end VersionRange
