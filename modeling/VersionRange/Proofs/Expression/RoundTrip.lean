import VersionRange.Constraint.Range
import VersionRange.Proofs.Expression.Composition

/-! Reading what is printed.

A constraint prints its operator's own symbol right in front of its target, so
printing loses no more than blanks and the other spellings of an operator. Groups
that hold constraints are read again as they were. A group without constraints
prints as nothing, which is read as everything where it stands alone and cannot
be read next to other groups.
-/

set_option autoImplicit false

namespace VersionRange

variable {padding : Padding}

namespace Constraint

structure IsRead (padding : Padding) (constraint : Constraint) : Prop where
  policy : constraint.padding = padding
  target : Version.parseTarget padding constraint.version.text = .ok constraint.version

theorem isRead_any (padding : Padding) : (any padding).IsRead padding where
  policy := rfl
  target := by cases padding <;> rfl

theorem isRead_of_toConstraint {term : Term} {constraint : Constraint}
    (read : term.toConstraint padding = .ok constraint) : constraint.IsRead padding := by
  obtain ⟨operator, version, _, target, rfl⟩ := Term.toConstraint_eq_ok_iff.mp read
  refine ⟨rfl, ?_⟩
  dsimp only
  rw [Version.text_of_parseTarget target]
  exact target

def term (constraint : Constraint) : Term :=
  ⟨constraint.operator.symbol.toList, [], constraint.version.text.toList⟩

def respelled (constraint : Constraint) : Constraint :=
  { constraint with text := constraint.operator.symbol ++ constraint.version.text }

@[simp] theorem text_term (constraint : Constraint) : constraint.term.text = constraint.render := by
  simp [term, Term.text, render]

@[simp] theorem render_respelled (constraint : Constraint) :
    constraint.respelled.render = constraint.render :=
  rfl

section

variable {constraint : Constraint}

theorem IsRead.isWritten_term (read : constraint.IsRead padding) : constraint.term.IsWritten :=
  Term.isWritten_of_parse (Operator.parse_symbol _) read.target

theorem IsRead.toConstraint_term (read : constraint.IsRead padding) :
    constraint.term.toConstraint padding = .ok constraint.respelled := by
  rw [respelled, read.policy]
  exact Term.toConstraint_of_parse (Operator.parse_symbol _) read.target

theorem IsRead.trim_render (read : constraint.IsRead padding) :
    Text.trim constraint.render = constraint.render := by
  rw [render, ← String.toList_append]
  exact Term.trim_of_all_isSolidChar (Term.all_isSolidChar (Operator.parse_symbol _) read.target)

theorem IsRead.render_ne_nil (read : constraint.IsRead padding) : constraint.render ≠ [] := by
  have target := Version.ne_empty_of_parseTarget read.target
  rw [render]
  exact List.append_ne_nil_of_right_ne_nil _ target

end

/-- Whether two constraints differ at most in the text that they were read from. -/
structure Agrees (first second : Constraint) : Prop where
  operator : first.operator = second.operator
  version : first.version = second.version
  padding : first.padding = second.padding
  lower : first.lower? = second.lower?
  upper : first.upper? = second.upper?
  admits : ∀ version, first.admits version = second.admits version

theorem agrees_respelled (constraint : Constraint) : constraint.Agrees constraint.respelled where
  operator := rfl
  version := rfl
  padding := rfl
  lower := rfl
  upper := rfl
  admits := fun _ => rfl

theorem admits_any (padding : Padding) (version : Version) : (any padding).admits version := by
  cases padding <;> rfl

end Constraint

namespace Expression

def IsReread (padding : Padding) (group : List Constraint) : Prop :=
  ∀ constraint ∈ group, constraint.IsRead padding

theorem isReread_of_isGroup {piece : List Char} {group : List Constraint}
    (read : IsGroup padding piece group) : IsReread padding group := by
  obtain ⟨_, terms, _, constraints⟩ := read
  intro constraint member
  obtain ⟨term, _, found⟩ := exists_of_forall₂ constraints.flip constraint member
  exact Constraint.isRead_of_toConstraint found

theorem isReread_of_parse {text : String} {expression : Expression}
    (read : parse padding text = .ok expression) :
    ∀ group ∈ expression.groups, IsReread padding group := by
  by_cases blank : Text.trim text.toList = []
  · rw [parse_of_blank blank] at read
    cases read
    simp [IsReread, Constraint.isRead_any]
  · intro group member
    obtain ⟨groups, _⟩ := (parse_eq_ok_iff blank).mp read
    obtain ⟨piece, _, found⟩ := exists_of_forall₂ groups.flip group member
    exact isReread_of_isGroup found

section

variable {group : List Constraint}

theorem splits_renderGroup (read : IsReread padding group) :
    Term.Splits (renderGroup group) (group.map Constraint.term) := by
  have written : ∀ term ∈ group.map Constraint.term, term.IsWritten := by
    intro term member
    obtain ⟨constraint, inside, rfl⟩ := List.mem_map.mp member
    exact (read constraint inside).isWritten_term
  have texts : (group.map Constraint.term).map Term.text = group.map Constraint.render := by simp
  have splits := Term.splits_intercalate written [] rfl
  rwa [texts] at splits

theorem renderGroup_ne_nil (filled : group ≠ []) (read : IsReread padding group) :
    renderGroup group ≠ [] := by
  cases group with
  | nil => contradiction
  | cons first rest =>
    have front := (read first (List.mem_cons_self ..)).render_ne_nil
    cases rest with
    | nil => simpa [renderGroup] using front
    | cons next rest => simp [renderGroup, List.intercalate_cons_cons]

theorem trim_renderGroup (read : IsReread padding group) :
    Text.trim (renderGroup group) = renderGroup group := by
  induction group with
  | nil => rfl
  | cons first rest ih =>
    have front := read first (List.mem_cons_self ..)
    have others : IsReread padding rest := fun constraint member =>
      read constraint (List.mem_cons_of_mem first member)
    cases rest with
    | nil => simpa [renderGroup] using front.trim_render
    | cons next rest =>
      have whole : renderGroup (first :: next :: rest) =
          first.render ++ ([',', ' '] ++ renderGroup (next :: rest)) := by
        simp [renderGroup, List.intercalate_cons_cons]
      rw [whole]
      exact Text.trim_between [',', ' '] front.render_ne_nil (renderGroup_ne_nil (by simp) others)
        front.trim_render (ih others)

theorem isGroup_renderGroup (filled : group ≠ []) (read : IsReread padding group) :
    IsGroup padding (renderGroup group) (group.map Constraint.respelled) := by
  refine ⟨renderGroup_ne_nil filled read, _, splits_renderGroup read, ?_⟩
  rw [List.forall₂_map_left_iff, List.forall₂_map_right_iff, List.forall₂_same]
  intro constraint member
  exact (read constraint member).toConstraint_term

theorem bar_not_mem_renderGroup (read : IsReread padding group) : '|' ∉ renderGroup group := by
  by_cases empty : group = []
  · simp [empty, renderGroup]
  · exact (isGroup_renderGroup empty read).bar_not_mem

theorem renderGroup_respelled (group : List Constraint) :
    renderGroup (group.map Constraint.respelled) = renderGroup group := by
  simp [renderGroup, Function.comp_def]

end

theorem pieces_cons_blank {c : Char} (blank : Text.isBlank c) (text : List Char) :
    pieces (c :: text) = pieces text := by
  have other : c ≠ '|' := by
    rintro rfl
    contradiction
  obtain ⟨piece, others, found⟩ := exists_splitBars_eq_cons text
  rw [pieces, splitBars_cons fun bar => absurd bar other, pieces, found, List.modifyHead_cons,
    List.map_cons, List.map_cons, Text.trim_cons blank]

theorem pieces_append_of_not_mem {first : List Char} (bare : '|' ∉ first) (second : List Char) :
    pieces (first ++ '|' :: '|' :: second) = Text.trim first :: pieces second := by
  have sound : ¬IsMarred (splitBars first) := by
    rw [splitBars_of_not_mem bare]
    simpa [IsMarred] using bare
  rw [pieces_append (.inl sound), pieces_of_not_mem bare, List.singleton_append]

theorem pieces_of_blank {text : List Char} (blank : Text.trim text = []) : pieces text = [[]] := by
  have bare : '|' ∉ text := by
    intro member
    have left := Text.mem_trim member (by decide)
    rw [blank] at left
    contradiction
  rw [pieces_of_not_mem bare, blank]

theorem pieces_intercalate {texts : List (List Char)} (filled : texts ≠ [])
    (bare : ∀ text ∈ texts, '|' ∉ text) (trimmed : ∀ text ∈ texts, Text.trim text = text) :
    pieces ([' ', '|', '|', ' '].intercalate texts) = texts := by
  induction texts with
  | nil => contradiction
  | cons first rest ih =>
    have alone := bare first (List.mem_cons_self ..)
    have ends := trimmed first (List.mem_cons_self ..)
    cases rest with
    | nil => rw [List.intercalate_singleton, pieces_of_not_mem alone, ends]
    | cons next rest =>
      have others := ih (by simp) (fun text member => bare text (List.mem_cons_of_mem first member))
        fun text member => trimmed text (List.mem_cons_of_mem first member)
      have bareFront : '|' ∉ first ++ [' '] := by simp [alone]
      have whole : [' ', '|', '|', ' '].intercalate (first :: next :: rest) =
          (first ++ [' ']) ++ '|' :: '|' :: ' ' :: [' ', '|', '|', ' '].intercalate (next :: rest) := by
        simp [List.intercalate_cons_cons]
      rw [whole, pieces_append_of_not_mem bareFront, Text.trim_append (by decide), ends,
        pieces_cons_blank (by decide), others]

variable {expression : Expression}

theorem pieces_render (some : expression.groups ≠ [])
    (reread : ∀ group ∈ expression.groups, IsReread padding group) :
    pieces expression.render = expression.groups.map renderGroup := by
  apply pieces_intercalate
  · simpa using some
  · intro text member
    obtain ⟨group, inside, rfl⟩ := List.mem_map.mp member
    exact bar_not_mem_renderGroup (reread group inside)
  · intro text member
    obtain ⟨group, inside, rfl⟩ := List.mem_map.mp member
    exact trim_renderGroup (reread group inside)

theorem parse_render_filled (some : expression.groups ≠ [])
    (filled : ∀ group ∈ expression.groups, group ≠ [])
    (reread : ∀ group ∈ expression.groups, IsReread padding group) :
    parse padding (String.ofList expression.render) =
      .ok ⟨expression.groups.map (List.map Constraint.respelled), padding,
        String.ofList expression.render⟩ := by
  have cut := pieces_render some reread
  have groups : ∀ group ∈ expression.groups,
      IsGroup padding (renderGroup group) (group.map Constraint.respelled) :=
    fun group member => isGroup_renderGroup (filled group member) (reread group member)
  have present : Text.trim (String.ofList expression.render).toList ≠ [] := by
    intro blank
    rw [String.toList_ofList] at blank
    rw [pieces_of_blank blank] at cut
    have member : [] ∈ expression.groups.map renderGroup := by simp [← cut]
    obtain ⟨group, inside, empty⟩ := List.mem_map.mp member
    exact (groups group inside).1 empty
  refine (parse_eq_ok_iff present).mpr ⟨?_, rfl⟩
  rw [String.toList_ofList, cut, List.forall₂_map_left_iff, List.forall₂_map_right_iff,
    List.forall₂_same]
  exact groups

theorem parse_render_empty (several : 2 ≤ expression.groups.length) (empty : [] ∈ expression.groups)
    (reread : ∀ group ∈ expression.groups, IsReread padding group) :
    parse padding (String.ofList expression.render) =
      .error ⟨String.ofList expression.render, .emptyGroup⟩ := by
  have cut := pieces_render (List.ne_nil_of_mem empty) reread
  have present : Text.trim (String.ofList expression.render).toList ≠ [] := by
    intro blank
    rw [String.toList_ofList] at blank
    rw [pieces_of_blank blank] at cut
    have lengths := congrArg List.length cut
    simp only [List.length_singleton, List.length_map] at lengths
    omega
  -- the groups in front of the first empty one are read
  obtain ⟨front, rest, split, filled⟩ := List.eq_append_cons_of_mem empty
  have failed : (pieces (String.ofList expression.render).toList).mapM
      (parseGroup padding (String.ofList expression.render)) =
        .error ⟨String.ofList expression.render, .emptyGroup⟩ := by
    rw [String.toList_ofList, cut, split, List.map_append, List.map_cons]
    apply mapM_eq_error
    · intro piece member
      obtain ⟨group, inside, rfl⟩ := List.mem_map.mp member
      have nonempty : group ≠ [] := fun same => filled (same ▸ inside)
      have read := reread group (split ▸ List.mem_append_left _ inside)
      exact ⟨_, parseGroup_eq_ok_iff.mpr (isGroup_renderGroup nonempty read)⟩
    · rfl
  rw [parse, if_neg (by simpa using present), failed]
  rfl

/-- What is printed for an expression that was read is read as the same constraints, and prints
the same, if no group is empty. A single empty group prints as a blank text, which admits what the
group admits; an empty group among others prints as a text that has a gap there. -/
theorem render_reads_back {text : String} (read : parse padding text = .ok expression) :
    ((∀ group ∈ expression.groups, group ≠ []) →
      ∃ again, parse padding (String.ofList expression.render) = .ok again ∧
        List.Forall₂ (List.Forall₂ Constraint.Agrees) expression.groups again.groups ∧
        again.render = expression.render) ∧
    (expression.groups = [[]] →
      ∃ again, parse padding (String.ofList expression.render) = .ok again ∧
        ∀ version, expression.admits version ∧ again.admits version) ∧
    (2 ≤ expression.groups.length → [] ∈ expression.groups →
      ∃ error, parse padding (String.ofList expression.render) = .error error ∧
        error.text = String.ofList expression.render ∧ error.fault = .emptyGroup ∧
        error.fault.message = "empty constraint group") := by
  have reread := isReread_of_parse read
  refine ⟨?_, ?_, ?_⟩
  · intro filled
    refine ⟨_, parse_render_filled (groups_ne_nil read) filled reread, ?_, ?_⟩
    · simp only [List.forall₂_map_right_iff, List.forall₂_same]
      intro group _ constraint _
      exact constraint.agrees_respelled
    · simp only [render, List.map_map, Function.comp_def, renderGroup_respelled]
  · intro empty
    have nothing : Text.trim (String.ofList expression.render).toList = [] := by
      rw [render, empty]
      rfl
    refine ⟨_, parse_of_blank nothing, ?_⟩
    intro version
    constructor
    · simp [admits, empty]
    · simp [admits, Constraint.admits_any]
  · intro several empty
    exact ⟨_, parse_render_empty several empty reread, rfl, rfl, rfl⟩

/-- Two aliases in one group, the same next to a comma, and the comma alone. -/
theorem render_reads_back_aliases :
    let least : Constraint :=
      ⟨.greaterThanOrEqual, ⟨⟨⟨.value 1, .absent, .absent⟩, .anyRevision⟩, none, "1"⟩, .wildcard, "=>1"⟩
    let range : Constraint :=
      ⟨.tilde, ⟨⟨⟨.value 2, .wildcard, .absent⟩, .anyRevision⟩, none, "2.x"⟩, .wildcard, "~>2.x"⟩
    parse .wildcard "=>1,~>2.x" = .ok ⟨[[least, range]], .wildcard, "=>1,~>2.x"⟩ ∧
    (∃ again, parse .wildcard ">=1, ~2.x" = .ok again ∧
      List.Forall₂ (List.Forall₂ Constraint.Agrees) [[least, range]] again.groups) ∧
    parse .wildcard "=>1,~>2.x||," = .ok ⟨[[least, range], []], .wildcard, "=>1,~>2.x||,"⟩ ∧
    (∃ error, parse .wildcard ">=1, ~2.x || " = .error error ∧ error.fault = .emptyGroup) ∧
    parse .wildcard "," = .ok ⟨[[]], .wildcard, ","⟩ ∧
    ∃ again, parse .wildcard "" = .ok again ∧ ∀ version, again.admits version := by
  intro least range
  have first := parse_single (show Operator.parse "=>" = .ok .greaterThanOrEqual from rfl)
    (show Version.parseTarget .wildcard "1" = .ok least.version from rfl)
  have second := parse_single (show Operator.parse "~>" = .ok .tilde from rfl)
    (show Version.parseTarget .wildcard "2.x" = .ok range.version from rfl)
  rw [show "=>" ++ "1" = "=>1" by decide] at first
  rw [show "~>" ++ "2.x" = "~>2.x" by decide] at second
  have group : parse .wildcard ("=>1" ++ "," ++ "~>2.x") =
      .ok ⟨[[least, range]], .wildcard, "=>1" ++ "," ++ "~>2.x"⟩ :=
    (parse_comma (by decide) (by decide) (by decide) (by decide) (by decide) (by decide)).mpr
      ⟨[least], [range], first, second, rfl⟩
  rw [show "=>1" ++ "," ++ "~>2.x" = "=>1,~>2.x" by decide] at group
  have comma : parse .wildcard "," = .ok ⟨[[]], .wildcard, ","⟩ :=
    (parse_eq_ok_iff_group (by decide) (by decide) (by decide)).mpr
      ⟨[], ⟨by decide, [], .done rfl, .nil⟩, rfl⟩
  have gap : parse .wildcard ("=>1,~>2.x" ++ "||" ++ ",") =
      .ok ⟨[[least, range], []], .wildcard, "=>1,~>2.x" ++ "||" ++ ","⟩ :=
    (parse_bars (by decide) (by decide)).mpr ⟨_, _, group, comma, rfl⟩
  rw [show "=>1,~>2.x" ++ "||" ++ "," = "=>1,~>2.x||," by decide] at gap
  have printed : String.ofList (Expression.mk [[least, range]] .wildcard "=>1,~>2.x").render =
      ">=1, ~2.x" := by decide
  have printedGap : String.ofList (Expression.mk [[least, range], []] .wildcard
      "=>1,~>2.x||,").render = ">=1, ~2.x || " := by decide
  obtain ⟨again, reread, same, _⟩ := (render_reads_back group).1 (by simp)
  obtain ⟨error, failed, _, fault, _⟩ := (render_reads_back gap).2.2 (by simp) (by simp)
  obtain ⟨all, blank, admits⟩ := (render_reads_back comma).2.1 rfl
  rw [printed] at reread
  rw [printedGap] at failed
  exact ⟨group, ⟨again, reread, same⟩, gap, ⟨error, failed, fault⟩, comma, all, blank,
    fun version => (admits version).2⟩

end Expression

end VersionRange
