import VersionRange.Proofs.Constraint.Position
import VersionRange.Proofs.Expression.Reading

/-! Targets with all parts written.

An unwritten part stands for a wildcard or for zero, as the padding policy says, and
either can be written out. A target completed in this way has the parts that the
policy gives to the one it comes from, so nothing that looks at those parts alone
tells the two apart. Ceilings look at the parts as they are written: they know no
wildcards, but do raise a zero that is written.
-/

set_option autoImplicit false

namespace VersionRange

def Padding.mark : Padding → Char
  | .wildcard => '*'
  | .zero => '0'

namespace Layout

def complete (mark : Char) (layout : Layout) : Layout :=
  let missing := 3 - (tokens layout.numbers).length
  { layout with numbers := layout.numbers ++ (List.replicate missing ['.', mark]).flatten }

theorem tokens_append_marks {mark : Char} (solid : mark ≠ '.') (numbers : List Char)
    (missing : Nat) : tokens (numbers ++ (List.replicate missing ['.', mark]).flatten) =
      tokens numbers ++ List.replicate missing [mark] := by
  induction missing with
  | zero => simp
  | succ missing ih =>
    have last : numbers ++ (List.replicate (missing + 1) ['.', mark]).flatten =
        (numbers ++ (List.replicate missing ['.', mark]).flatten) ++ '.' :: [mark] := by
      rw [List.replicate_succ', List.flatten_append]
      simp
    have alone : tokens [mark] = [[mark]] := by
      apply List.splitOn_eq_singleton
      simpa using solid.symm
    rw [last, tokens, List.splitOn_append_cons_self]
    change tokens _ ++ tokens [mark] = _
    rw [ih, alone, List.replicate_succ', List.append_assoc]

theorem length_tokens_dropLetter (numbers : List Char) :
    (tokens (dropLetter numbers)).length = (tokens numbers).length := by
  cases numbers with
  | nil => rfl
  | cons c rest =>
    rw [dropLetter_cons]
    split
    · next letter =>
      subst letter
      rw [tokens, tokens, List.splitOn_cons_eq_if_modifyHead, if_neg (by decide),
        List.length_modifyHead]
    · rfl

theorem dropLetter_append {numbers : List Char} (filled : numbers ≠ []) (marks : List Char) :
    dropLetter (numbers ++ marks) = dropLetter numbers ++ marks := by
  cases numbers with
  | nil => contradiction
  | cons c rest =>
    rw [List.cons_append, dropLetter_cons, dropLetter_cons]
    split <;> rfl

theorem numbers_ne_nil_of_readParts? {layout : Layout} {release : Release}
    (read : layout.readParts? = some release) : layout.numbers ≠ [] := by
  intro empty
  rw [readParts?, empty] at read
  contradiction

end Layout

namespace Part

theorem reads_mark (padding : Padding) : Reads [padding.mark] (absent.resolve padding) := by
  cases padding with
  | wildcard => exact .star
  | zero => exact .number rfl

theorem reads_replicate_mark (padding : Padding) (missing : Nat) :
    List.Forall₂ Reads (List.replicate missing [padding.mark])
      (List.replicate missing (absent.resolve padding)) := by
  induction missing with
  | zero => exact .nil
  | succ missing ih => exact .cons (reads_mark padding) ih

theorem resolve_of_ne_absent {part : Part} (written : part ≠ .absent) (padding : Padding) :
    part.resolve padding = part := by
  cases part with
  | absent => contradiction
  | value n => rfl
  | wildcard => rfl

end Part

namespace Layout

theorem readParts?_complete {padding : Padding} {layout : Layout} {release : Release}
    (read : layout.readParts? = some release) :
    (layout.complete padding.mark).readParts? = some (release.resolve padding) := by
  have solid : padding.mark ≠ '.' := by cases padding <;> decide
  have begun := numbers_ne_nil_of_readParts? read
  obtain ⟨written, missing, found, parts⟩ := Version.readParts?_eq_some_iff.mp read
  -- as many marks are appended as parts are missing
  have count : 3 - (tokens layout.numbers).length = missing := by
    have three := Release.three_eq_add parts
    rw [← found.length_eq, length_tokens_dropLetter] at three
    omega
  have kept : written.map (Part.resolve padding) = written.map id :=
    List.map_congr_left fun part member =>
      Part.resolve_of_ne_absent (Part.ne_absent_of_reads found part member) padding
  refine Version.readParts?_eq_some_iff.mpr
    ⟨written ++ List.replicate missing (Part.absent.resolve padding), 0, ?_, ?_⟩
  · rw [complete, count, dropLetter_append begun, tokens_append_marks solid]
    exact List.rel_append found (Part.reads_replicate_mark padding missing)
  · change release.parts.map (Part.resolve padding) = _
    rw [parts, List.map_append, List.map_replicate, kept, List.map_id, List.replicate_zero,
      List.append_nil]

theorem ofText_complete {mark : Char} (bare : mark ≠ '+') (hyphenless : mark ≠ '-')
    (text : List Char) : ofText ((ofText text).complete mark).text = (ofText text).complete mark := by
  have marks {c : Char} (other : c ≠ '.') (another : mark ≠ c) (missing : Nat) :
      c ∉ (List.replicate missing ['.', mark]).flatten := by
    intro member
    obtain ⟨piece, inside, here⟩ := List.mem_flatten.mp member
    rw [List.eq_of_mem_replicate inside] at here
    simp [other, another.symm] at here
  apply ofText_text_ofText
  · intro member
    rcases List.mem_append.mp member with written | added
    · exact plus_not_mem_front text (List.mem_append_left _ written)
    · exact marks (by decide) bare _ added
  · intro member
    rcases List.mem_append.mp member with written | added
    · exact hyphen_not_mem_numbers text written
    · exact marks (by decide) hyphenless _ added

end Layout

namespace Release

theorem resolve_resolve (padding : Padding) (release : Release) :
    (release.resolve padding).resolve padding = release.resolve padding := by
  simp only [resolve, Part.resolve_of_ne_absent (Part.resolve_ne_absent padding _)]

theorem impliedSuffix_resolve (padding : Padding) (release : Release) :
    (release.resolve padding).impliedSuffix padding = release.impliedSuffix padding := by
  obtain ⟨major, minor, patch⟩ := release
  cases padding with
  | wildcard => cases patch <;> rfl
  | zero => rfl

theorem tildeCeiling?_resolve (release : Release) :
    (release.resolve .wildcard).tildeCeiling? = release.tildeCeiling? := by
  obtain ⟨major, minor, patch⟩ := release
  cases major <;> cases minor <;> rfl

theorem caretCeiling?_resolve (release : Release) :
    (release.resolve .wildcard).caretCeiling? = release.caretCeiling? := by
  obtain ⟨major, minor, patch⟩ := release
  cases major with
  | absent | wildcard => rfl
  | value a =>
    cases a with
    | succ a => rfl
    | zero =>
      cases minor with
      | absent | wildcard => rfl
      | value b => cases b <;> cases patch <;> rfl

end Release

def Version.completed (padding : Padding) (text : String) : String :=
  String.ofList ((Layout.ofText text.toList).complete padding.mark).text

theorem Version.exists_completed {padding : Padding} {text : String} {target : Version}
    (read : parseTarget padding text = .ok target) :
    ∃ again, parseTarget padding (completed padding text) = .ok again ∧
      again.release = target.release.resolve padding ∧ again.suffix = target.suffix := by
  obtain ⟨release, suffix, build, parts, tokens, metadata, rfl⟩ := parseTarget_eq_ok_iff.mp read
  have layout : Layout.ofText (completed padding text).toList =
      (Layout.ofText text.toList).complete padding.mark := by
    rw [completed, String.toList_ofList]
    apply Layout.ofText_complete <;> cases padding <;> decide
  refine ⟨_, parseTarget_eq_ok_iff.mpr
    ⟨release.resolve padding, suffix, build, ?_, ?_, ?_, rfl⟩, rfl, ?_⟩
  · rw [layout]
    exact Layout.readParts?_complete parts
  · rw [layout]
    exact tokens
  · rw [layout]
    exact metadata
  · rw [Release.impliedSuffix_resolve]

namespace Constraint

/-- Whether the second target writes out what the policy gives to the first. -/
structure CompletesTo (first second : Constraint) : Prop where
  operator : first.operator = second.operator
  padding : first.padding = second.padding
  release : second.version.release = first.version.release.resolve first.padding
  suffix : second.version.suffix = first.version.suffix

section

variable {first second : Constraint} (completes : first.CompletesTo second)
include completes

theorem CompletesTo.target_eq : first.target = second.target := by
  rw [target, target, completes.release, completes.suffix, ← completes.padding,
    Release.resolve_resolve]

/-- Only tilde and caret look at the parts as they are written, and only for numbers. -/
theorem CompletesTo.ceiling?_eq
    (unraised : first.padding = .zero → first.operator ∉ [.tilde, .caret]) :
    first.ceiling? = second.ceiling? := by
  unfold ceiling?
  rw [← completes.operator, completes.release]
  cases operator : first.operator with
  | tilde | caret =>
    cases padding : first.padding with
    | wildcard => simp only [Release.tildeCeiling?_resolve, Release.caretCeiling?_resolve]
    | zero => simp [padding, operator] at unraised
  | _ => rfl

theorem CompletesTo.agree
    (unraised : first.padding = .zero → first.operator ∉ [.tilde, .caret]) :
    (∀ version, first.admits version = second.admits version) ∧ first.lower? = second.lower? ∧
      first.upper? = second.upper? ∧ first.isUniversal = second.isUniversal :=
  agree_of_target completes.operator completes.target_eq (completes.ceiling?_eq unraised)

end

end Constraint

namespace Expression

/-- Writing out what the policy takes the unwritten parts for changes nothing, except for the
ceilings of tilde and caret where these are zeros. -/
theorem completion_is_invisible {padding : Padding} {text : String} {target : Version}
    (read : Version.parseTarget padding text = .ok target) :
    let written := Version.completed padding text
    ∃ again, Version.parseTarget padding written = .ok again ∧
      (∀ part ∈ again.release.parts, part ≠ .absent) ∧
      ∀ (spelling : String) (operator : Operator), Operator.parse spelling = .ok operator →
        (padding = .zero → operator ∉ [.tilde, .caret]) →
        let first : Constraint := ⟨operator, target, padding, spelling ++ text⟩
        let second : Constraint := ⟨operator, again, padding, spelling ++ written⟩
        parse padding (spelling ++ text) = .ok ⟨[[first]], padding, spelling ++ text⟩ ∧
          parse padding (spelling ++ written) = .ok ⟨[[second]], padding, spelling ++ written⟩ ∧
          (∀ version, first.admits version = second.admits version) ∧
          first.lower? = second.lower? ∧ first.upper? = second.upper? ∧
          first.isUniversal = second.isUniversal := by
  intro written
  obtain ⟨again, reread, release, suffix⟩ := Version.exists_completed read
  refine ⟨again, reread, ?_, ?_⟩
  · intro part member
    rw [release] at member
    exact Release.ne_absent_of_mem_resolve member
  · intro spelling operator spelled unraised first second
    have completes : first.CompletesTo second := ⟨rfl, rfl, release, suffix⟩
    exact ⟨parse_single spelled read, parse_single spelled reread, completes.agree unraised⟩

/-- A tilde range with wildcards written out in front of its revision, and a zero written behind a
wildcard. -/
theorem completion_is_invisible_tilde :
    let range : Version :=
      ⟨⟨⟨.value 1, .absent, .absent⟩, .revision [3]⟩, some "b-x", "v1-3+b-x"⟩
    let most : Version := ⟨⟨⟨.value 2, .wildcard, .absent⟩, .bare⟩, none, "2.x"⟩
    Version.parseTarget .wildcard "v1-3+b-x" = .ok range ∧ Operator.parse "~>" = .ok .tilde ∧
      Version.completed .wildcard "v1-3+b-x" = "v1.*.*-3+b-x" ∧
      (∃ again, Version.parseTarget .wildcard "v1.*.*-3+b-x" = .ok again ∧
        ∀ version, (Constraint.mk .tilde range .wildcard ("~>" ++ "v1-3+b-x")).admits version =
          (Constraint.mk .tilde again .wildcard ("~>" ++ "v1.*.*-3+b-x")).admits version) ∧
      Version.parseTarget .zero "2.x" = .ok most ∧ Operator.parse "=<" = .ok .lessThanOrEqual ∧
      Version.completed .zero "2.x" = "2.x.0" ∧
      ∃ again, Version.parseTarget .zero "2.x.0" = .ok again ∧
        ∀ version, (Constraint.mk .lessThanOrEqual most .zero ("=<" ++ "2.x")).admits version =
          (Constraint.mk .lessThanOrEqual again .zero ("=<" ++ "2.x.0")).admits version := by
  intro range most
  have read : Version.parseTarget .wildcard "v1-3+b-x" = .ok range := by rfl
  have spelled : Operator.parse "~>" = .ok .tilde := rfl
  have marked : Version.completed .wildcard "v1-3+b-x" = "v1.*.*-3+b-x" := by decide
  have mostRead : Version.parseTarget .zero "2.x" = .ok most := by rfl
  have mostSpelled : Operator.parse "=<" = .ok .lessThanOrEqual := rfl
  have mostMarked : Version.completed .zero "2.x" = "2.x.0" := by decide
  obtain ⟨again, reread, _, agree⟩ := completion_is_invisible read
  obtain ⟨_, _, admits, _⟩ := agree "~>" .tilde spelled (by simp)
  obtain ⟨other, mostReread, _, mostAgree⟩ := completion_is_invisible mostRead
  obtain ⟨_, _, mostAdmits, _⟩ := mostAgree "=<" .lessThanOrEqual mostSpelled (by simp)
  rw [marked] at reread admits
  rw [mostMarked] at mostReread mostAdmits
  exact ⟨read, spelled, marked, ⟨again, reread, admits⟩, mostRead, mostSpelled, mostMarked,
    other, mostReread, mostAdmits⟩

end Expression

end VersionRange
