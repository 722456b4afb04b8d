import VersionRange.Proofs.Version.Layout
import VersionRange.Version.Strict

/-! Suffixes and their tokens.

A suffix is read from tokens and written as tokens. On the strict tokens the two
are inverse to each other, and they reach exactly the suffixes that a concrete
version can have.
-/

set_option autoImplicit false

namespace VersionRange

namespace Text

theorem all_isDigit_numeral (n : Nat) : (numeral n).all Char.isDigit := by
  have form := isNumeral_of_isCanonicalNumeral (isCanonicalNumeral_numeral n)
  simp only [isNumeral, Bool.and_eq_true] at form
  exact form.2

end Text

namespace Layout

theorem isToken_of_isStrictToken {token : List Char} (strict : isStrictToken token) :
    isToken token := by
  simp only [isStrictToken, Bool.and_eq_true] at strict
  exact strict.1

theorem forall_isToken_of_isStrictToken {pieces : List (List Char)}
    (strict : ∀ token ∈ pieces, isStrictToken token) : ∀ token ∈ pieces, isToken token :=
  fun token member => isToken_of_isStrictToken (strict token member)

theorem isCanonicalNumeral_of_isStrictToken {token : List Char} (strict : isStrictToken token)
    (numeral : Text.isNumeral token) : Text.isCanonicalNumeral token := by
  simp only [isStrictToken, Bool.and_eq_true, Bool.or_eq_true] at strict
  rcases strict.2 with canonical | other
  · exact canonical
  · simp only [Text.isNumeral, Bool.and_eq_true] at numeral
    simp [numeral.2] at other

theorem isStrictToken_numeral (n : Nat) : isStrictToken (Text.numeral n) := by
  have canonical := Text.isCanonicalNumeral_numeral n
  have form := isToken_of_isNumeral (Text.isNumeral_of_isCanonicalNumeral canonical)
  simp [isStrictToken, canonical, form]

end Layout

namespace Identifier

def isAlphanumeric : Identifier → Bool
  | .numeric _ => false
  | .alphanumeric _ => true

def isWritten : Identifier → Bool
  | .numeric _ => true
  | .alphanumeric text => Layout.isToken text.toList && !text.toList.all Char.isDigit

theorem isStrictToken_render {identifier : Identifier} (written : identifier.isWritten) :
    Layout.isStrictToken identifier.render := by
  cases identifier with
  | numeric n => exact Layout.isStrictToken_numeral n
  | alphanumeric text =>
    simp only [isWritten, Bool.and_eq_true] at written
    simp [Layout.isStrictToken, render, written.1, written.2]

theorem isNumeral_render {identifier : Identifier} (written : identifier.isWritten) :
    Text.isNumeral identifier.render = !identifier.isAlphanumeric := by
  cases identifier with
  | numeric n => exact Text.isNumeral_of_isCanonicalNumeral (Text.isCanonicalNumeral_numeral n)
  | alphanumeric text =>
    simp only [isWritten, Bool.and_eq_true, Bool.not_eq_true'] at written
    simp [Text.isNumeral, render, isAlphanumeric, written.2]

theorem ofToken_render {identifier : Identifier} (written : identifier.isWritten) :
    ofToken identifier.render = identifier := by
  rw [ofToken, isNumeral_render written]
  cases identifier with
  | numeric n => simp [isAlphanumeric, render]
  | alphanumeric text => simp [isAlphanumeric, render]

theorem render_ofToken {token : List Char} (strict : Layout.isStrictToken token) :
    (ofToken token).render = token := by
  unfold ofToken
  split
  · next numeral =>
    exact Text.numeral_numeralValue (Layout.isCanonicalNumeral_of_isStrictToken strict numeral)
  · simp [render]

theorem isAlphanumeric_ofToken (token : List Char) :
    (ofToken token).isAlphanumeric = !Text.isNumeral token := by
  unfold ofToken
  split
  · next numeral => simp [isAlphanumeric, numeral]
  · next other => simp [isAlphanumeric, other]

theorem isWritten_ofToken {token : List Char} (form : Layout.isToken token) :
    (ofToken token).isWritten := by
  unfold ofToken
  split
  · rfl
  · next other =>
    simp only [Layout.isToken, Bool.and_eq_true] at form
    simp only [Text.isNumeral, form.1, Bool.true_and, Bool.not_eq_true] at other
    simp [isWritten, Layout.isToken, form.1, form.2, other]

end Identifier

namespace Suffix

/-- What a concrete version can have for a suffix: a revision has a number, and a pre-release an
identifier that is none. -/
def isConcrete : Suffix → Bool
  | .preRelease identifiers =>
    identifiers.all Identifier.isWritten && identifiers.any Identifier.isAlphanumeric
  | .bare => true
  | .revision numbers => !numbers.isEmpty
  | .anyRevision => false

def tokens? : Suffix → Option (List (List Char))
  | .preRelease identifiers => some (identifiers.map Identifier.render)
  | .bare => none
  | .revision numbers => some (numbers.map Text.numeral)
  | .anyRevision => some [['*']]

def piece? (suffix : Suffix) : Option (List Char) :=
  suffix.tokens?.map (['.'].intercalate ·)

theorem render_eq_behind (suffix : Suffix) : suffix.render = Text.behind '-' suffix.piece? := by
  cases suffix <;> rfl

theorem map_numeralValue_numeral (numbers : List Nat) :
    (numbers.map Text.numeral).map Text.numeralValue = numbers := by
  induction numbers with
  | nil => rfl
  | cons n numbers ih => simp only [List.map_cons, Text.numeralValue_numeral, ih]

theorem all_isNumeral_map_render {identifiers : List Identifier}
    (written : ∀ identifier ∈ identifiers, identifier.isWritten) :
    (identifiers.map Identifier.render).all Text.isNumeral =
      !identifiers.any Identifier.isAlphanumeric := by
  induction identifiers with
  | nil => rfl
  | cons identifier identifiers ih =>
    have rest := ih fun other member => written other (List.mem_cons_of_mem identifier member)
    have first := Identifier.isNumeral_render (written identifier (by simp))
    simp only [List.map_cons, List.all_cons, List.any_cons, first, rest, Bool.not_or]

theorem ofTokens_tokens? {suffix : Suffix} {pieces : List (List Char)}
    (concrete : suffix.isConcrete) (written : suffix.tokens? = some pieces) :
    pieces ≠ [] ∧ (∀ token ∈ pieces, Layout.isStrictToken token) ∧ ofTokens pieces = suffix := by
  cases suffix with
  | preRelease identifiers =>
    simp only [isConcrete, Bool.and_eq_true, List.all_eq_true] at concrete
    obtain ⟨forms, someText⟩ := concrete
    cases written
    refine ⟨?_, ?_, ?_⟩
    · -- the identifier that is no number is one at least
      intro empty
      rw [List.map_eq_nil_iff] at empty
      simp [empty] at someText
    · intro token member
      obtain ⟨identifier, inside, rfl⟩ := List.mem_map.mp member
      exact Identifier.isStrictToken_render (forms identifier inside)
    · have back : (identifiers.map Identifier.render).map Identifier.ofToken = identifiers := by
        rw [List.map_map]
        refine (List.map_congr_left fun identifier member => ?_).trans (List.map_id identifiers)
        exact Identifier.ofToken_render (forms identifier member)
      rw [ofTokens, all_isNumeral_map_render forms, someText, back]
      rfl
  | revision numbers =>
    simp only [isConcrete, Bool.not_eq_true', List.isEmpty_eq_false_iff] at concrete
    cases written
    refine ⟨?_, ?_, ?_⟩
    · simpa using concrete
    · intro token member
      obtain ⟨n, _, rfl⟩ := List.mem_map.mp member
      exact Layout.isStrictToken_numeral n
    · have numerals : (numbers.map Text.numeral).all Text.isNumeral := by
        simp only [List.all_map, List.all_eq_true, Function.comp_apply]
        intro n _
        exact Text.isNumeral_of_isCanonicalNumeral (Text.isCanonicalNumeral_numeral n)
      rw [ofTokens, if_pos numerals, map_numeralValue_numeral]
  | bare => simp [tokens?] at written
  | anyRevision => simp [isConcrete] at concrete

theorem isConcrete_ofTokens {pieces : List (List Char)} (nonempty : pieces ≠ [])
    (forms : ∀ token ∈ pieces, Layout.isToken token) : (ofTokens pieces).isConcrete := by
  unfold ofTokens
  split
  · simpa [isConcrete] using nonempty
  · next other =>
    simp only [isConcrete, Bool.and_eq_true, List.all_map, List.any_map, List.all_eq_true,
      Function.comp_apply]
    refine ⟨fun token member => Identifier.isWritten_ofToken (forms token member), ?_⟩
    -- the token that is no numeral becomes a text identifier
    simp only [List.all_eq_true, Classical.not_forall] at other
    obtain ⟨token, member, text⟩ := other
    refine List.any_eq_true.mpr ⟨token, member, ?_⟩
    simpa [Identifier.isAlphanumeric_ofToken] using text

theorem tokens?_ofTokens {pieces : List (List Char)}
    (strict : ∀ token ∈ pieces, Layout.isStrictToken token) :
    (ofTokens pieces).tokens? = some pieces := by
  unfold ofTokens
  split
  · next numerals =>
    simp only [tokens?, List.map_map, Option.some.injEq]
    refine (List.map_congr_left fun token member => ?_).trans (List.map_id pieces)
    have numeral := List.all_eq_true.mp numerals token member
    exact Text.numeral_numeralValue
      (Layout.isCanonicalNumeral_of_isStrictToken (strict token member) numeral)
  · simp only [tokens?, List.map_map, Option.some.injEq]
    refine (List.map_congr_left fun token member => ?_).trans (List.map_id pieces)
    exact Identifier.render_ofToken (strict token member)

end Suffix

end VersionRange
