/-! Decimal numerals.

A numeral is a nonempty run of ASCII digits. Leading zeros do not change its
value, and of the numerals with one value exactly one is canonical: writing a
number gives a canonical numeral of that value, and writing the value of a
canonical numeral gives the numeral again.
-/

set_option autoImplicit false

namespace VersionRange.Text

def isNumeral (text : List Char) : Bool :=
  !text.isEmpty && text.all Char.isDigit

def isCanonicalNumeral (text : List Char) : Bool :=
  isNumeral text && (text == ['0'] || text.head? != some '0')

def numeralValue (text : List Char) : Nat :=
  Nat.ofDigitChars 10 text 0

def numeral (n : Nat) : List Char :=
  Nat.toDigits 10 n

@[simp] theorem numeralValue_numeral (n : Nat) : numeralValue (numeral n) = n :=
  Nat.ofDigitChars_ten_toDigits

theorem isNumeral_of_isCanonicalNumeral {text : List Char} (canonical : isCanonicalNumeral text) :
    isNumeral text := by
  simp only [isCanonicalNumeral, Bool.and_eq_true] at canonical
  exact canonical.1

theorem head?_numeral_ne (n : Nat) (positive : 0 < n) : (numeral n).head? ≠ some '0' := by
  induction n using Nat.strongRecOn with
  | ind n ih =>
    rw [numeral, Nat.toDigits_eq_if (by decide)]
    split
    · simp [Nat.ne_of_gt positive]
    · have front := ih (n / 10) (by omega) (by omega)
      rw [numeral] at front
      rw [List.head?_append]
      cases found : (Nat.toDigits 10 (n / 10)).head? with
      | none => simp at found
      | some c => simpa [found] using front

theorem isCanonicalNumeral_numeral (n : Nat) : isCanonicalNumeral (numeral n) := by
  have digits : (numeral n).all Char.isDigit := by
    simp only [List.all_eq_true]
    exact fun c member => Nat.isDigit_of_mem_toDigits (by decide) (by decide) member
  have nonempty : (numeral n).isEmpty = false := by simp [numeral]
  have front : ((numeral n) == ['0'] || (numeral n).head? != some '0') := by
    cases n with
    | zero => simp [numeral]
    | succ n => simp [head?_numeral_ne (n + 1) (by omega)]
  simp [isCanonicalNumeral, isNumeral, digits, nonempty, front]

theorem digitChar_toNat_sub {c : Char} (digit : c.isDigit) :
    c.toNat - '0'.toNat < 10 ∧ Nat.digitChar (c.toNat - '0'.toNat) = c := by
  have range : 48 ≤ c.toNat ∧ c.toNat ≤ 57 := by
    simpa [Char.isDigit, UInt32.le_iff_toNat_le] using digit
  have small : c.toNat - '0'.toNat < 10 := by
    have zero : '0'.toNat = 48 := rfl
    omega
  refine ⟨small, Char.toNat_inj.mp ?_⟩
  rw [Nat.toNat_digitChar_of_lt_ten small]
  have zero : '0'.toNat = 48 := rfl
  omega

theorem numeral_ofDigitChars (digits : List Char) (n : Nat) (positive : 0 < n)
    (all : digits.all Char.isDigit) :
    numeral (Nat.ofDigitChars 10 digits n) = numeral n ++ digits := by
  induction digits generalizing n with
  | nil => simp
  | cons c digits ih =>
    simp only [List.all_cons, Bool.and_eq_true] at all
    obtain ⟨small, same⟩ := digitChar_toNat_sub all.1
    rw [Nat.ofDigitChars_cons, ih _ (by omega) all.2, numeral, numeral,
      ← Nat.toDigits_append_toDigits (by decide) positive small, Nat.toDigits_of_lt_base small, same]
    simp

theorem numeral_numeralValue {text : List Char} (canonical : isCanonicalNumeral text) :
    numeral (numeralValue text) = text := by
  simp only [isCanonicalNumeral, isNumeral, Bool.and_eq_true, Bool.or_eq_true] at canonical
  obtain ⟨⟨nonempty, digits⟩, front⟩ := canonical
  match text with
  | [] => simp at nonempty
  | c :: rest =>
    simp only [List.all_cons, Bool.and_eq_true] at digits
    obtain ⟨small, same⟩ := digitChar_toNat_sub digits.1
    rcases front with zero | other
    · have zero : c :: rest = ['0'] := by simpa using zero
      rw [zero]
      rfl
    · have positive : 0 < c.toNat - '0'.toNat := by
        refine Nat.pos_of_ne_zero fun zero => ?_
        rw [zero] at same
        simp [← same] at other
      rw [numeralValue, Nat.ofDigitChars_cons, numeral_ofDigitChars _ _ (by omega) digits.2,
        Nat.mul_zero, Nat.zero_add, numeral, Nat.toDigits_of_lt_base small, same]
      rfl

end VersionRange.Text
