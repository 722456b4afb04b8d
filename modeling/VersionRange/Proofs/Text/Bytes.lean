/-! Texts by their bytes.

A scanner over UTF-8 that tells ASCII characters from the rest stops at the same
places as one over characters: no byte of another character is taken for one of
them. So the offsets that it stops at are boundaries of characters, and what
stands between two of them is a text again.
-/

set_option autoImplicit false

namespace VersionRange.Text

/-- The offset of the first byte outside a class, from an offset on. -/
def advance (inside : UInt8 → Bool) (bytes : ByteArray) (i : Nat) : Nat :=
  if _ : i < bytes.size then
    if inside bytes[i] then advance inside bytes (i + 1) else i
  else i
termination_by bytes.size - i

structure Span where
  start : Nat
  stop : Nat
  deriving DecidableEq, Repr

/-- The text between two offsets. There is none unless both are boundaries of characters. -/
def slice? (text : String) (span : Span) : Option String :=
  if bounds : String.Pos.Raw.IsValid text ⟨span.start⟩ ∧ String.Pos.Raw.IsValid text ⟨span.stop⟩ ∧
      span.start ≤ span.stop then
    some (text.extract (text.pos ⟨span.start⟩ bounds.1) (text.pos ⟨span.stop⟩ bounds.2.1))
  else none

theorem isValid_of_slice? {text piece : String} {span : Span} (sliced : slice? text span = some piece) :
    String.Pos.Raw.IsValid text ⟨span.start⟩ ∧ String.Pos.Raw.IsValid text ⟨span.stop⟩ := by
  unfold slice? at sliced
  split at sliced
  · next bounds => exact ⟨bounds.1, bounds.2.1⟩
  · contradiction

theorem advance_eq (inside : UInt8 → Bool) (bytes : ByteArray) (i : Nat) :
    advance inside bytes i = i + ((bytes.data.toList.drop i).takeWhile inside).length := by
  fun_induction advance inside bytes i with
  | case1 i h here ih =>
    have listed : i < bytes.data.toList.length := by simpa using h
    rw [ih, List.drop_eq_getElem_cons listed, List.takeWhile_cons_of_pos, List.length_cons]
    · omega
    · simpa [ByteArray.getElem_eq_getElem_data] using here
  | case2 i h stops =>
    have listed : i < bytes.data.toList.length := by simpa using h
    rw [List.drop_eq_getElem_cons listed, List.takeWhile_cons_of_neg, List.length_nil, Nat.add_zero]
    simpa [ByteArray.getElem_eq_getElem_data] using stops
  | case3 i h =>
    rw [List.drop_eq_nil_of_le, List.takeWhile_nil, List.length_nil, Nat.add_zero]
    simpa using h

theorem le_advance (inside : UInt8 → Bool) (bytes : ByteArray) (i : Nat) :
    i ≤ advance inside bytes i := by
  rw [advance_eq]
  exact Nat.le_add_right ..

theorem advance_le_size {inside : UInt8 → Bool} {bytes : ByteArray} {i : Nat}
    (moved : i ≠ advance inside bytes i) : advance inside bytes i ≤ bytes.size := by
  have run := (List.takeWhile_prefix inside (l := bytes.data.toList.drop i)).length_le
  have listed : bytes.data.toList.length = bytes.size := Array.length_toList
  rw [List.length_drop] at run
  rw [advance_eq] at moved ⊢
  omega

def isOneOf (marks : List Char) (b : UInt8) : Bool :=
  marks.any fun mark => b == mark.toUInt8

/-- A class of bytes and a class of characters such that each byte of a character tells whether
the character is inside. -/
def Agree (bytes : UInt8 → Bool) (chars : Char → Bool) : Prop :=
  ∀ c, ∀ b ∈ String.utf8EncodeChar c, bytes b = chars c

theorem utf8EncodeChar_of_le {c : Char} (ascii : c.toNat ≤ 127) :
    String.utf8EncodeChar c = [c.toUInt8] := by
  rw [String.utf8EncodeChar]
  exact if_pos ascii

theorem le_of_mem_utf8EncodeChar {c : Char} (other : 127 < c.toNat) :
    ∀ b ∈ String.utf8EncodeChar c, 128 ≤ b.toNat := by
  intro b member
  have value : c.val.toNat = c.toNat := rfl
  simp only [String.utf8EncodeChar, value] at member
  -- a lead byte is at least 192 and a byte behind it at least 128
  split at member
  · omega
  · split at member
    · simp only [List.mem_cons, List.not_mem_nil, or_false] at member
      rcases member with rfl | rfl <;> rw [UInt8.toNat_ofNat'] <;> omega
    · split at member
      · simp only [List.mem_cons, List.not_mem_nil, or_false] at member
        rcases member with rfl | rfl | rfl <;> rw [UInt8.toNat_ofNat'] <;> omega
      · simp only [List.mem_cons, List.not_mem_nil, or_false] at member
        rcases member with rfl | rfl | rfl | rfl <;> rw [UInt8.toNat_ofNat'] <;> omega

theorem toNat_toUInt8 {c : Char} (ascii : c.toNat ≤ 127) : c.toUInt8.toNat = c.toNat := by
  have value : c.toUInt8.toNat = c.toNat % 256 := UInt32.toNat_toUInt8 c.val
  omega

theorem agree_beq {mark : Char} (ascii : mark.toNat ≤ 127) :
    Agree (· == mark.toUInt8) (· == mark) := by
  intro c b member
  have markByte := toNat_toUInt8 ascii
  rw [Bool.eq_iff_iff, beq_iff_eq, beq_iff_eq, ← UInt8.toNat_inj, ← Char.toNat_inj, markByte]
  rcases Nat.lt_or_ge 127 c.toNat with high | low
  · have byte := le_of_mem_utf8EncodeChar high b member
    omega
  · rw [utf8EncodeChar_of_le low, List.mem_singleton] at member
    rw [member, toNat_toUInt8 low]

theorem agree_isOneOf {marks : List Char} {chars : Char → Bool}
    (ascii : marks.all fun mark => mark.toNat ≤ 127) (listed : ∀ c, chars c ↔ c ∈ marks) :
    Agree (isOneOf marks) chars := by
  intro c b member
  simp only [List.all_eq_true, decide_eq_true_eq] at ascii
  have agree : ∀ mark ∈ marks, (b == mark.toUInt8) = (c == mark) := fun mark inside =>
    agree_beq (ascii mark inside) c b member
  rw [isOneOf, Bool.eq_iff_iff, List.any_eq_true, listed]
  constructor
  · rintro ⟨mark, inside, same⟩
    rw [agree mark inside, beq_iff_eq] at same
    exact same ▸ inside
  · intro inside
    exact ⟨c, inside, (agree c inside).trans (beq_self_eq_true c)⟩

namespace Agree

variable {bytes others : UInt8 → Bool} {chars otherChars : Char → Bool}

theorem or (first : Agree bytes chars) (second : Agree others otherChars) :
    Agree (fun b => bytes b || others b) fun c => chars c || otherChars c := by
  intro c b member
  dsimp only
  rw [first c b member, second c b member]

theorem not (agree : Agree bytes chars) : Agree (fun b => !bytes b) fun c => !chars c := by
  intro c b member
  dsimp only
  rw [agree c b member]

theorem takeWhile (agree : Agree bytes chars) (text : List Char) :
    (text.flatMap String.utf8EncodeChar).takeWhile bytes =
      (text.takeWhile chars).flatMap String.utf8EncodeChar := by
  induction text with
  | nil => rfl
  | cons c text ih =>
    rw [List.flatMap_cons, List.takeWhile_cons]
    cases inside : chars c with
    | true =>
      have all : ∀ b ∈ String.utf8EncodeChar c, bytes b := fun b member =>
        (agree c b member).trans inside
      rw [List.takeWhile_append_of_pos all, ih, if_pos rfl, List.flatMap_cons]
    | false =>
      obtain ⟨b, rest, encoded⟩ := List.exists_cons_of_ne_nil (String.utf8EncodeChar_ne_nil (c := c))
      have stops : bytes b = false := (agree c b (by simp [encoded])).trans inside
      rw [encoded, List.cons_append, List.takeWhile_cons_of_neg (by simp [stops])]
      rfl

end Agree

def size (text : List Char) : Nat :=
  (text.flatMap String.utf8EncodeChar).length

theorem size_append (front rest : List Char) : size (front ++ rest) = size front + size rest := by
  rw [size, List.flatMap_append, List.length_append, size, size]

theorem size_eq_zero_iff {text : List Char} : size text = 0 ↔ text = [] := by
  rw [size, List.length_eq_zero_iff, List.flatMap_eq_nil_iff]
  constructor
  · intro none
    exact List.eq_nil_iff_forall_not_mem.mpr fun c member =>
      String.utf8EncodeChar_ne_nil (none c member)
  · rintro rfl
    simp

theorem toList_toByteArray_ofList (text : List Char) :
    (String.ofList text).toByteArray.data.toList = text.flatMap String.utf8EncodeChar := by
  rw [String.toByteArray_ofList, List.utf8Encode, List.toList_data_toByteArray]

theorem size_toByteArray_ofList (text : List Char) :
    (String.ofList text).toByteArray.size = size text := by
  rw [size, ← toList_toByteArray_ofList, Array.length_toList]
  rfl

/-- Whether an offset is a boundary of characters, and which ones stand behind it. -/
def IsAt (text : String) (i : Nat) (rest : List Char) : Prop :=
  ∃ front, text.toList = front ++ rest ∧ i = size front

theorem isAt_zero (text : String) : IsAt text 0 text.toList :=
  ⟨[], rfl, rfl⟩

namespace IsAt

variable {text : String} {i : Nat}

theorem isValid {rest : List Char} (here : IsAt text i rest) : String.Pos.Raw.IsValid text ⟨i⟩ := by
  obtain ⟨front, whole, rfl⟩ := here
  rw [String.Pos.Raw.isValid_iff_exists_append]
  refine ⟨String.ofList front, String.ofList rest, ?_, ?_⟩
  · rw [← String.ofList_append, ← whole, String.ofList_toList]
  · rw [← size_toByteArray_ofList]
    rfl

theorem behind {piece rest : List Char} (here : IsAt text i (piece ++ rest)) :
    IsAt text (i + size piece) rest := by
  obtain ⟨front, whole, rfl⟩ := here
  exact ⟨front ++ piece, by rw [whole, List.append_assoc], (size_append front piece).symm⟩

theorem passed {rest : List Char} (here : IsAt text i rest) (inside : Char → Bool) :
    IsAt text (i + size (rest.takeWhile inside)) (rest.dropWhile inside) := by
  rw [← List.takeWhile_append_dropWhile (p := inside) (l := rest)] at here
  exact here.behind

theorem add_size_eq {rest : List Char} (here : IsAt text i rest) :
    i + size rest = text.toByteArray.size := by
  obtain ⟨front, whole, rfl⟩ := here
  rw [← size_append, ← whole, ← size_toByteArray_ofList, String.ofList_toList]

theorem eq_size_iff {rest : List Char} (here : IsAt text i rest) :
    i = text.toByteArray.size ↔ rest = [] := by
  rw [← here.add_size_eq, ← size_eq_zero_iff]
  omega

theorem advance_eq {rest : List Char} {bytes : UInt8 → Bool} {chars : Char → Bool}
    (here : IsAt text i rest) (agree : Agree bytes chars) :
    advance bytes text.toByteArray i = i + size (rest.takeWhile chars) := by
  obtain ⟨front, whole, rfl⟩ := here
  have encoded : text.toByteArray.data.toList =
      front.flatMap String.utf8EncodeChar ++ rest.flatMap String.utf8EncodeChar := by
    rw [← List.flatMap_append, ← whole, ← toList_toByteArray_ofList, String.ofList_toList]
  rw [Text.advance_eq, encoded, size, List.drop_left, agree.takeWhile, ← size, ← size]

theorem slice?_eq {piece rest : List Char} (here : IsAt text i (piece ++ rest)) :
    slice? text ⟨i, i + size piece⟩ = some (String.ofList piece) := by
  have start := here.isValid
  have stop := here.behind.isValid
  rw [slice?, dif_pos ⟨start, stop, Nat.le_add_right i _⟩, Option.some.injEq,
    ← String.toByteArray_inj, String.toByteArray_extract]
  obtain ⟨front, whole, rfl⟩ := here
  have encoded : text.toByteArray = (String.ofList front).toByteArray ++
      ((String.ofList piece).toByteArray ++ (String.ofList rest).toByteArray) := by
    rw [← String.toByteArray_append, ← String.toByteArray_append, ← String.ofList_append,
      ← String.ofList_append, ← whole, String.ofList_toList]
  change text.toByteArray.extract (size front + 0) (size front + size piece) = _
  rw [encoded, ← size_toByteArray_ofList, ← size_toByteArray_ofList,
    ByteArray.extract_append_size_add, ByteArray.extract_append_size_left,
    ByteArray.extract_zero_size]

end IsAt

end VersionRange.Text
