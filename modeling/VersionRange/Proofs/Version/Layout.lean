import VersionRange.Version.Layout

/-! Pieces and texts.

Cutting a text into its pieces and writing the pieces one after another are
inverse to each other, as long as no mark stands inside a piece that ends at it.
-/

set_option autoImplicit false

namespace VersionRange

namespace Text

theorem not_mem_of_all {text : List Char} {allowed : Char → Bool} {mark : Char}
    (all : text.all allowed) (excluded : allowed mark = false) : mark ∉ text := by
  intro member
  have inside := List.all_eq_true.mp all mark member
  rw [excluded] at inside
  contradiction

theorem all_mono {text : List Char} {inner outer : Char → Bool} (all : text.all inner)
    (step : ∀ c, inner c → outer c) : text.all outer := by
  rw [List.all_eq_true] at all ⊢
  exact fun c member => step c (all c member)

theorem cut_fst (mark : Char) (text : List Char) :
    (cut mark text).1 = text.takeWhile (· != mark) := by
  unfold cut
  split
  · next dropped =>
    have whole := List.takeWhile_append_dropWhile (p := (· != mark)) (l := text)
    rw [dropped, List.append_nil] at whole
    exact whole.symm
  · rfl

def behind (mark : Char) : Option (List Char) → List Char
  | none => []
  | some rest => mark :: rest

theorem cut_append_behind (mark : Char) (text : List Char) :
    (cut mark text).1 ++ behind mark (cut mark text).2 = text := by
  unfold cut
  split
  · simp [behind]
  · next head rest dropped =>
    -- what a longest run leaves over starts with the mark itself
    have marked : (head != mark) = false := by
      have first := List.head?_dropWhile_not (· != mark) text
      rw [dropped] at first
      simpa using first
    have same : head = mark := by simpa using marked
    subst same
    have whole := List.takeWhile_append_dropWhile (p := (· != head)) (l := text)
    rwa [dropped] at whole

theorem cut_behind {mark : Char} {front : List Char} (absent : mark ∉ front)
    (rest : Option (List Char)) : cut mark (front ++ behind mark rest) = (front, rest) := by
  cases rest with
  | none => rw [behind, List.append_nil, cut_of_not_mem absent]
  | some rest => rw [behind, cut_append absent]

end Text

namespace Layout

def text (layout : Layout) : List Char :=
  layout.numbers ++ Text.behind '-' layout.suffix ++ Text.behind '+' layout.build

theorem text_ofText (text : List Char) : (ofText text).text = text := by
  simp only [ofText, Layout.text, Text.cut_append_behind]

theorem ofText_text {layout : Layout} (bare : '+' ∉ layout.numbers)
    (hyphenless : '-' ∉ layout.numbers) (suffix : ∀ piece ∈ layout.suffix, '+' ∉ piece) :
    ofText layout.text = layout := by
  -- the plus is looked for first, so the suffix must not hold one
  have front : '+' ∉ layout.numbers ++ Text.behind '-' layout.suffix := by
    intro member
    rcases List.mem_append.mp member with member | member
    · exact bare member
    · cases written : layout.suffix with
      | none => simp [written, Text.behind] at member
      | some piece =>
        simp only [written, Text.behind, List.mem_cons] at member
        rcases member with same | member
        · contradiction
        · exact suffix piece written member
  simp only [ofText, Layout.text, Text.cut_behind front, Text.cut_behind hyphenless]

theorem front_ofText (text : List Char) :
    (ofText text).numbers ++ Text.behind '-' (ofText text).suffix = text.takeWhile (· != '+') := by
  rw [ofText]
  dsimp only
  rw [Text.cut_append_behind, Text.cut_fst]

theorem plus_not_mem_front (text : List Char) :
    '+' ∉ (ofText text).numbers ++ Text.behind '-' (ofText text).suffix := by
  rw [front_ofText]
  exact Text.not_mem_of_all List.all_takeWhile (by decide)

theorem hyphen_not_mem_numbers (text : List Char) : '-' ∉ (ofText text).numbers := by
  simp only [ofText, Text.cut_fst]
  exact Text.not_mem_of_all List.all_takeWhile (by decide)

theorem ofText_text_ofText {text numbers : List Char} (bare : '+' ∉ numbers)
    (hyphenless : '-' ∉ numbers) :
    ofText { ofText text with numbers := numbers }.text = { ofText text with numbers := numbers } := by
  apply ofText_text bare hyphenless
  intro piece written member
  apply plus_not_mem_front text
  apply List.mem_append_right
  have suffix : (ofText text).suffix = some piece := written
  rw [suffix]
  exact List.mem_cons_of_mem _ member

theorem isTokenChar_of_isDigit {c : Char} (digit : c.isDigit) : isTokenChar c := by
  simp [isTokenChar, Char.isAlphanum, digit]

theorem isToken_of_isNumeral {token : List Char} (numeral : Text.isNumeral token) :
    isToken token := by
  simp only [Text.isNumeral, Bool.and_eq_true] at numeral
  simp only [isToken, Bool.and_eq_true]
  exact ⟨numeral.1, Text.all_mono numeral.2 fun _ digit => isTokenChar_of_isDigit digit⟩

theorem all_isTokenChar {token : List Char} (form : isToken token) : token.all isTokenChar := by
  simp only [isToken, Bool.and_eq_true] at form
  exact form.2

theorem tokens_intercalate {pieces : List (List Char)} (nonempty : pieces ≠ [])
    (forms : ∀ token ∈ pieces, isToken token) : tokens (['.'].intercalate pieces) = pieces := by
  refine List.splitOn_intercalate '.' ?_ nonempty
  intro token member
  exact Text.not_mem_of_all (all_isTokenChar (forms token member)) (by decide)

theorem intercalate_tokens (piece : List Char) : ['.'].intercalate (tokens piece) = piece :=
  List.intercalate_splitOn '.'

theorem tokens_ne_nil (piece : List Char) : tokens piece ≠ [] :=
  List.splitOn_ne_nil '.' piece

theorem prefix_intercalate (first : List Char) (others : List (List Char)) :
    first <+: ['.'].intercalate (first :: others) := by
  cases others with
  | nil => simp
  | cons second others =>
    rw [List.intercalate_cons_cons, List.append_assoc]
    exact List.prefix_append ..

theorem all_intercalate {pieces : List (List Char)} {allowed : Char → Bool} (dot : allowed '.')
    (forms : ∀ token ∈ pieces, token.all allowed) : (['.'].intercalate pieces).all allowed := by
  induction pieces with
  | nil => rfl
  | cons first rest ih =>
    have restForms := ih fun token member => forms token (List.mem_cons_of_mem first member)
    cases rest with
    | nil => simpa using forms first
    | cons second rest =>
      rw [List.intercalate_cons_cons, List.all_append, List.all_append, forms first (by simp),
        restForms]
      simp [dot]

def isPieceChar (c : Char) : Bool :=
  isTokenChar c || c == '.'

theorem all_isPieceChar {pieces : List (List Char)} (forms : ∀ token ∈ pieces, isToken token) :
    (['.'].intercalate pieces).all isPieceChar := by
  apply all_intercalate rfl
  intro token member
  apply Text.all_mono (all_isTokenChar (forms token member))
  intro c inside
  simp [isPieceChar, inside]

end Layout

end VersionRange
