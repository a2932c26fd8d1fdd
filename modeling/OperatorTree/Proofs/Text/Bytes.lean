/-
# OperatorTree.Proofs.Text.Bytes -- bytes that are characters

A character of ASCII is one byte, and in the bytes of any other character none is of
ASCII.  So a byte of ASCII that is found in a text is a whole character of it
(`getElem?_bytes_eq_some_iff`), and the positions before and after it are
boundaries.

From this the two scans of bytes come to what they are on characters: counting
parentheses byte by byte finds the end of the group (`matchingParenthesis_cons`), and
the positions of an operator are those of the cuts (`filter_positions`).
-/
import OperatorTree.Proofs.Grammar.Level
import OperatorTree.Text.Bytes

namespace OperatorTree.Text

set_option autoImplicit false

variable {before after text left right : List Char} {c x : Char} {b : UInt8} {i : Nat}

/-! ## Sizes -/

theorem bytes_cons (c : Char) (text : List Char) :
    bytes (c :: text) = String.utf8EncodeChar c ++ bytes text := rfl

theorem bytes_append (left right : List Char) :
    bytes (left ++ right) = bytes left ++ bytes right :=
  List.flatMap_append

@[simp] theorem size_nil : size [] = 0 := rfl

@[simp] theorem size_cons (c : Char) (text : List Char) :
    size (c :: text) = c.utf8Size + size text := by
  simp [size, bytes_cons]

@[simp] theorem size_append (left right : List Char) :
    size (left ++ right) = size left + size right := by
  simp [size, bytes_append]

theorem length_le_size (text : List Char) : text.length ≤ size text := by
  induction text with
  | nil => exact Nat.le_refl 0
  | cons c text ih =>
      have := c.utf8Size_pos
      simp only [List.length_cons, size_cons]
      omega

/-! ## Parts -/

theorem splitBytes?_size (left right : List Char) :
    splitBytes? (size left) (left ++ right) = some (left, right) := by
  induction left with
  | nil => simp [splitBytes?]
  | cons c left ih =>
      obtain ⟨i, same⟩ : ∃ i, size (c :: left) = i + 1 :=
        Nat.exists_eq_add_one.2 (by have := c.utf8Size_pos; simp only [size_cons]; omega)
      have rest : i + 1 - c.utf8Size = size left := by
        simp only [size_cons] at same
        omega
      have fits : c.utf8Size ≤ i + 1 := by
        simp only [size_cons] at same
        omega
      rw [same, List.cons_append, splitBytes?, if_pos fits, rest, ih]
      rfl

theorem splitBytes?_eq_some_iff :
    splitBytes? i text = some (left, right) ↔ text = left ++ right ∧ size left = i := by
  constructor
  · intro split
    induction text generalizing i left with
    | nil =>
        cases i with
        | zero =>
            cases split
            exact ⟨rfl, rfl⟩
        | succ i => cases split
    | cons c text ih =>
        cases i with
        | zero =>
            cases split
            exact ⟨rfl, rfl⟩
        | succ i =>
            rw [splitBytes?] at split
            split at split
            · rename_i fits
              obtain ⟨⟨left', right'⟩, later, same⟩ := Option.map_eq_some_iff.1 split
              cases same
              obtain ⟨rfl, size⟩ := ih later
              exact ⟨rfl, by rw [size_cons, size]; omega⟩
            · cases split
  · rintro ⟨rfl, rfl⟩
    exact splitBytes?_size left right

/-- Between two boundaries there is a part, and nowhere else. -/
theorem slice?_eq_some_iff {start stop : Nat} {part : List Char} :
    slice? text start stop = some part ↔
      ∃ before after, text = before ++ part ++ after ∧ size before = start ∧
        start + size part = stop := by
  unfold slice?
  by_cases ordered : start ≤ stop
  · simp only [ordered, guard_true, Option.bind_eq_bind, Option.bind_eq_some_iff, Prod.exists,
      splitBytes?_eq_some_iff]
    constructor
    · rintro ⟨-, -, before, _, ⟨rfl, rfl⟩, _, after, ⟨rfl, size⟩, same⟩
      cases same
      exact ⟨before, after, by simp, rfl, by omega⟩
    · rintro ⟨before, after, rfl, rfl, rfl⟩
      exact ⟨(), rfl, before, part ++ after, ⟨by simp, rfl⟩, part, after, ⟨rfl, by omega⟩, rfl⟩
  · simp only [ordered, guard_false, Option.bind_eq_bind, Option.failure_eq_none,
      Option.bind_none, reduceCtorEq, false_iff]
    rintro ⟨before, after, -, -, rfl⟩
    omega

/-! ## Bytes of ASCII -/

theorem val_ofUInt8 : (Char.ofUInt8 b).val = b.toUInt32 := rfl

theorem ofUInt8_eq_iff (ascii : x.toNat < 128) : Char.ofUInt8 b = x ↔ b = x.toUInt8 := by
  constructor
  · rintro rfl
    simp [val_ofUInt8, Char.toUInt8]
  · rintro rfl
    apply Char.ext
    apply UInt32.toNat_inj.1
    have : x.val.toNat < 128 := ascii
    simp only [val_ofUInt8, Char.toUInt8, UInt8.toNat_toUInt32, UInt32.toNat_toUInt8]
    omega

theorem utf8EncodeChar_of_ascii (ascii : x.toNat < 128) :
    String.utf8EncodeChar x = [x.toUInt8] := by
  refine String.utf8EncodeChar_eq_singleton (Char.utf8Size_eq_one_iff.2 ?_)
  exact UInt32.le_iff_toNat_le.2 (Nat.le_of_lt_succ ascii)

/-- The bytes of a character that is not of ASCII are not of ASCII either. -/
theorem le_of_mem_utf8EncodeChar (high : 128 ≤ c.toNat) (member : b ∈ String.utf8EncodeChar c) :
    128 ≤ b.toNat := by
  -- Each byte is a remainder with 128, 192, 224 or 240 added to it.
  fun_cases String.utf8EncodeChar c
  case case1 low => exact absurd high (Nat.not_le.2 (Nat.lt_succ_of_le low))
  all_goals
    simp +zetaDelta only [String.utf8EncodeChar, *, ↓reduceIte, List.mem_cons, List.not_mem_nil,
      or_false] at member
  case case2 =>
    rcases member with rfl | rfl
    all_goals simp only [UInt8.toNat_ofNat']; omega
  case case3 =>
    rcases member with rfl | rfl | rfl
    all_goals simp only [UInt8.toNat_ofNat']; omega
  case case4 =>
    rcases member with rfl | rfl | rfl | rfl
    all_goals simp only [UInt8.toNat_ofNat']; omega

/-- A byte of ASCII is in the bytes of no other character than that one. -/
theorem eq_of_mem_utf8EncodeChar (ascii : x.toNat < 128)
    (member : x.toUInt8 ∈ String.utf8EncodeChar c) : c = x := by
  by_cases low : c.toNat < 128
  · rw [utf8EncodeChar_of_ascii low, List.mem_singleton] at member
    rw [← (ofUInt8_eq_iff low).2 rfl, ← (ofUInt8_eq_iff ascii).2 rfl, member]
  · have high := le_of_mem_utf8EncodeChar (Nat.not_lt.1 low) member
    have : x.val.toNat < 128 := ascii
    simp only [Char.toUInt8, UInt32.toNat_toUInt8] at high
    omega

/-- The byte at the start of a character reads as that character, if it is of ASCII,
and else as no character of ASCII. -/
theorem exists_getElem?_bytes (before : List Char) (c : Char) (after : List Char) :
    ∃ b, (bytes (before ++ c :: after))[size before]? = some b ∧
      ∀ x : Char, x.toNat < 128 → (Char.ofUInt8 b = x ↔ c = x) := by
  obtain ⟨b, bs, encoded⟩ : ∃ b bs, String.utf8EncodeChar c = b :: bs :=
    List.exists_cons_of_ne_nil (by simp)
  refine ⟨b, ?_, fun x ascii => ?_⟩
  · rw [bytes_append, bytes_cons, encoded, size, List.getElem?_append_right (Nat.le_refl _)]
    simp
  · rw [ofUInt8_eq_iff ascii]
    constructor
    · rintro rfl
      exact eq_of_mem_utf8EncodeChar ascii (encoded ▸ List.mem_cons_self)
    · rintro rfl
      rw [utf8EncodeChar_of_ascii ascii] at encoded
      cases encoded
      rfl

/-- Where the byte of a character of ASCII is, the character is. -/
theorem getElem?_bytes_eq_some_iff (ascii : x.toNat < 128) :
    (bytes text)[i]? = some x.toUInt8 ↔
      ∃ left right, text = left ++ x :: right ∧ size left = i := by
  constructor
  · intro here
    induction text generalizing i with
    | nil => simp [bytes] at here
    | cons c text ih =>
        rw [bytes_cons, List.getElem?_append] at here
        split at here
        · rename_i first
          obtain rfl := eq_of_mem_utf8EncodeChar ascii (List.mem_of_getElem? here)
          rw [utf8EncodeChar_of_ascii ascii, List.length_singleton] at first
          exact ⟨[], text, rfl, by simp only [size_nil]; omega⟩
        · rename_i later
          rw [String.length_utf8EncodeChar] at here later
          obtain ⟨left, right, rfl, size⟩ := ih here
          exact ⟨c :: left, right, rfl, by rw [size_cons, size]; omega⟩
  · rintro ⟨left, right, rfl, rfl⟩
    obtain ⟨b, here, reads⟩ := exists_getElem?_bytes left x right
    rw [here, (ofUInt8_eq_iff ascii).1 ((reads x ascii).2 rfl)]

/-! ## The closing parenthesis -/

section Matching

variable {depth : Nat}

/-- Bytes that are no parentheses are passed over. -/
theorem matchingFrom_append_of_forall {bs rest : List UInt8}
    (others : ∀ b ∈ bs, b ≠ '('.toUInt8 ∧ b ≠ ')'.toUInt8) :
    matchingFrom depth i (bs ++ rest) = matchingFrom depth (i + bs.length) rest := by
  induction bs generalizing i with
  | nil => rfl
  | cons b bs ih =>
      obtain ⟨notOpening, notClosing⟩ := others b List.mem_cons_self
      have later := ih (i := i + 1) fun b member => others b (List.mem_cons_of_mem _ member)
      simp only [List.cons_append, matchingFrom, if_neg notOpening, if_neg notClosing, later,
        List.length_cons]
      congr 1
      omega

theorem bytes_cons_of_ascii (ascii : x.toNat < 128) (text : List Char) :
    bytes (x :: text) = x.toUInt8 :: bytes text := by
  rw [bytes_cons, utf8EncodeChar_of_ascii ascii, List.singleton_append]

theorem utf8Size_of_ascii (ascii : x.toNat < 128) : x.utf8Size = 1 := by
  rw [← String.length_utf8EncodeChar, utf8EncodeChar_of_ascii ascii, List.length_singleton]

/-- Past one character more, the position is further by its bytes. -/
theorem map_add_size_map_cons (i : Nat) (c : Char) (cut : Option (List Char × List Char)) :
    ((cut.map fun (inner, rest) => (c :: inner, rest)).map fun (inner, _) => i + size inner) =
      cut.map fun (inner, _) => i + c.utf8Size + size inner := by
  cases cut with
  | none => rfl
  | some cut => simp [Nat.add_assoc]

/-- Counting bytes finds the parenthesis that counting characters finds. -/
theorem matchingFrom_bytes (depth i : Nat) (text : List Char) :
    matchingFrom (depth + 1) i (bytes text) =
      (closeFrom depth text).map fun (inner, _) => i + size inner := by
  have apart : ')'.toUInt8 ≠ '('.toUInt8 := by decide
  induction text generalizing depth i with
  | nil => rfl
  | cons c text ih =>
      by_cases closing : c = ')'
      · subst closing
        rw [bytes_cons_of_ascii (by decide)]
        cases depth with
        | zero => simp [matchingFrom, closeFrom, apart]
        | succ outer =>
            have step : matchingFrom (outer + 2) i (')'.toUInt8 :: bytes text) =
                matchingFrom (outer + 1) (i + 1) (bytes text) := by
              simp [matchingFrom, apart]
            rw [step, ih, closeFrom, if_pos rfl, map_add_size_map_cons,
              utf8Size_of_ascii (by decide)]
      · by_cases opening : c = '('
        · subst opening
          have step : matchingFrom (depth + 1) i ('('.toUInt8 :: bytes text) =
              matchingFrom (depth + 2) (i + 1) (bytes text) := by
            simp [matchingFrom]
          have cut : closeFrom depth ('(' :: text) =
              (closeFrom (depth + 1) text).map fun (inner, rest) => ('(' :: inner, rest) := by
            simp [closeFrom]
          rw [bytes_cons_of_ascii (by decide), step, ih, cut, map_add_size_map_cons,
            utf8Size_of_ascii (by decide)]
        · have others : ∀ b ∈ String.utf8EncodeChar c, b ≠ '('.toUInt8 ∧ b ≠ ')'.toUInt8 := by
            intro b member
            constructor
            · rintro rfl
              exact opening (eq_of_mem_utf8EncodeChar (by decide) member)
            · rintro rfl
              exact closing (eq_of_mem_utf8EncodeChar (by decide) member)
          rw [bytes_cons, matchingFrom_append_of_forall others, ih,
            Grammar.closeFrom_cons_of_ne opening closing, map_add_size_map_cons,
            String.length_utf8EncodeChar]

/-- The closing parenthesis of a text comes after the contents of its group. -/
theorem matchingParenthesis_cons (text : List Char) :
    matchingParenthesis ('(' :: text) =
      (group? ('(' :: text)).map fun (inner, _) => size inner + 1 := by
  have step : matchingFrom 0 0 ('('.toUInt8 :: bytes text) = matchingFrom 1 1 (bytes text) := by
    simp [matchingFrom]
  rw [matchingParenthesis, bytes_cons_of_ascii (by decide), step, matchingFrom_bytes, group?]
  simp only [Nat.add_comm]

end Matching

/-! ## The positions of an operator -/

/-- Longer parts from the start have more bytes. -/
theorem size_lt_of_length_lt {left' right' : List Char} (same : left ++ right = left' ++ right')
    (shorter : left.length < left'.length) : size left < size left' := by
  have part : left <+: left' :=
    List.prefix_of_prefix_length_le ⟨right, same⟩ ⟨right', rfl⟩ (Nat.le_of_lt shorter)
  obtain ⟨more, rfl⟩ := part
  have := length_le_size more
  simp only [List.length_append, size_append] at *
  omega

theorem getElem?_bytes_inside (after : List Char) (low : size before ≤ i)
    (high : i < size before + size text) :
    (bytes (before ++ text ++ after))[i]? = (bytes text)[i - size before]? := by
  rw [bytes_append, List.getElem?_append_left, bytes_append, List.getElem?_append_right low]
  · rfl
  · rw [bytes_append, List.length_append]
    exact high

/-- **The bytes of a symbol inside a text are where the text can be cut.** -/
theorem filter_positions (ascii : x.toNat < 128) (before text after : List Char) :
    ((List.range' (size before + 1) (size before + size text - 1 - (size before + 1))).filter
      fun i => (bytes (before ++ text ++ after))[i]? = some x.toUInt8) =
    (Grammar.cuts x text).map fun cut => size before + size cut.1 := by
  have sorted :
      ((Grammar.cuts x text).map fun cut => size before + size cut.1).Pairwise (· < ·) := by
    rw [List.pairwise_map]
    refine (Grammar.pairwise_cuts x text).imp_of_mem ?_
    rintro ⟨left, right⟩ ⟨left', right'⟩ member member' shorter
    have same := (Grammar.mem_cuts.1 member).1.symm.trans (Grammar.mem_cuts.1 member').1
    exact Nat.add_lt_add_left (size_lt_of_length_lt same shorter) _
  refine List.Pairwise.eq_of_mem_iff ((List.pairwise_lt_range' 1).filter _) sorted fun i => ?_
  simp only [List.mem_filter, List.mem_range'_1, decide_eq_true_eq, List.mem_map, Prod.exists]
  constructor
  · rintro ⟨⟨low, high⟩, here⟩
    rw [getElem?_bytes_inside after (by omega) (by omega)] at here
    obtain ⟨left, right, rfl, size⟩ := (getElem?_bytes_eq_some_iff ascii).1 here
    refine ⟨left, right, Grammar.mem_cuts.2 ⟨rfl, ?_, ?_⟩, by omega⟩
    · rintro rfl
      rw [size_nil] at size
      omega
    · rintro rfl
      simp [utf8Size_of_ascii ascii, size] at high
      omega
  · rintro ⟨left, right, member, rfl⟩
    obtain ⟨rfl, someLeft, someRight⟩ := Grammar.mem_cuts.1 member
    have := length_le_size left
    have := length_le_size right
    have := List.length_pos_iff.2 someLeft
    have := List.length_pos_iff.2 someRight
    refine ⟨?_, (getElem?_bytes_eq_some_iff ascii).2
      ⟨before ++ left, right ++ after, by simp, by simp⟩⟩
    simp only [size_append, size_cons, utf8Size_of_ascii ascii]
    omega

end OperatorTree.Text
