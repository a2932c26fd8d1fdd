/-
# OperatorTree.Proofs.Text.Matching -- where the count of parentheses ends

`matchingParenthesis` goes along the bytes of a text and keeps the number of parentheses
that are open.  As long as one of them stays open (`StaysOpen`), the count goes on, and
what it keeps is the difference of the numbers so far (`checkedFrom_append`).  Bytes stay
open to their end, or up to the one closing parenthesis that closes the last
(`staysOpen_or_exists_close`).  There the count ends, and so it ends where the numbers are
equal for the first time (`ClosesAt`).

At a closing parenthesis one is taken from the number.  `checkedFrom` is the count that
tells an end of the text from a number that is zero already, and in a text that begins
with a parenthesis the second never comes about.
-/
import OperatorTree.Proofs.Text.Brackets
import OperatorTree.Proofs.Text.Bytes

namespace OperatorTree.Text

set_option autoImplicit false

variable {bs before : List UInt8} {depth i : Nat}

/-! ## The count, step by step -/

/-- The count of parentheses, with no outcome at all where one is to be closed and none is
open. -/
def checkedFrom (depth i : Nat) : List UInt8 → Option (Option Nat)
  | [] => some none
  | b :: rest =>
    if b = '('.toUInt8 then checkedFrom (depth + 1) (i + 1) rest
    else if b = ')'.toUInt8 then
      match depth with
      | 0 => none
      | outer + 1 => if outer = 0 then some (some i) else checkedFrom outer (i + 1) rest
    else checkedFrom depth (i + 1) rest

theorem closing_ne_opening : ')'.toUInt8 ≠ '('.toUInt8 := by decide

/-- The count that is made finds nothing in either case. -/
theorem join_checkedFrom (depth i : Nat) (bs : List UInt8) :
    (checkedFrom depth i bs).join = matchingFrom depth i bs := by
  induction bs generalizing depth i with
  | nil => rfl
  | cons b bs ih =>
      by_cases opening : b = '('.toUInt8
      · simp [checkedFrom, matchingFrom, opening, ih]
      · by_cases closing : b = ')'.toUInt8
        · cases depth with
          | zero => simp [checkedFrom, matchingFrom, closing, closing_ne_opening]
          | succ outer =>
              by_cases last : outer = 0
              · simp [checkedFrom, matchingFrom, closing, closing_ne_opening, last]
              · simp [checkedFrom, matchingFrom, closing, closing_ne_opening, last, ih]
        · simp [checkedFrom, matchingFrom, opening, closing, ih]

section Steps

variable {b : UInt8} (rest : List UInt8)

theorem checkedFrom_opening :
    checkedFrom depth i ('('.toUInt8 :: rest) = checkedFrom (depth + 1) (i + 1) rest := by
  simp [checkedFrom]

theorem checkedFrom_last : checkedFrom 1 i (')'.toUInt8 :: rest) = some (some i) := by
  simp [checkedFrom, closing_ne_opening]

theorem checkedFrom_closing (outer : Nat) :
    checkedFrom (outer + 2) i (')'.toUInt8 :: rest) = checkedFrom (outer + 1) (i + 1) rest := by
  simp [checkedFrom, closing_ne_opening]

theorem checkedFrom_other (notOpening : b ≠ '('.toUInt8) (notClosing : b ≠ ')'.toUInt8) :
    checkedFrom depth i (b :: rest) = checkedFrom depth (i + 1) rest := by
  simp [checkedFrom, notOpening, notClosing]

theorem count_append_opening (bs : List UInt8) :
    (bs ++ ['('.toUInt8]).count '('.toUInt8 = bs.count '('.toUInt8 + 1 ∧
      (bs ++ ['('.toUInt8]).count ')'.toUInt8 = bs.count ')'.toUInt8 := by
  simp [List.count_append, List.count_cons_of_ne closing_ne_opening.symm]

theorem count_append_closing (bs : List UInt8) :
    (bs ++ [')'.toUInt8]).count '('.toUInt8 = bs.count '('.toUInt8 ∧
      (bs ++ [')'.toUInt8]).count ')'.toUInt8 = bs.count ')'.toUInt8 + 1 := by
  simp [List.count_append, List.count_cons_of_ne closing_ne_opening]

theorem count_append_other (notOpening : b ≠ '('.toUInt8) (notClosing : b ≠ ')'.toUInt8)
    (bs : List UInt8) :
    (bs ++ [b]).count '('.toUInt8 = bs.count '('.toUInt8 ∧
      (bs ++ [b]).count ')'.toUInt8 = bs.count ')'.toUInt8 := by
  simp [List.count_append, List.count_cons_of_ne notOpening, List.count_cons_of_ne notClosing]

end Steps

/-! ## As long as a parenthesis is open -/

/-- Of `depth` open parentheses, and those that are opened on the way, one is open
throughout. -/
def StaysOpen (depth : Nat) (bs : List UInt8) : Prop :=
  ∀ p, p <+: bs → p.count ')'.toUInt8 < depth + p.count '('.toUInt8

theorem staysOpen_nil_iff : StaysOpen depth [] ↔ 0 < depth := by
  simp [StaysOpen]

theorem StaysOpen.count_lt (stays : StaysOpen depth bs) :
    bs.count ')'.toUInt8 < depth + bs.count '('.toUInt8 :=
  stays bs (List.prefix_refl bs)

theorem staysOpen_concat_iff {b : UInt8} :
    StaysOpen depth (bs ++ [b]) ↔ StaysOpen depth bs ∧
      (bs ++ [b]).count ')'.toUInt8 < depth + (bs ++ [b]).count '('.toUInt8 := by
  simp only [StaysOpen, List.prefix_concat_iff, forall_eq_or_imp]
  exact and_comm

/-- Bytes that stay open are passed over, and the number that is kept is the difference. -/
theorem checkedFrom_append (stays : StaysOpen depth before) (rest : List UInt8) :
    checkedFrom depth i (before ++ rest) =
      checkedFrom (depth + before.count '('.toUInt8 - before.count ')'.toUInt8)
        (i + before.length) rest := by
  induction before using List.reverseRecOn generalizing rest with
  | nil => simp
  | append_singleton bs b ih =>
      obtain ⟨shorter, whole⟩ := staysOpen_concat_iff.1 stays
      have := shorter.count_lt
      rw [List.append_assoc, List.singleton_append, ih shorter, List.length_append,
        List.length_singleton, ← Nat.add_assoc]
      by_cases opening : b = '('.toUInt8
      · subst opening
        obtain ⟨opens, closes⟩ := count_append_opening bs
        rw [checkedFrom_opening, opens, closes]
        congr 1
        omega
      · by_cases closing : b = ')'.toUInt8
        · subst closing
          obtain ⟨opens, closes⟩ := count_append_closing bs
          rw [opens, closes] at whole ⊢
          obtain ⟨outer, kept⟩ : ∃ outer, depth + bs.count '('.toUInt8 - bs.count ')'.toUInt8 =
              outer + 2 := Nat.exists_eq_add_of_le' (by omega)
          rw [kept, checkedFrom_closing]
          congr 1
          omega
        · obtain ⟨opens, closes⟩ := count_append_other opening closing bs
          rw [checkedFrom_other rest opening closing, opens, closes]

/-- Bytes stay open to the end, or up to the parenthesis that closes the last one. -/
theorem staysOpen_or_exists_close (some : 0 < depth) (bs : List UInt8) :
    StaysOpen depth bs ∨ ∃ before after, bs = before ++ ')'.toUInt8 :: after ∧
      StaysOpen depth before ∧
        before.count ')'.toUInt8 + 1 = depth + before.count '('.toUInt8 := by
  induction bs using List.reverseRecOn with
  | nil => exact .inl (staysOpen_nil_iff.2 some)
  | append_singleton bs b ih =>
      rcases ih with stays | ⟨before, after, rfl, stays, last⟩
      · by_cases whole : (bs ++ [b]).count ')'.toUInt8 < depth + (bs ++ [b]).count '('.toUInt8
        · exact .inl (staysOpen_concat_iff.2 ⟨stays, whole⟩)
        · have := stays.count_lt
          by_cases closing : b = ')'.toUInt8
          · subst closing
            obtain ⟨opens, closes⟩ := count_append_closing bs
            rw [opens, closes] at whole
            exact .inr ⟨bs, [], rfl, stays, by omega⟩
          · have : (bs ++ [b]).count ')'.toUInt8 = bs.count ')'.toUInt8 := by
              simp [List.count_append, List.count_cons_of_ne closing]
            have : bs.count '('.toUInt8 ≤ (bs ++ [b]).count '('.toUInt8 := by
              simp [List.count_append]
            omega
      · exact .inr ⟨before, after ++ [b], by simp, stays, last⟩

theorem checkedFrom_of_staysOpen (stays : StaysOpen depth bs) :
    checkedFrom depth i bs = some none := by
  have passed := checkedFrom_append (i := i) stays []
  rwa [List.append_nil] at passed

theorem checkedFrom_of_close (stays : StaysOpen depth before)
    (last : before.count ')'.toUInt8 + 1 = depth + before.count '('.toUInt8)
    (after : List UInt8) :
    checkedFrom depth i (before ++ ')'.toUInt8 :: after) = some (some (i + before.length)) := by
  have one : depth + before.count '('.toUInt8 - before.count ')'.toUInt8 = 1 := by omega
  rw [checkedFrom_append stays, one, checkedFrom_last]

/-! ## Where the count ends -/

/-- At the position a closing parenthesis stands.  With it as many are closed as opened, and
in each shorter part from the start, the empty one aside, fewer. -/
structure ClosesAt (bs : List UInt8) (i : Nat) : Prop where
  closing : bs[i]? = some ')'.toUInt8
  total : (bs.take (i + 1)).count ')'.toUInt8 = (bs.take (i + 1)).count '('.toUInt8
  part : ∀ p, p <+: bs.take (i + 1) → p ≠ [] → p ≠ bs.take (i + 1) →
    p.count ')'.toUInt8 < p.count '('.toUInt8

/-- After a parenthesis has been opened, one is open as long as there are more opened than
closed. -/
theorem staysOpen_one_iff :
    StaysOpen 1 bs ↔ ∀ p, p <+: '('.toUInt8 :: bs → p ≠ [] →
      p.count ')'.toUInt8 < p.count '('.toUInt8 := by
  constructor
  · intro stays p pre some
    rcases List.prefix_cons_iff.1 pre with rfl | ⟨q, rfl, within⟩
    · exact absurd rfl some
    · have := stays q within
      rw [List.count_cons_self, List.count_cons_of_ne closing_ne_opening.symm]
      omega
  · intro more q within
    have := more ('('.toUInt8 :: q) (List.cons_prefix_cons.2 ⟨rfl, within⟩) (List.cons_ne_nil _ _)
    rw [List.count_cons_self, List.count_cons_of_ne closing_ne_opening.symm] at this
    omega

theorem closesAt_iff :
    ClosesAt ('('.toUInt8 :: bs) i ↔ ∃ before after, bs = before ++ ')'.toUInt8 :: after ∧
      before.length + 1 = i ∧ StaysOpen 1 before ∧
        before.count ')'.toUInt8 = before.count '('.toUInt8 := by
  constructor
  · intro closes
    cases i with
    | zero =>
        have := closes.closing
        exact absurd (Option.some.inj this).symm closing_ne_opening
    | succ j =>
        have here : bs[j]? = some ')'.toUInt8 := by simpa using closes.closing
        obtain ⟨inside, here⟩ := List.getElem?_eq_some_iff.1 here
        have whole : bs.take (j + 1) = bs.take j ++ [')'.toUInt8] := by
          rw [← here, List.take_concat_get']
        refine ⟨bs.take j, bs.drop (j + 1), ?_, ?_, staysOpen_one_iff.2 fun p pre some => ?_, ?_⟩
        · rw [← here, List.getElem_cons_drop, List.take_append_drop]
        · simp [Nat.le_of_lt inside]
        · refine closes.part p ?_ some ?_
          · rw [List.take_succ_cons, whole, ← List.cons_append]
            exact pre.trans (List.prefix_append _ _)
          · rintro rfl
            have := pre.length_le
            simp at this
            omega
        · have total := closes.total
          rw [List.take_succ_cons, whole, ← List.cons_append] at total
          obtain ⟨opens, shut⟩ := count_append_closing ('('.toUInt8 :: bs.take j)
          rw [opens, shut, List.count_cons_self,
            List.count_cons_of_ne closing_ne_opening.symm] at total
          omega
  · rintro ⟨before, after, rfl, rfl, stays, same⟩
    have whole : ('('.toUInt8 :: (before ++ ')'.toUInt8 :: after)).take (before.length + 1 + 1) =
        '('.toUInt8 :: before ++ [')'.toUInt8] := by
      simp [List.take_append]
    refine ⟨by simp, ?_, fun p pre some proper => ?_⟩
    · obtain ⟨opens, shut⟩ := count_append_closing ('('.toUInt8 :: before)
      rw [whole, opens, shut, List.count_cons_self,
        List.count_cons_of_ne closing_ne_opening.symm, same]
    · rw [whole] at pre proper
      rcases List.prefix_concat_iff.1 pre with same | shorter
      · exact absurd same proper
      · exact staysOpen_one_iff.1 stays p shorter some

theorem staysOpen_or_exists_closesAt (bs : List UInt8) :
    StaysOpen 1 bs ∨ ∃ i, ClosesAt ('('.toUInt8 :: bs) i := by
  rcases staysOpen_or_exists_close Nat.one_pos bs with stays | ⟨before, after, whole, stays, last⟩
  · exact .inl stays
  · exact .inr ⟨before.length + 1, closesAt_iff.2 ⟨before, after, whole, rfl, stays, by omega⟩⟩

theorem checkedFrom_of_staysOpen_one (stays : StaysOpen 1 bs) :
    checkedFrom 0 0 ('('.toUInt8 :: bs) = some none := by
  rw [checkedFrom_opening, checkedFrom_of_staysOpen stays]

theorem checkedFrom_of_closesAt (closes : ClosesAt ('('.toUInt8 :: bs) i) :
    checkedFrom 0 0 ('('.toUInt8 :: bs) = some (some i) := by
  obtain ⟨before, after, rfl, rfl, stays, same⟩ := closesAt_iff.1 closes
  rw [checkedFrom_opening, checkedFrom_of_close stays (by omega) after, Nat.add_comm]

/-- After an opening parenthesis, one is never closed where none is open. -/
theorem checkedFrom_eq_some (bs : List UInt8) :
    checkedFrom 0 0 ('('.toUInt8 :: bs) = some (matchingFrom 0 0 ('('.toUInt8 :: bs)) := by
  rw [← join_checkedFrom]
  rcases staysOpen_or_exists_closesAt bs with stays | ⟨i, closes⟩
  · rw [checkedFrom_of_staysOpen_one stays]
    rfl
  · rw [checkedFrom_of_closesAt closes]
    rfl

theorem matchingFrom_eq_some_iff :
    matchingFrom 0 0 ('('.toUInt8 :: bs) = some i ↔ ClosesAt ('('.toUInt8 :: bs) i := by
  rw [← join_checkedFrom]
  constructor
  · intro found
    rcases staysOpen_or_exists_closesAt bs with stays | ⟨j, closes⟩
    · rw [checkedFrom_of_staysOpen_one stays] at found
      cases found
    · rw [checkedFrom_of_closesAt closes] at found
      cases found
      exact closes
  · intro closes
    rw [checkedFrom_of_closesAt closes]
    rfl

theorem matchingFrom_eq_none_iff :
    matchingFrom 0 0 ('('.toUInt8 :: bs) = none ↔ StaysOpen 1 bs := by
  rw [← join_checkedFrom]
  constructor
  · intro nothing
    rcases staysOpen_or_exists_closesAt bs with stays | ⟨j, closes⟩
    · exact stays
    · rw [checkedFrom_of_closesAt closes] at nothing
      cases nothing
  · intro stays
    rw [checkedFrom_of_staysOpen_one stays]
    rfl

/-- The place depends on the bytes up to it only. -/
theorem ClosesAt.extend {bs' : List UInt8} (closes : ClosesAt bs i)
    (same : bs.take (i + 1) <+: bs') : ClosesAt bs' i := by
  obtain ⟨inside, -⟩ := List.getElem?_eq_some_iff.1 closes.closing
  have whole : bs'.take (i + 1) = bs.take (i + 1) := by
    obtain ⟨after, rfl⟩ := same
    exact List.take_left' (by simp; omega)
  refine ⟨?_, whole ▸ closes.total, whole ▸ closes.part⟩
  rw [← List.getElem?_take_of_lt (Nat.lt_succ_self i), whole,
    List.getElem?_take_of_lt (Nat.lt_succ_self i), closes.closing]

/-! ## Characters -/

section Characters

variable {text inner rest : List Char} {x : Char}

theorem count_bytes (ascii : x.toNat < 128) (text : List Char) :
    (bytes text).count x.toUInt8 = text.count x := by
  induction text with
  | nil => rfl
  | cons c text ih =>
      rw [bytes_cons, List.count_append, ih, Nat.add_comm]
      by_cases same : c = x
      · subst same
        rw [utf8EncodeChar_of_ascii ascii, List.count_singleton_self, List.count_cons_self]
      · have none : (String.utf8EncodeChar c).count x.toUInt8 = 0 :=
          List.count_eq_zero.2 fun member => same (eq_of_mem_utf8EncodeChar ascii member)
        rw [none, List.count_cons_of_ne same, Nat.add_zero]

theorem bytes_ne_nil (some : text ≠ []) : bytes text ≠ [] := by
  intro none
  have := length_le_size text
  have := List.length_pos_iff.2 some
  rw [size, none, List.length_nil] at *
  omega

theorem isPrefix_bytes {p : List Char} (pre : p <+: text) : bytes p <+: bytes text := by
  obtain ⟨after, rfl⟩ := pre
  exact ⟨bytes after, (bytes_append p after).symm⟩

theorem closes_zero_iff_enclosed : Closes 0 inner ↔ Enclosed ('(' :: inner ++ [')']) := by
  refine ⟨Closes.enclosed, fun enclosed => ⟨?_, fun p within => ?_⟩⟩
  · simpa using enclosed.total
  · have proper : '(' :: p ≠ '(' :: inner ++ [')'] := by
      intro same
      have := within.length_le
      have := congrArg List.length same
      simp at this
      omega
    have := enclosed.part ('(' :: p)
      (List.cons_prefix_cons.2 ⟨rfl, within.trans (List.prefix_append _ _)⟩)
      (List.cons_ne_nil _ _) proper
    simp at this
    omega

theorem matchingParenthesis_eq_some_iff (tail : List Char) :
    matchingParenthesis ('(' :: tail) = some i ↔ ∃ inner rest, tail = inner ++ ')' :: rest ∧
      size inner + 1 = i ∧ Enclosed ('(' :: inner ++ [')']) := by
  simp only [matchingParenthesis_cons, group?, Option.map_eq_some_iff, Prod.exists,
    closeFrom_eq_some_iff, closes_zero_iff_enclosed]
  constructor
  · rintro ⟨inner, rest, ⟨whole, enclosed⟩, place⟩
    exact ⟨inner, rest, whole, place, enclosed⟩
  · rintro ⟨inner, rest, whole, place, enclosed⟩
    exact ⟨inner, rest, ⟨whole, enclosed⟩, place⟩

theorem matchingParenthesis_eq_none_iff (tail : List Char) :
    matchingParenthesis ('(' :: tail) = none ↔
      ∀ p, p <+: '(' :: tail → p ≠ [] → p.count ')' < p.count '(' := by
  constructor
  · intro nothing p pre some
    rw [matchingParenthesis, bytes_cons_of_ascii (by decide), matchingFrom_eq_none_iff,
      staysOpen_one_iff, ← bytes_cons_of_ascii (by decide)] at nothing
    have := nothing (bytes p) (isPrefix_bytes pre) (bytes_ne_nil some)
    rwa [count_bytes (by decide), count_bytes (by decide)] at this
  · intro more
    rw [Option.eq_none_iff_forall_ne_some]
    intro i found
    obtain ⟨inner, rest, rfl, -, enclosed⟩ := (matchingParenthesis_eq_some_iff tail).1 found
    have := more ('(' :: inner ++ [')']) ⟨rest, by simp⟩ (by simp)
    rw [enclosed.total] at this
    exact Nat.lt_irrefl _ this

end Characters

/-! ## The main result -/

/-- **The count finds the parenthesis that belongs to the first one.**  In a text that begins
with an opening parenthesis the answer is the position of a closing one that makes the
numbers of both equal, with more of the opening ones in every shorter part of the text from
the start; and there is no answer just when there are more of them in all parts.  This is so
for parts that are counted in bytes, and for parts that are made of whole characters.  There is
always one to take from the number of open parentheses where one is closed.  An answer stands
for every text that goes on in another way behind it. -/
theorem matchingParenthesis_matches (tail : List Char) :
    let text := '(' :: tail
    (∀ i, matchingParenthesis text = some i ↔ ClosesAt (bytes text) i) ∧
    (matchingParenthesis text = none ↔ ∀ p, p <+: bytes text → p ≠ [] →
      p.count ')'.toUInt8 < p.count '('.toUInt8) ∧
    (∀ i, matchingParenthesis text = some i ↔ ∃ inner rest,
      text = ('(' :: inner ++ [')']) ++ rest ∧ size ('(' :: inner) = i ∧
        Enclosed ('(' :: inner ++ [')'])) ∧
    (matchingParenthesis text = none ↔ ∀ p, p <+: text → p ≠ [] → p.count ')' < p.count '(') ∧
    (∀ depth i bs, matchingFrom depth i bs = (checkedFrom depth i bs).join) ∧
    checkedFrom 0 0 (bytes text) = some (matchingParenthesis text) ∧
    ∀ i, matchingParenthesis text = some i →
      (∀ more, matchingParenthesis (text ++ more) = some i) ∧
      ∀ text', (bytes text).take (i + 1) <+: bytes text' → matchingParenthesis text' = some i := by
  intro text
  have encoded : bytes text = '('.toUInt8 :: bytes tail := bytes_cons_of_ascii (by decide) tail
  have places : ∀ i, matchingParenthesis text = some i ↔ ClosesAt (bytes text) i := fun i => by
    rw [matchingParenthesis, encoded, matchingFrom_eq_some_iff]
  have behind : ∀ i text', matchingParenthesis text = some i →
      (bytes text).take (i + 1) <+: bytes text' → matchingParenthesis text' = some i := by
    intro i text' found same
    obtain ⟨after, encoded'⟩ := same
    rw [encoded, List.take_succ_cons, List.cons_append] at encoded'
    rw [matchingParenthesis, ← encoded', matchingFrom_eq_some_iff, encoded']
    exact ((places i).1 found).extend ⟨after, by rw [encoded, ← encoded']; simp⟩
  refine ⟨places, ?_, fun i => ?_, matchingParenthesis_eq_none_iff tail,
    fun depth i bs => (join_checkedFrom depth i bs).symm, ?_, fun i found => ⟨fun more => ?_,
      fun text' same => behind i text' found same⟩⟩
  · rw [matchingParenthesis, encoded, matchingFrom_eq_none_iff, staysOpen_one_iff]
  · have one : '('.utf8Size = 1 := utf8Size_of_ascii (by decide)
    simp [text, matchingParenthesis_eq_some_iff, one, Nat.add_comm]
  · rw [matchingParenthesis, encoded, checkedFrom_eq_some]
  · refine behind i _ found ((List.take_prefix _ _).trans ?_)
    rw [bytes_append]
    exact List.prefix_append _ _

/-- A group with a group in it, whose first literal takes two bytes, and another group. -/
theorem matchingParenthesis_matches_in_product :
    let text := ['(', 'é', '*', '(', 'b', ')', ')', '*', '(', 'c', ')']
    matchingParenthesis text = some 7 ∧ ClosesAt (bytes text) 7 ∧
      matchingParenthesis (text ++ [')', '(']) = some 7 ∧
      (bytes text).take 8 <+: bytes (text.take 7 ++ ['+', 'd']) ∧
      matchingParenthesis (text.take 7 ++ ['+', 'd']) = some 7 := by
  intro text
  have found : matchingParenthesis text = some 7 := by decide
  obtain ⟨places, -, -, -, -, -, behind⟩ := matchingParenthesis_matches text.tail
  have same : (bytes text).take 8 <+: bytes (text.take 7 ++ ['+', 'd']) := by decide
  exact ⟨found, (places 7).1 found, (behind 7 found).1 _, same, (behind 7 found).2 _ same⟩

end OperatorTree.Text
