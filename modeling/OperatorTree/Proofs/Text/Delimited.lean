/-
# OperatorTree.Proofs.Text.Delimited -- writing that can be read back

A way of writing is self-delimiting when what was written can be told, and told apart
from whatever stands behind it (`SelfDelimiting`).  Then different values are written
differently, and this carries over to what is composed of such parts.

Quoted text is self-delimiting (`selfDelimiting_quoted`).  A character is written
either as itself, and then it is no quote and no backslash; or as a backslash with one
of six letters; or as a backslash, the letter `u` and hexadecimal digits between braces
(`escape_cases`).  None of these begins with a quote, and each shows where it ends, so
the quote that closes the text is found.
-/
import Mathlib.Data.List.Basic
import OperatorTree.Text.Quoted

namespace OperatorTree

set_option autoImplicit false

universe u v

/-- Whatever stands behind what was written, both can be told. -/
def SelfDelimiting {α : Type u} {β : Type v} (write : α → List β) : Prop :=
  ∀ ⦃a b : α⦄ ⦃x y : List β⦄, write a ++ x = write b ++ y → a = b ∧ x = y

theorem SelfDelimiting.injective {α : Type u} {β : Type v} {write : α → List β}
    (delimited : SelfDelimiting write) : Function.Injective write := by
  intro a b same
  exact (delimited (congrArg (· ++ []) same)).1

/-! ## Items in a row -/

section Row

variable {α : Type u} {β : Type v}

/-- Items that are written one after the other can be told if each of them can, from what
may follow an item, and if the end of the row is no beginning of an item. -/
theorem eq_of_flatMap_append (write : α → List β) (Follows Ends : List β → Prop)
    (follows : ∀ a x, Follows (write a ++ x))
    (ends : ∀ x, Ends x → Follows x) (goes : ∀ a x, ¬ Ends (write a ++ x)) {as bs : List α}
    (each : ∀ a ∈ as, ∀ b ∈ bs, ∀ x y, Follows x → Follows y → write a ++ x = write b ++ y →
      a = b ∧ x = y) {x y : List β} (endX : Ends x) (endY : Ends y)
    (same : as.flatMap write ++ x = bs.flatMap write ++ y) : as = bs ∧ x = y := by
  -- What stands behind an item is another item or the end of the row.
  have later : ∀ (cs : List α) {z : List β}, Ends z → Follows (cs.flatMap write ++ z) := by
    intro cs z endZ
    cases cs with
    | nil => exact ends z endZ
    | cons c cs =>
        rw [List.flatMap_cons, List.append_assoc]
        exact follows c _
  induction as generalizing bs with
  | nil =>
      cases bs with
      | nil => exact ⟨rfl, same⟩
      | cons b bs =>
          simp only [List.flatMap_nil, List.nil_append, List.flatMap_cons,
            List.append_assoc] at same
          exact absurd (same ▸ endX) (goes b _)
  | cons a as ih =>
      cases bs with
      | nil =>
          simp only [List.flatMap_nil, List.nil_append, List.flatMap_cons,
            List.append_assoc] at same
          exact absurd (same ▸ endY) (goes a _)
      | cons b bs =>
          simp only [List.flatMap_cons, List.append_assoc] at same
          obtain ⟨rfl, rest⟩ :=
            each a List.mem_cons_self b List.mem_cons_self _ _ (later as endX) (later bs endY) same
          obtain ⟨rfl, rfl⟩ := ih (fun c member d among =>
            each c (List.mem_cons_of_mem a member) d (List.mem_cons_of_mem _ among)) rest
          exact ⟨rfl, rfl⟩

/-- Two texts that do not contain a mark can be told by the mark behind them. -/
theorem eq_of_append_cons {c : β} {s t x y : List β} (absentS : c ∉ s) (absentT : c ∉ t)
    (same : s ++ c :: x = t ++ c :: y) : s = t ∧ x = y := by
  induction s generalizing t with
  | nil =>
      cases t with
      | nil => exact ⟨rfl, (List.cons.inj same).2⟩
      | cons d t => exact absurd ((List.cons.inj same).1 ▸ List.mem_cons_self) absentT
  | cons d s ih =>
      cases t with
      | nil => exact absurd ((List.cons.inj same).1 ▸ List.mem_cons_self) absentS
      | cons e t =>
          obtain ⟨rfl, tails⟩ := List.cons.inj same
          obtain ⟨rfl, rfl⟩ := ih (fun inside => absentS (List.mem_cons_of_mem d inside))
            (fun inside => absentT (List.mem_cons_of_mem d inside)) tails
          exact ⟨rfl, rfl⟩

end Row

namespace Text

/-! ## Hexadecimal digits -/

theorem digitChar_inj {m n : Nat} (boundM : m < 16) (boundN : n < 16)
    (same : m.digitChar = n.digitChar) : m = n := by
  have table : ∀ i j : Fin 16, i.val.digitChar = j.val.digitChar → i = j := by decide
  exact Fin.mk.inj (table ⟨m, boundM⟩ ⟨n, boundN⟩ same)

theorem toDigits_ne_nil (n : Nat) : Nat.toDigits 16 n ≠ [] := by
  rw [Nat.toDigits_eq_if (by decide)]
  split <;> simp

/-- A number is told by its digits. -/
theorem toDigits_injective {m n : Nat} (same : Nat.toDigits 16 m = Nat.toDigits 16 n) :
    m = n := by
  induction m using Nat.strongRecOn generalizing n with
  | ind m ih =>
      rw [Nat.toDigits_eq_if (by decide), Nat.toDigits_eq_if (n := n) (by decide)] at same
      by_cases smallM : m < 16 <;> by_cases smallN : n < 16
      · simp only [if_pos smallM, if_pos smallN, List.cons.injEq, and_true] at same
        exact digitChar_inj smallM smallN same
      · have := congrArg List.length same
        have := List.length_pos_iff.2 (toDigits_ne_nil (n / 16))
        simp only [if_pos smallM, if_neg smallN, List.length_append, List.length_singleton] at *
        omega
      · have := congrArg List.length same
        have := List.length_pos_iff.2 (toDigits_ne_nil (m / 16))
        simp only [if_neg smallM, if_pos smallN, List.length_append, List.length_singleton] at *
        omega
      · rw [if_neg smallM, if_neg smallN] at same
        obtain ⟨firsts, lasts⟩ := List.append_inj' same rfl
        have high := ih (m / 16) (by omega) firsts
        have low := digitChar_inj (Nat.mod_lt m (by decide)) (Nat.mod_lt n (by decide))
          (List.singleton_inj.1 lasts)
        omega

theorem brace_not_mem_toDigits (n : Nat) : '\x7d' ∉ Nat.toDigits 16 n := by
  have noDigit (k : Nat) : '\x7d' ≠ k.digitChar := (Nat.digitChar_ne '\x7d' (by decide)).symm
  induction n using Nat.strongRecOn with
  | ind n ih =>
      rw [Nat.toDigits_eq_if (by decide)]
      by_cases small : n < 16
      · simp [small, noDigit]
      · simp [small, noDigit, ih (n / 16) (by omega)]

/-! ## Escapes -/

/-- The letters that stand for one character behind a backslash. -/
def letterEscapes : List (Char × Char) :=
  [('"', '"'), ('\\', '\\'), ('t', '\t'), ('n', '\n'), ('r', '\r'), ('0', '\x00')]

/-- The three ways in which a character is written. -/
theorem escape_cases (c : Char) :
    (escape c = [c] ∧ c ≠ '"' ∧ c ≠ '\\') ∨
    (∃ letter, (letter, c) ∈ letterEscapes ∧ escape c = ['\\', letter]) ∨
    escape c = '\\' :: 'u' :: '\x7b' :: Nat.toDigits 16 c.toNat ++ ['\x7d'] := by
  by_cases quote : c = '"'
  · subst quote
    exact .inr (.inl ⟨'"', by simp [letterEscapes], rfl⟩)
  by_cases backslash : c = '\\'
  · subst backslash
    exact .inr (.inl ⟨'\\', by simp [letterEscapes], rfl⟩)
  by_cases tab : c = '\t'
  · subst tab
    exact .inr (.inl ⟨'t', by simp [letterEscapes], rfl⟩)
  by_cases lineFeed : c = '\n'
  · subst lineFeed
    exact .inr (.inl ⟨'n', by simp [letterEscapes], rfl⟩)
  by_cases carriageReturn : c = '\r'
  · subst carriageReturn
    exact .inr (.inl ⟨'r', by simp [letterEscapes], rfl⟩)
  by_cases nul : c = '\x00'
  · subst nul
    exact .inr (.inl ⟨'0', by simp [letterEscapes], rfl⟩)
  unfold escape
  simp only [if_neg quote, if_neg backslash, if_neg tab, if_neg lineFeed, if_neg carriageReturn,
    if_neg nul]
  by_cases hidden : Unprintable c
  · exact .inr (.inr (by simp [hidden]))
  · exact .inl ⟨if_neg hidden, quote, backslash⟩

theorem eq_of_letterEscapes {letter c d : Char} (first : (letter, c) ∈ letterEscapes)
    (second : (letter, d) ∈ letterEscapes) : c = d := by
  simp only [letterEscapes, List.mem_cons, Prod.mk.injEq, List.not_mem_nil, or_false] at *
  grind

theorem u_not_mem_letterEscapes (c : Char) : ('u', c) ∉ letterEscapes := by
  simp [letterEscapes]

theorem selfDelimiting_escape : SelfDelimiting escape := by
  intro c d x y same
  rcases escape_cases c with ⟨plainC, -, notC⟩ | ⟨k, letterC, plainC⟩ | plainC <;>
    rcases escape_cases d with ⟨plainD, -, notD⟩ | ⟨l, letterD, plainD⟩ | plainD <;>
    rw [plainC, plainD] at same <;>
    simp only [List.cons_append, List.nil_append, List.append_assoc, List.cons.injEq] at same
  · exact same
  · exact absurd same.1 notC
  · exact absurd same.1 notC
  · exact absurd same.1.symm notD
  · obtain ⟨-, rfl, rest⟩ := same
    exact ⟨eq_of_letterEscapes letterC letterD, rest⟩
  · exact absurd (same.2.1 ▸ letterC) (u_not_mem_letterEscapes c)
  · exact absurd same.1.symm notD
  · exact absurd (same.2.1 ▸ letterD) (u_not_mem_letterEscapes d)
  · obtain ⟨digits, rest⟩ := eq_of_append_cons (brace_not_mem_toDigits _)
      (brace_not_mem_toDigits _) same.2.2.2
    exact ⟨Char.toNat_inj.1 (toDigits_injective digits), rest⟩

/-- No character is written with a quote in front. -/
theorem head?_escape_ne (c : Char) (x : List Char) : (escape c ++ x).head? ≠ some '"' := by
  rcases escape_cases c with ⟨plain, notQuote, -⟩ | ⟨letter, -, plain⟩ | plain
  · simp [plain, notQuote]
  · simp [plain]
  · simp [plain]

/-- **Quoted text can be told** from what stands behind it. -/
theorem selfDelimiting_quoted : SelfDelimiting quoted := by
  intro s t x y same
  simp only [quoted, List.cons_append, List.append_assoc, List.nil_append, List.cons.injEq,
    true_and] at same
  obtain ⟨rfl, rest⟩ := eq_of_flatMap_append escape (fun _ => True) (·.head? = some '"')
    (fun _ _ => trivial) (fun _ _ => trivial) head?_escape_ne
    (fun c _ d _ _ _ _ _ written => selfDelimiting_escape written) rfl rfl same
  exact ⟨rfl, (List.cons.inj rest).2⟩

end Text

end OperatorTree
