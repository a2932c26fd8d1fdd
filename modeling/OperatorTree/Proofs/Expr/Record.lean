/-
# OperatorTree.Proofs.Expr.Record -- the record form says everything

Different expressions have different records, on one line (`record_injective`) and over
several (`recordLines_injective`).  The parts of a record stand in a fixed order between
fixed texts.  A kind and a quoted label show where they end by themselves; the children
are told one by one, because a record begins with its name and the list of the children
ends with a bracket where a name could stand.

Over several lines the margins are part of the text.  A line that closes a list is less
indented than the items of the list, and that is what shows that no item follows.
-/
import OperatorTree.Expr.Record
import OperatorTree.Proofs.Text.Delimited

namespace OperatorTree.Expr

set_option autoImplicit false

/-! ## One line -/

theorem selfDelimiting_kindRecord : SelfDelimiting fun kind => (kindRecord kind).toList := by
  intro a b x y same
  rcases a with _ | op | _ <;> rcases b with _ | other | _ <;>
    simp only [kindRecord, String.toList_append, List.append_assoc] at same
  case operator.operator => cases op <;> cases other <;> simp_all [Operator.recordName]
  all_goals simp_all

/-- A list with a separator is its first item and then the others, each behind a separator. -/
theorem intercalate_cons_eq_flatMap {α : Type} (sep item : List α) (items : List (List α)) :
    sep.intercalate (item :: items) = item ++ items.flatMap (sep ++ ·) := by
  induction items generalizing item with
  | nil => rw [List.intercalate_singleton, List.flatMap_nil, List.append_nil]
  | cons next items ih =>
      rw [List.intercalate_cons_of_ne_nil (List.cons_ne_nil next items), ih, List.flatMap_cons]
      simp only [List.append_assoc]

/-- The content of a node can be told from its record, and where the list of its children
begins. -/
theorem eq_of_nodeRecord_append {a b : Content} {as bs : List (List Char)} {x y : List Char}
    (same : nodeRecord a as ++ x = nodeRecord b bs ++ y) :
    a = b ∧ ", ".toList.intercalate as ++ ("] \x7d".toList ++ x) =
      ", ".toList.intercalate bs ++ ("] \x7d".toList ++ y) := by
  unfold nodeRecord at same
  simp only [List.append_assoc, List.append_cancel_left_eq] at same
  obtain ⟨kinds, rest⟩ := selfDelimiting_kindRecord same
  rw [List.append_cancel_left_eq] at rest
  obtain ⟨labels, rest⟩ := Text.selfDelimiting_quoted rest
  rw [List.append_cancel_left_eq] at rest
  exact ⟨Content.eq_of_kind_of_label kinds (String.toList_inj.1 labels), rest⟩

theorem head?_recordChars_append (e : Expr) (x : List Char) :
    (recordChars e ++ x).head? = some 'E' := by
  cases e
  rw [recordChars_node]
  unfold nodeRecord
  simp

/-- A list that has items starts with the name of a record, and not with a bracket. -/
theorem head?_intercalate_cons_append (a : Expr) (as : List Expr) (x : List Char) :
    (", ".toList.intercalate ((a :: as).map recordChars) ++ x).head? = some 'E' := by
  rw [List.map_cons, intercalate_cons_eq_flatMap, List.append_assoc, head?_recordChars_append]

/-- A list on one line can be told if each of its items can. -/
theorem eq_of_intercalate_append {as bs : List Expr}
    (each : ∀ a ∈ as, ∀ b x y, recordChars a ++ x = recordChars b ++ y → a = b ∧ x = y)
    {x y : List Char}
    (same : ", ".toList.intercalate (as.map recordChars) ++ ("] \x7d".toList ++ x) =
      ", ".toList.intercalate (bs.map recordChars) ++ ("] \x7d".toList ++ y)) :
    as = bs ∧ x = y := by
  have heads := congrArg List.head? same
  cases as with
  | nil =>
      cases bs with
      | nil => exact ⟨rfl, by simpa using same⟩
      | cons b bs =>
          rw [head?_intercalate_cons_append] at heads
          simp at heads
  | cons a as =>
      cases bs with
      | nil =>
          rw [head?_intercalate_cons_append] at heads
          simp at heads
      | cons b bs =>
          simp only [List.map_cons, intercalate_cons_eq_flatMap, List.append_assoc,
            List.flatMap_map] at same
          obtain ⟨rfl, others⟩ := each a List.mem_cons_self b _ _ same
          -- Each of the others starts with the separator, and the end of the list does not.
          obtain ⟨rfl, rest⟩ := eq_of_flatMap_append (", ".toList ++ recordChars ·)
            (fun _ => True) (·.head? = some ']') (fun _ _ => trivial) (fun _ _ => trivial)
            (fun _ _ => by simp)
            (fun c member d _ _ _ _ _ written =>
              each c (List.mem_cons_of_mem a member) d _ _ (by simpa using written))
            rfl rfl others
          exact ⟨rfl, by simpa using rest⟩

/-- A record can be told from what stands behind it. -/
theorem selfDelimiting_recordChars : SelfDelimiting recordChars := by
  intro a
  induction a using Tree.induction with
  | step content operands ih =>
      intro b x y same
      cases b with
      | node other others =>
          rw [recordChars_node, recordChars_node] at same
          obtain ⟨rfl, rest⟩ := eq_of_nodeRecord_append same
          obtain ⟨rfl, rfl⟩ := eq_of_intercalate_append
            (fun operand member _ _ _ written => ih operand member written) rest
          exact ⟨rfl, rfl⟩

/-- **The record determines the expression.** -/
theorem record_injective : Function.Injective record := by
  intro a b same
  exact selfDelimiting_recordChars.injective (String.ofList_injective same)

/-! ## Several lines -/

theorem margin_add_one (level : Nat) : margin (level + 1) = margin level ++ List.replicate 4 ' ' :=
  List.replicate_add ..

/-- What an item is can be told if its text can. -/
theorem eq_of_item_append {level : Nat} {s t x y : List Char}
    (same : item level s ++ x = item level t ++ y) :
    s ++ (',' :: '\n' :: x) = t ++ (',' :: '\n' :: y) := by
  simpa [item] using same

theorem selfDelimiting_kindLines (level : Nat) : SelfDelimiting (kindLines level) := by
  intro a b x y same
  rcases a with _ | op | _ <;> rcases b with _ | other | _ <;>
    unfold kindLines at same <;> simp only [List.append_assoc] at same
  case operator.operator =>
    rw [List.append_cancel_left_eq] at same
    have rest := eq_of_item_append same
    cases op <;> cases other <;> simp_all [Operator.recordName]
  all_goals simp_all

/-- A list over several lines can be told if each of its items can. -/
theorem eq_of_listLines_append (write : Expr → List Char) {level : Nat} {as bs : List Expr}
    (each : ∀ a ∈ as, ∀ b x y, write a ++ x = write b ++ y → a = b ∧ x = y) {x y : List Char}
    (same : listLines level (as.map write) ++ x = listLines level (bs.map write) ++ y) :
    as = bs ∧ x = y := by
  cases as with
  | nil =>
      cases bs with
      | nil => exact ⟨rfl, List.append_cancel_left same⟩
      | cons b bs => simp [listLines] at same
  | cons a as =>
      cases bs with
      | nil => simp [listLines] at same
      | cons b bs =>
          have rest : (a :: as).flatMap (fun c => item (level + 1) (write c)) ++
                (margin level ++ (']' :: x)) =
              (b :: bs).flatMap (fun c => item (level + 1) (write c)) ++
                (margin level ++ (']' :: y)) := by
            simpa [listLines, List.flatMap_map] using same
          obtain ⟨same, rest⟩ := eq_of_flatMap_append (fun c => item (level + 1) (write c))
            (fun _ => True) (fun z => ∃ w, z = margin level ++ (']' :: w)) (fun _ _ => trivial)
            (fun _ _ => trivial) (fun _ _ => by simp [item, margin_add_one])
            (fun c member _ _ _ _ _ _ written => by
              obtain ⟨rfl, rest⟩ := each c member _ _ _ (eq_of_item_append written)
              exact ⟨rfl, (List.cons.inj (List.cons.inj rest).2).2⟩)
            ⟨_, rfl⟩ ⟨_, rfl⟩ rest
          exact ⟨same, (List.cons.inj (List.append_cancel_left rest)).2⟩

/-- The content of a node can be told from its record, and where the list of its children
begins. -/
theorem eq_of_nodeLines_append {level : Nat} {a b : Content} {as bs : List (Nat → List Char)}
    {x y : List Char} (same : nodeLines a as level ++ x = nodeLines b bs level ++ y) :
    a = b ∧ listLines (level + 1) (as.map (· (level + 2))) ++
        (',' :: '\n' :: (margin level ++ ('\x7d' :: x))) =
      listLines (level + 1) (bs.map (· (level + 2))) ++
        (',' :: '\n' :: (margin level ++ ('\x7d' :: y))) := by
  unfold nodeLines at same
  simp only [List.append_assoc, List.singleton_append, List.append_cancel_left_eq] at same
  have kindItem := eq_of_item_append same
  rw [List.append_assoc, List.append_assoc, List.append_cancel_left_eq] at kindItem
  obtain ⟨kinds, rest⟩ := selfDelimiting_kindLines _ kindItem
  have labelItem := eq_of_item_append (List.cons.inj (List.cons.inj rest).2).2
  rw [List.append_assoc, List.append_assoc, List.append_cancel_left_eq] at labelItem
  obtain ⟨labels, rest⟩ := Text.selfDelimiting_quoted labelItem
  have childrenItem := eq_of_item_append (List.cons.inj (List.cons.inj rest).2).2
  rw [List.append_assoc, List.append_assoc, List.append_cancel_left_eq] at childrenItem
  exact ⟨Content.eq_of_kind_of_label kinds (String.toList_inj.1 labels), childrenItem⟩

/-- A record over several lines can be told from what stands behind it. -/
theorem selfDelimiting_recordLinesFrom (level : Nat) : SelfDelimiting (recordLinesFrom level) := by
  intro a
  induction a using Tree.induction generalizing level with
  | step content operands ih =>
      intro b x y same
      cases b with
      | node other others =>
          rw [recordLinesFrom_node, recordLinesFrom_node] at same
          obtain ⟨rfl, rest⟩ := eq_of_nodeLines_append same
          simp only [List.map_map] at rest
          obtain ⟨rfl, rest⟩ := eq_of_listLines_append (recordLinesFrom (level + 2))
            (fun operand member _ _ _ written => ih operand member (level + 2) written) rest
          exact ⟨rfl, by simpa using rest⟩

/-- **The record over several lines determines the expression.** -/
theorem recordLines_injective : Function.Injective recordLines := by
  intro a b same
  exact (selfDelimiting_recordLinesFrom 0).injective (String.ofList_injective same)

end OperatorTree.Expr
