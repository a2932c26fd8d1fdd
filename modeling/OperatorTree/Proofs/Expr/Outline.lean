/-
# OperatorTree.Proofs.Expr.Outline -- what an outline says, and where it says everything

An outline is written at the end of a text and leaves the text as it is: one line for each
entry of the list of nodes, in its order (`toList_appendOutline`).  It shows the depth of
a node and its label, and not its kind.

Where labels have no tabs and no line feeds, each line can be told, and the depth on it;
and where labels show the kinds of the nodes, as a symbol does, a text that begins with a
parenthesis, and any other text (`Legible`), the lines are the list of nodes.  Since the
list of nodes says everything about an expression, so does the outline then
(`Legible.appendOutline_inj`).
-/
import OperatorTree.Expr.Outline
import OperatorTree.Proofs.Expr.Entries
import OperatorTree.Proofs.Tree.Flatten

namespace OperatorTree

set_option autoImplicit false

/-- The kind of node that a label looks like. -/
def Kind.ofLabel (label : String) : Kind :=
  match Operator.ofLabel? label with
  | some op => .operator op
  | none => if label.toList.head? = some '(' then .parenthetical else .literal

namespace Expr

variable {indent depth : Nat}

/-! ## The lines -/

/-- The line of an entry: tabs for the indent and the depth, the label and a line feed. -/
def Entry.line (indent : Nat) (entry : Entry) : List Char :=
  List.replicate (indent + entry.depth) '\t' ++ entry.label.toList ++ ['\n']

theorem toList_pushn (out : String) (c : Char) (n : Nat) :
    (out.pushn c n).toList = out.toList ++ List.replicate n c := by
  rw [String.pushn_eq_repeat_push]
  induction n with
  | zero => simp [Nat.repeat]
  | succ n ih => simp [Nat.repeat, ih, List.replicate_succ']

/-- Writers that only add at the end do so one after the other. -/
theorem toList_foldl_append {α : Type} {write : String → α → String} {added : α → List Char}
    {as : List α} (each : ∀ a ∈ as, ∀ out, (write out a).toList = out.toList ++ added a)
    (out : String) : (as.foldl write out).toList = out.toList ++ as.flatMap added := by
  induction as generalizing out with
  | nil => simp
  | cons a as ih =>
      rw [List.foldl_cons, ih (fun b later => each b (List.mem_cons_of_mem a later)),
        each a List.mem_cons_self, List.flatMap_cons, List.append_assoc]

/-- What is added for a part of an expression that is the given number of levels down in it. -/
theorem toList_appendOutline_add (out : String) (indent depth : Nat) (e : Expr) :
    (appendOutline out (indent + depth) e).toList =
      out.toList ++ (entriesFrom depth e).flatMap (Entry.line indent) := by
  induction e using Tree.induction generalizing out depth with
  | step content operands ih =>
      have below : ∀ e ∈ operands, ∀ out, (appendOutline out (indent + depth + 1) e).toList =
          out.toList ++ (entriesFrom (depth + 1) e).flatMap (Entry.line indent) :=
        fun e member out => ih e member out (depth + 1)
      rw [appendOutline_node, toList_foldl_append below, entriesFrom_node, List.flatMap_cons,
        List.flatMap_assoc, String.toList_push, String.toList_append, toList_pushn, Entry.line]
      simp only [List.append_assoc]

/-- **An outline adds the lines of the entries, and nothing else.** -/
theorem toList_appendOutline (out : String) (indent : Nat) (e : Expr) :
    (appendOutline out indent e).toList = out.toList ++ e.entries.flatMap (Entry.line indent) :=
  toList_appendOutline_add out indent 0 e

/-! ## Telling the lines -/

/-- The entry has a label of one line without tabs, which shows its kind. -/
structure Entry.Told (entry : Entry) : Prop where
  noTab : '\t' ∉ entry.label.toList
  noLineFeed : '\n' ∉ entry.label.toList
  kind_eq : entry.kind = Kind.ofLabel entry.label

/-- Tabs in front of a text without tabs can be counted. -/
theorem eq_of_replicate_append {c : Char} {m n : Nat} {s t : List Char} (absentS : c ∉ s)
    (absentT : c ∉ t) (same : List.replicate m c ++ s = List.replicate n c ++ t) :
    m = n ∧ s = t := by
  have counts := congrArg (List.count c) same
  simp only [List.count_append, List.count_replicate_self, List.count_eq_zero.2 absentS,
    List.count_eq_zero.2 absentT, Nat.add_zero] at counts
  subst counts
  exact ⟨rfl, List.append_cancel_left same⟩

theorem Entry.Told.eq_of_line_append {a b : Entry} {x y : List Char} (toldA : a.Told)
    (toldB : b.Told) (same : a.line indent ++ x = b.line indent ++ y) : a = b ∧ x = y := by
  unfold Entry.line at same
  simp only [List.append_assoc, List.singleton_append] at same
  rw [← List.append_assoc, ← List.append_assoc] at same
  obtain ⟨line, rest⟩ := eq_of_append_cons (by simp [toldA.noLineFeed])
    (by simp [toldB.noLineFeed]) same
  obtain ⟨depths, labels⟩ := eq_of_replicate_append toldA.noTab toldB.noTab line
  refine ⟨?_, rest⟩
  obtain ⟨depthA, kindA, labelA⟩ := a
  obtain ⟨depthB, kindB, labelB⟩ := b
  obtain rfl : labelA = labelB := String.toList_inj.1 labels
  obtain rfl : kindA = kindB := toldA.kind_eq.trans toldB.kind_eq.symm
  obtain rfl : depthA = depthB := Nat.add_left_cancel depths
  rfl

theorem line_append_ne_nil (indent : Nat) (entry : Entry) (x : List Char) :
    entry.line indent ++ x ≠ [] := by
  simp [Entry.line]

/-- Entries that can be told one by one can be told from all their lines. -/
theorem eq_of_flatMap_line {as bs : List Entry} (toldA : ∀ a ∈ as, a.Told)
    (toldB : ∀ b ∈ bs, b.Told)
    (same : as.flatMap (Entry.line indent) = bs.flatMap (Entry.line indent)) : as = bs := by
  refine (eq_of_flatMap_append (Entry.line indent) (fun _ => True) (· = [])
    (fun _ _ => trivial) (fun _ _ => trivial) (line_append_ne_nil indent)
    (fun a memberA b memberB _ _ _ _ written =>
      (toldA a memberA).eq_of_line_append (toldB b memberB) written) rfl rfl ?_).1
  rw [List.append_nil, List.append_nil, same]

/-! ## Expressions -/

/-- What holds of each node holds of its entry. -/
theorem forall_mem_entriesFrom {P : Kind → String → Prop} {e : Expr}
    (all : e.All fun content _ => P content.kind content.label) {entry : Entry}
    (member : entry ∈ entriesFrom depth e) : P entry.kind entry.label := by
  induction e using Tree.induction generalizing depth with
  | step content operands ih =>
      rw [entriesFrom_node, List.mem_cons, List.mem_flatMap] at member
      rcases member with rfl | ⟨e, among, below⟩
      · exact all.here
      · exact ih e among (all.of_mem e among) below

/-- The entries are in preorder. -/
theorem map_label_entriesFrom (depth : Nat) (e : Expr) :
    (entriesFrom depth e).map Entry.label = e.preorder.map Content.label := by
  induction e using Tree.induction generalizing depth with
  | step content operands ih =>
      rw [entriesFrom_node, Tree.preorder_node, List.map_cons, List.map_cons, List.map_flatMap,
        List.map_flatMap]
      exact congrArg (content.label :: ·) (List.flatMap_congr fun e among => ih e among (depth + 1))

/-- Labels have one line without tabs, and show the kinds of their nodes. -/
def Legible (e : Expr) : Prop :=
  e.All fun content _ => '\t' ∉ content.label.toList ∧ '\n' ∉ content.label.toList ∧
    content.kind = Kind.ofLabel content.label

theorem Legible.told {e : Expr} (legible : e.Legible) {entry : Entry}
    (member : entry ∈ entriesFrom depth e) : entry.Told :=
  have ⟨noTab, noLineFeed, kind_eq⟩ := forall_mem_entriesFrom
    (P := fun kind label => '\t' ∉ label.toList ∧ '\n' ∉ label.toList ∧ kind = Kind.ofLabel label)
    legible member
  ⟨noTab, noLineFeed, kind_eq⟩

/-- **The outline determines a legible expression.** -/
theorem Legible.appendOutline_inj {e f : Expr} (first : e.Legible) (second : f.Legible)
    (out : String) (indent : Nat) :
    appendOutline out indent e = appendOutline out indent f ↔ e = f := by
  refine ⟨fun same => entries_injective ?_, fun same => same ▸ rfl⟩
  have lines := congrArg String.toList same
  rw [toList_appendOutline, toList_appendOutline] at lines
  exact eq_of_flatMap_line (fun _ => first.told) (fun _ => second.told)
    (List.append_cancel_left lines)

end Expr

end OperatorTree
