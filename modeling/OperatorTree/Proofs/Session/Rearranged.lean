/-
# OperatorTree.Proofs.Session.Rearranged -- texts of trees in which siblings were exchanged

A tree that was read from a text is written as a text again after siblings have been exchanged
in it.  That text always reads, and is written the same.  But it need not read as the tree: no
parentheses are written that are not there, and a group that comes to stand between terms may
take what follows for its operand.  The levels of the text that was read first tell whether
this can happen (`Reachable.exchanges_read_back_iff`).
-/
import OperatorTree.Proofs.Grammar.Rearranged
import OperatorTree.Proofs.Session.Exchange
import OperatorTree.Proofs.Session.Parsing
import OperatorTree.Proofs.Store.Rearranged

namespace OperatorTree.Session

set_option autoImplicit false

variable {s : Session} {text : String} {e d : Expr} {n : NodeId}

/-- The text of what a text reads as, rearranged, reads and is written the same. -/
theorem exists_parse_text_of_rearranged (parsed : Grammar.parse {} text = .ok e)
    (rearranged : Tree.Rearranged e d) :
    ∃ read, Grammar.parse {} (Expr.text d) = .ok read ∧ Expr.text read = Expr.text d :=
  Grammar.exists_parse_text ((Grammar.shaped_of_parse parsed).of_rearranged rearranged)
    (((Grammar.wide_of_parse parsed).of_rearranged rearranged).filled (by decide))
    ((Grammar.lettered_of_parse parsed).of_rearranged rearranged) {}

/-- **When exchanged siblings read back.**  Let a session read a text, and let any siblings in the
tree be exchanged, any number of times.  Whatever comes of it is written as a text that reads
and is written the same.  It reads as the tree that was written, each pair of parentheses
labelled by its text, for all exchanges, if and only if each level of the text that was read
first, however deep, is calm: it has at most two terms, or no parentheses, or no `*`.  Exchanges
of nodes that registers name, one command after the other, are among these exchanges. -/
theorem Reachable.exchanges_read_back_iff (reachable : s.Reachable)
    (parsed : Grammar.parse {} text = .ok e) (dst : String) :
    let t := (s.run (.change (.parse dst {} text))).session
    ∃ n, t.node? dst = some n ∧ t.store.expr n = e ∧
      (∀ pairs,
        let written := Expr.text ((t.store.swapAll pairs).expr n)
        ∃ read, Grammar.parse {} written = .ok read ∧ Expr.text read = written) ∧
      ((∀ pairs,
          let rearranged := (t.store.swapAll pairs).expr n
          Grammar.parse {} (Expr.text rearranged) = .ok rearranged.relabelled) ↔
        ∃ l : Grammar.Level, l.spelling = Grammar.strip text ∧
          l.Everywhere fun m => m.terms.length ≤ 2 ∨ (∀ f ∈ m.factors, ¬ f.IsGroup) ∨
            m.Uniform .add) ∧
      ∀ names, ∃ pairs, (t.swapAll names).store = t.store.swapAll pairs := by
  intro t
  have after : t.Reachable := reachable.step (.change (.parse dst {} text))
  obtain ⟨n, named, expr⟩ := reachable.sound.exists_node?_parse parsed dst
  have exchanges {d : Expr} : (∃ pairs, (t.store.swapAll pairs).expr n = d) ↔
      Tree.Rearranged e d := by
    rw [← expr]
    exact after.sound.store.forest.exists_swapAll_iff
  refine ⟨n, named, expr, ?written, ?back, ?commands⟩
  case written =>
    exact fun pairs => exists_parse_text_of_rearranged parsed (exchanges.1 ⟨pairs, rfl⟩)
  case back =>
    refine Iff.trans ?_ (Grammar.forall_readsBack_iff parsed)
    constructor
    · intro every d rearranged
      obtain ⟨pairs, rfl⟩ := exchanges.2 rearranged
      exact every pairs
    · exact fun every pairs => every _ (exchanges.1 ⟨pairs, rfl⟩)
  case commands =>
    intro names
    obtain ⟨pairs, same⟩ := after.exists_swapAll names
    exact ⟨pairs, congrArg Session.store same⟩

/-- A product with parentheses, and another term: whatever is exchanged reads back. -/
theorem exchanges_read_back_in_sum_of_product :
    let b : Expr := .parenthetical "(b)" (.literal "b")
    let e : Expr := .operator .add [.operator .mul [.literal "a", b], .literal "c"]
    let t := (empty.run (.change (.parse "t" {} "a*(b) + c"))).session
    empty.Reachable ∧ Grammar.parse {} "a*(b) + c" = .ok e ∧
      ∃ n, t.node? "t" = some n ∧ t.store.expr n = e ∧
        ∀ pairs,
          let rearranged := (t.store.swapAll pairs).expr n
          Grammar.parse {} (Expr.text rearranged) = .ok rearranged.relabelled := by
  intro b e t
  let inner : Grammar.Level := .single (.literal ['b'] (by decide))
  let l : Grammar.Level := .cons (.literal ['a'] (by decide)) .mul <|
    .cons (.group inner) .add <| .single (.literal ['c'] (by decide))
  have spelled : l.spelling = Grammar.strip "a*(b) + c" := by decide
  have calm : l.Everywhere Grammar.Level.Calm := by
    refine .intro (.inl (by simp [l, Grammar.Level.terms])) fun m member => ?_
    obtain rfl : m = inner := by simpa [l, Grammar.Level.factors] using member
    exact .intro (.inl (by simp [inner, Grammar.Level.terms]))
      (by simp [inner, Grammar.Level.factors])
  have parsed : Grammar.parse {} "a*(b) + c" = .ok e := by
    rw [Grammar.parse_of_everywhere_splitsFreely spelled
      (calm.mono fun _ => Grammar.Level.Calm.splitsFreely)]
    exact congrArg Except.ok (by decide)
  obtain ⟨n, named, expr, -, back, -⟩ := Reachable.empty.exchanges_read_back_iff parsed "t"
  exact ⟨.empty, parsed, n, named, expr, back.2 ⟨l, spelled, calm⟩⟩

/-- The sum `(b) + a + c * d` with its first two operands exchanged is written as
`a + (b) + c * d`, and does not read back: `(b)` takes `+ c` for its operand there. -/
theorem exchange_not_read_back :
    let t := (empty.run (.change (.parse "t" {} "(b)+a+c*d"))).session
    ∃ n x y i j, t.node? "t" = some n ∧ Expr.text (t.store.expr n) = "(b)+a+c*d" ∧
      (t.store.swap x y).1 = .ok (i, j) ∧
      let rearranged := (t.store.swap x y).2.expr n
      Expr.text rearranged = "a+(b)+c*d" ∧
        Grammar.parse {} (Expr.text rearranged) ≠ .ok rearranged.relabelled := by
  intro t
  let l : Grammar.Level := .cons (.group (.single (.literal ['b'] (by decide)))) .add <|
    .cons (.literal ['a'] (by decide)) .add <| .cons (.literal ['c'] (by decide)) .mul <|
    .single (.literal ['d'] (by decide))
  let a : Expr := .literal "a"
  let b : Expr := .parenthetical "(b)" (.literal "b")
  let cd : Expr := .operator .mul [.literal "c", .literal "d"]
  let d : Expr := .operator .add [a, b, cd]
  have spelled : l.spelling = Grammar.strip "(b)+a+c*d" := by decide
  have parsed : Grammar.parse {} "(b)+a+c*d" = .ok (.operator .add [b, a, cd]) := by
    have free : l.Everywhere Grammar.Level.SplitsFreely := by
      refine .intro (Grammar.Level.GroupsAtEnds.splitsFreely ?_) fun m member => ?_
      · show ∀ t ∈ [[Grammar.Factor.literal ['a'] (by decide)]], ∀ f ∈ t, ¬ f.IsGroup
        simp [Grammar.Factor.IsGroup]
      · obtain rfl : m = .single (.literal ['b'] (by decide)) := by
          simpa [l, Grammar.Level.factors] using member
        have short := Grammar.Level.groupsAtEnds_of_length_le
          (show (Grammar.Level.single (.literal ['b'] (by decide))).terms.length ≤ 2 by decide)
        exact .intro short.splitsFreely (by simp [Grammar.Level.factors])
    rw [Grammar.parse_of_everywhere_splitsFreely spelled free]
    exact congrArg Except.ok (by decide)
  obtain ⟨n, named, expr⟩ := Reachable.empty.sound.exists_node?_parse parsed "t"
  have after : t.Reachable := Reachable.empty.step (.change (.parse "t" {} "(b)+a+c*d"))
  have exchange : Tree.Exchange (t.store.expr n) d := by
    rw [expr]
    exact .here (.operator .add) [] b [] a [cd]
  obtain ⟨x, y, p, i, j, made, -, -, rearranged⟩ :=
    after.sound.store.forest.exists_swap exchange
  refine ⟨n, x, y, i, j, named, by rw [expr]; decide, made, ?_⟩
  rw [rearranged]
  refine ⟨by decide, fun reads => ?_⟩
  -- The group is in the second of three terms, and the last one is a product.
  have back : Grammar.ReadsBack d := reads
  have operands : d.operands .add = a :: b :: ([] ++ [cd]) := Expr.operands_operator
  refine back.root?_ne_mul operands (fun e member => ?_) ⟨b, List.mem_singleton.2 rfl, rfl⟩
    (.inr rfl)
  have plain : ∀ f ∈ [Expr.literal "c", Expr.literal "d"], f.root? = none := by simp
  rw [operands] at member
  simp only [List.nil_append, List.mem_cons, List.not_mem_nil, or_false] at member
  rcases member with rfl | rfl | rfl
  · exact Expr.isTerm_of_root? rfl
  · exact Expr.isTerm_of_root? rfl
  · exact Expr.isTerm_join_mul (List.cons_ne_nil _ _) plain

end OperatorTree.Session
