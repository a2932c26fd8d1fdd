/-
# OperatorTree.Proofs.Session.Respelled -- literals matter by their places only

Two sessions read two texts that differ in the spelling of their literals.  Whatever else is in
the sessions, they cannot be told apart by what they say of the reading, the text that is
echoed aside: the attempts are as many, they succeed or fail alike, and the merges are at the
same positions with the same counts.  The nodes that are made differ in their labels only.
-/
import OperatorTree.Proofs.Grammar.Precedence
import OperatorTree.Proofs.Grammar.Respelled
import OperatorTree.Proofs.Session.Parsing
import OperatorTree.Proofs.Store.MergeEvents

namespace OperatorTree.Session

set_option autoImplicit false

variable {s s' : Session} {settings : Grammar.Settings} {dst dst' text text' : String}

/-! ## The events of a reading -/

/-- The merges among the nodes of an expression, if the settings ask for merging. -/
def mergesFor (settings : Grammar.Settings) (e : Expr) (store : Store) : List Merge :=
  if settings.flatten then ((store.plant e).2.flatten (store.plant e).1).1 else []

theorem events_run_parse (s : Session) (dst : String) (settings : Grammar.Settings)
    (text : String) :
    (s.run (.change (.parse dst settings text))).events =
      .parsed (String.ofList (Grammar.strip text)) (Grammar.searchText text).attempts
          (Grammar.searchText text).found.isSome ::
        ((Grammar.searchText text).found.elim [] fun e => mergesFor settings e s.store).map
          mergeEvent := by
  simp only [Session.run, Session.perform, parseInto]
  cases (Grammar.searchText text).found with
  | none => rfl
  | some e =>
      by_cases merge : settings.flatten = true
      · simp [mergesFor, merge]
      · simp [mergesFor, merge]

/-- Where merges take place in the nodes of an expression depends on its operators only. -/
theorem places_mergesFor (forest : s.store.IsForest) (forest' : s'.store.IsForest) {e e' : Expr}
    (respelled : e.Respelled e') (settings : Grammar.Settings) :
    (mergesFor settings e s.store).map (fun m => (m.index, m.count)) =
      (mergesFor settings e' s'.store).map fun m => (m.index, m.count) := by
  have planted := Store.planted_plant e forest
  have planted' := Store.planted_plant e' forest'
  have operators : e.map Content.operator? = e'.map Content.operator? :=
    respelled.map_eq fun _ _ labels => labels.operator?_eq
  unfold mergesFor
  split
  · refine Store.places_flatten planted.forest planted'.forest ?_
    rwa [← planted.expr_eq, ← planted'.expr_eq, Store.expr, Store.expr, Tree.map_map,
      Tree.map_map] at operators
  · rfl

/-- Two sessions that read respelled texts report the same of it, the texts aside. -/
theorem exists_events_of_respelled (forest : s.store.IsForest) (forest' : s'.store.IsForest)
    (respelled : Text.Respelled (Grammar.strip text) (Grammar.strip text'))
    (settings : Grammar.Settings) (dst dst' : String) :
    ∃ merges : List (Nat × Nat),
      (s.run (.change (.parse dst settings text))).events =
        .parsed (String.ofList (Grammar.strip text)) (Grammar.searchText text).attempts
          (Grammar.searchText text).found.isSome ::
            merges.map (fun place => .merged place.1 place.2) ∧
      (s'.run (.change (.parse dst' settings text'))).events =
        .parsed (String.ofList (Grammar.strip text')) (Grammar.searchText text).attempts
          (Grammar.searchText text).found.isSome ::
            merges.map fun place => .merged place.1 place.2 := by
  have searches := Grammar.related_searchText respelled
  have same : ((Grammar.searchText text).found.elim [] fun e =>
        mergesFor settings e s.store).map (fun m => (m.index, m.count)) =
      ((Grammar.searchText text').found.elim [] fun e =>
        mergesFor settings e s'.store).map fun m => (m.index, m.count) := by
    have found := searches.found
    cases outcome : (Grammar.searchText text).found <;>
      cases outcome' : (Grammar.searchText text').found <;> rw [outcome, outcome'] at found
    case none.none => rfl
    case some.some e e' =>
      exact places_mergesFor forest forest' (Option.rel_some_some.1 found) settings
    all_goals cases found
  refine ⟨((Grammar.searchText text).found.elim [] fun e =>
    mergesFor settings e s.store).map fun m => (m.index, m.count), ?_, ?_⟩
  · rw [events_run_parse, List.map_map]
    rfl
  · rw [events_run_parse, searches.attempts_eq, searches.isSome_eq, same, List.map_map]
    rfl

/-- **How literals are spelled makes no difference to reading.**  Let `text'` be `text` with
another literal in the place of each longest run of allowed characters, neither with spaces;
let one session read the one text and another session the other.  Then the one reads if the
other does, both report as many attempts, and both report the same merges.  What is read
differs in the labels only, node by node: the kinds are the same, the literals are the runs
of either text in their order, and the label of each pair of parentheses is its text. -/
theorem Reachable.parse_respelled (reachable : s.Reachable) (reachable' : s'.Reachable)
    (spaceless : ' ' ∉ text.toList) (spaceless' : ' ' ∉ text'.toList)
    (respelled : Text.Respelled text.toList text'.toList) (settings : Grammar.Settings)
    (dst dst' : String) :
    let outcome := s.run (.change (.parse dst settings text))
    let outcome' := s'.run (.change (.parse dst' settings text'))
    ((∃ e, Grammar.parse settings text = .ok e) ↔ ∃ e, Grammar.parse settings text' = .ok e) ∧
    (∃ attempts matched, ∃ merges : List (Nat × Nat),
      outcome.events = .parsed text attempts matched ::
        merges.map (fun place => .merged place.1 place.2) ∧
      outcome'.events = .parsed text' attempts matched ::
        merges.map fun place => .merged place.1 place.2) ∧
    ∀ e e', Grammar.parse settings text = .ok e → Grammar.parse settings text' = .ok e' →
      (∃ n, outcome.session.node? dst = some n ∧ outcome.session.store.expr n = e) ∧
      (∃ n, outcome'.session.node? dst' = some n ∧ outcome'.session.store.expr n = e') ∧
      e.Respelled e' ∧
      e.map Content.kind = e'.map Content.kind ∧
      e.literals.map String.toList = Text.runs text.toList ∧
      e'.literals.map String.toList = Text.runs text'.toList ∧
      (e.All fun content operands => ∀ label, content = .parenthetical label →
        Expr.text (.node content operands) = label) ∧
      e'.All fun content operands => ∀ label, content = .parenthetical label →
        Expr.text (.node content operands) = label := by
  intro outcome outcome'
  have whole : Grammar.strip text = text.toList := Grammar.strip_of_space_not_mem spaceless
  have whole' : Grammar.strip text' = text'.toList := Grammar.strip_of_space_not_mem spaceless'
  have stripped : Text.Respelled (Grammar.strip text) (Grammar.strip text') := by
    rwa [whole, whole']
  have labels {settings text e} (parsed : Grammar.parse settings text = .ok e) :
      e.All fun content operands => ∀ label, content = .parenthetical label →
        Expr.text (.node content operands) = label :=
    (Grammar.grouped_of_parse parsed).mono fun _ _ grouped label own => (grouped label own).1
  refine ⟨Grammar.exists_parse_iff_of_respelled settings stripped, ?events, ?trees⟩
  case events =>
    obtain ⟨merges, events, events'⟩ := exists_events_of_respelled reachable.sound.store.forest
      reachable'.sound.store.forest stripped settings dst dst'
    rw [whole, String.ofList_toList] at events
    rw [whole', String.ofList_toList] at events'
    exact ⟨_, _, merges, events, events'⟩
  case trees =>
    intro e e' parsed parsed'
    have same := Grammar.respelled_of_parse stripped parsed parsed'
    have literals := Grammar.literals_of_parse parsed
    have literals' := Grammar.literals_of_parse parsed'
    rw [whole] at literals
    rw [whole'] at literals'
    exact ⟨reachable.sound.exists_node?_parse parsed dst,
      reachable'.sound.exists_node?_parse parsed' dst', same,
      same.map_eq fun _ _ labels => labels.kind_eq, literals, literals', labels parsed,
      labels parsed'⟩

/-- A sum with a product in parentheses, and another one whose literals are longer or
shorter, and of more bytes. -/
theorem parse_respelled_of_sum :
    let text := "x+(yy*x)"
    let text' := "é+(a*bcd)"
    let e : Expr := .operator .add [.literal "x",
      .parenthetical "(yy*x)" (.operator .mul [.literal "yy", .literal "x"])]
    let e' : Expr := .operator .add [.literal "é",
      .parenthetical "(a*bcd)" (.operator .mul [.literal "a", .literal "bcd"])]
    let s' := (empty.perform (.literal "x" "b")).session
    empty.Reachable ∧ s'.Reachable ∧ ' ' ∉ text.toList ∧ ' ' ∉ text'.toList ∧
      Text.Respelled text.toList text'.toList ∧
      Grammar.parse {} text = .ok e ∧ Grammar.parse {} text' = .ok e' ∧ e.Respelled e' ∧
      e.map Content.kind = e'.map Content.kind ∧
      ∃ attempts matched, ∃ merges : List (Nat × Nat),
        (empty.run (.change (.parse "x" {} text))).events = .parsed text attempts matched ::
          merges.map (fun place => .merged place.1 place.2) ∧
        (s'.run (.change (.parse "y" {} text'))).events = .parsed text' attempts matched ::
          merges.map fun place => .merged place.1 place.2 := by
  intro text text' e e' s'
  have reachable : s'.Reachable := Reachable.empty.perform _ (by decide)
  have respelled : Text.Respelled text.toList text'.toList := by
    have whole : Text.Respelled
        (['x'] ++ '+' :: '(' :: (['y', 'y'] ++ '*' :: (['x'] ++ [')'])))
        (['é'] ++ '+' :: '(' :: (['a'] ++ '*' :: (['b', 'c', 'd'] ++ [')']))) :=
      .run (by decide) (by decide) (Text.endsRun_cons (by decide)) <|
        .char (by decide) <| .char (by decide) <|
        .run (by decide) (by decide) (Text.endsRun_cons (by decide)) <| .char (by decide) <|
        .run (by decide) (by decide) (Text.endsRun_cons (by decide)) <| .char (by decide) .nil
    simpa [text, text'] using whole
  -- Both texts are levels of two terms, so they read by ordinary precedence.
  have reads (a b c : List Char) (validA : IsLiteral a) (validB : IsLiteral b)
      (validC : IsLiteral c) (text : String)
      (spelled : a ++ '+' :: '(' :: (b ++ '*' :: (c ++ [')'])) = Grammar.strip text) :
      Grammar.parse {} text = .ok (Grammar.Level.standard (.cons (.literal a validA) .add
        (.single (.group (.cons (.literal b validB) .mul (.single (.literal c validC))))))) := by
    refine Grammar.parse_of_everywhere_splitsFreely ?_ (.intro ?_ ?_)
    · simpa [Grammar.Level.spelling, Grammar.Factor.spelling, Operator.symbol] using spelled
    · exact (Grammar.Level.groupsAtEnds_of_length_le (by simp [Grammar.Level.terms])).splitsFreely
    · intro inner member
      have same : inner = .cons (.literal b validB) .mul (.single (.literal c validC)) := by
        simpa [Grammar.Level.factors] using member
      have literals : ∀ f ∈ inner.factors, ¬ f.IsGroup := by
        simp [same, Grammar.Level.factors, Grammar.Factor.IsGroup]
      exact (Grammar.Level.everywhere_groupsAtEnds_of_literals literals).mono
        fun _ => Grammar.Level.GroupsAtEnds.splitsFreely
  have parsed : Grammar.parse {} text = .ok e :=
    reads ['x'] ['y', 'y'] ['x'] (by decide) (by decide) (by decide) text (by decide)
  have parsed' : Grammar.parse {} text' = .ok e' :=
    reads ['é'] ['a'] ['b', 'c', 'd'] (by decide) (by decide) (by decide) text' (by decide)
  have spaceless : ' ' ∉ text.toList := by decide
  have spaceless' : ' ' ∉ text'.toList := by decide
  obtain ⟨-, events, trees⟩ :=
    Reachable.empty.parse_respelled reachable spaceless spaceless' respelled {} "x" "y"
  obtain ⟨-, -, same, kinds, -⟩ := trees e e' parsed parsed'
  exact ⟨.empty, reachable, spaceless, spaceless', respelled, parsed, parsed', same, kinds, events⟩

end OperatorTree.Session
