/-
# OperatorTree.Proofs.Grammar.Ranges -- the search on bytes runs without a fault

A search on bytes follows a search on texts when it ends without a fault, counts as
many attempts and makes the nodes of what is found, whatever nodes there are
(`Follows`).  Each step of the one search follows the step of the other that does the
same, so the search on bytes follows the search on texts as a whole, given the depth
for its uses of productions (`follows_searchRange`).

The depth is a limit and no part of the search: once it is enough, more of it makes no
difference (`refines_searchRange`).  The texts get shorter or the productions lower, so
four for each character is enough (`searchBytes_ends`).
-/
import OperatorTree.Proofs.Grammar.Language
import OperatorTree.Proofs.Grammar.Runs
import OperatorTree.Proofs.Store.Build
import OperatorTree.Proofs.Text.Bytes

namespace OperatorTree.Grammar

set_option autoImplicit false

open Store Text

/-! ## What a search keeps to -/

/-- The use is of a part of the text. -/
structure Use.InRange (input : List Char) (u : Use) : Prop where
  le : u.start ≤ u.stop
  le_size : u.stop ≤ size input
  start : Boundary input u.start
  stop : Boundary input u.stop

/-- The byte is inside the range of the use, and so of the text. -/
structure Access.InRange (input : List Char) (a : Access) : Prop where
  lt : a.i < a.stop
  le_size : a.stop ≤ size input

theorem Access.InRange.exists_byte {input : List Char} {a : Access} (range : a.InRange input) :
    ∃ b, (bytes input)[a.i]? = some b :=
  ⟨_, List.getElem?_eq_getElem (Nat.lt_of_lt_of_le range.lt range.le_size)⟩

/-- A search may go on from here, and use the nodes from `k` on as its own. -/
structure Ready (input : List Char) (k : Nat) (w : Work) : Prop where
  uses : ∀ u ∈ w.uses, u.InRange input
  accesses : ∀ a ∈ w.accesses, a.InRange input
  sound : w.store.Sound
  owned : w.store.Owned (k ≤ ·)

/-- From `w` to `w'` as many attempts were made as in the search on texts, and what is
found was made of nodes from `k` on. -/
structure Made (input : List Char) (k : Nat) (w : Work) (s : Search Expr) (r : Option NodeId)
    (w' : Work) : Prop where
  ready : Ready input k w'
  confined : Confined (k ≤ ·) w.store w'.store
  uses_length : w'.uses.length = w.uses.length + s.attempts
  found : Option.Rel (fun n e => k ≤ n ∧ w'.store.Freestanding n e) r s.found

/-- The search on bytes runs without a fault, and does what the search on texts does. -/
def Follows (input : List Char) (m : Ranged NodeId) (s : Search Expr) : Prop :=
  ∀ k w, Ready input k w → Ends m w (Made input k w s)

section Steps

variable {input : List Char} {k : Nat} {w w' w'' : Work} {s t u : Search Expr}
  {n l r : NodeId} {e a b : Expr} {o o' : Option NodeId} {m m' : Ranged NodeId}

theorem Ready.nothing (ready : Ready input k w) (found : s.found = none)
    (attempts : s.attempts = 0) : Made input k w s none w where
  ready := ready
  confined := .refl ready.owned.closed
  uses_length := by rw [attempts]; rfl
  found := by rw [found]; exact .none

theorem Ready.just (ready : Ready input k w) (own : k ≤ n) (standing : w.store.Freestanding n e) :
    Made input k w (Pure.pure e) (some n) w where
  ready := ready
  confined := .refl ready.owned.closed
  uses_length := rfl
  found := .some ⟨own, standing⟩

/-- One search after the other. -/
theorem Made.trans (first : Made input k w s o w') (second : Made input k w' t o' w'')
    (found : u.found = t.found) (attempts : u.attempts = s.attempts + t.attempts) :
    Made input k w u o' w'' where
  ready := second.ready
  confined := first.confined.trans second.confined
  uses_length := by rw [second.uses_length, first.uses_length, attempts, Nat.add_assoc]
  found := found ▸ second.found

theorem Made.congr (made : Made input k w s o w') (found : u.found = s.found)
    (attempts : u.attempts = s.attempts) : Made input k w u o w' where
  ready := made.ready
  confined := made.confined
  uses_length := by rw [made.uses_length, attempts]
  found := found ▸ made.found

theorem Made.found_eq_none (made : Made input k w s none w') : s.found = none := by
  cases found : s.found with
  | none => rfl
  | some e => exact nomatch found ▸ made.found

/-- A search that fails ends the sequence that it is part of. -/
theorem Made.failed {next : Expr → Search Expr} (made : Made input k w s none w') :
    Made input k w (s >>= next) none w' := by
  have none := made.found_eq_none
  exact made.congr (by simp [none]) (by simp [none])

theorem Made.exists_found (made : Made input k w s (some n) w') :
    ∃ e, s.found = some e ∧ k ≤ n ∧ w'.store.Freestanding n e := by
  cases found : s.found with
  | none => exact nomatch found ▸ made.found
  | some e =>
      obtain ⟨own, standing⟩ | _ := found ▸ made.found
      exact ⟨e, rfl, own, standing⟩

/-- Nodes from a later one on are nodes from `k` on. -/
theorem Made.wider {k' : Nat} (made : Made input k' w s o w') (ready : Ready input k w)
    (le : k ≤ k') : Made input k w s o w' := by
  have confined : Confined (k ≤ ·) w.store w'.store :=
    made.confined.wider (fun n own => Nat.le_trans le own) ready.owned.closed
  refine ⟨⟨made.ready.uses, made.ready.accesses, made.ready.sound, confined.owned ready.owned⟩,
    confined, made.uses_length, ?_⟩
  cases o with
  | none => exact made.found_eq_none ▸ .none
  | some n =>
      obtain ⟨e, found, own, standing⟩ := made.exists_found
      exact found ▸ .some ⟨Nat.le_trans le own, standing⟩

/-! ## Single steps -/

theorem Ends.slice {start stop : Nat} {part : List Char} {f : List Char → Ranged NodeId}
    {post : Option NodeId → Work → Prop} (cut : slice? input start stop = some part)
    (next : Ends (f part) w post) : Ends (Ranged.slice input start stop >>= f) w post := by
  have run : Ranged.slice input start stop = Pure.pure part := by
    rw [Ranged.slice, cut]
  rwa [run, pure_bind]

theorem Ends.byte {i stop : Nat} {c : UInt8} {f : UInt8 → Ranged NodeId}
    (here : (bytes input)[i]? = some c) (range : Access.InRange input ⟨i, stop⟩)
    (ready : Ready input k w)
    (next : ∀ w', w'.store = w.store → Ready input k w' → Ends (f c) w' (Made input k w' s)) :
    Ends (Ranged.byte input i stop >>= f) w (Made input k w s) := by
  let read : Work := { w with accesses := w.accesses ++ [⟨i, stop⟩] }
  have ready' : Ready input k read :=
    { ready with
      accesses := List.forall_mem_append.2 ⟨ready.accesses, by simpa using range⟩ }
  obtain ⟨r, w', run, made⟩ := next read rfl ready'
  refine ⟨r, w', ?_, ⟨made.ready, made.confined, made.uses_length, made.found⟩⟩
  rw [Ranged.run_bind, Ranged.run_byte here]
  exact run

theorem Ends.fail {α : Type} (ready : Ready input k w) (f : α → Ranged NodeId) :
    Ends ((none : Option α).getM >>= f) w (Made input k w .fail) :=
  ⟨none, w, rfl, ready.nothing rfl rfl⟩

/-- A node that can be made is found at once. -/
theorem Ends.make {edit : Store → Except NodeError NodeId × Store} {store : Store}
    (ready : Ready input k w) (made : edit w.store = (.ok n, store)) (sound : store.Sound)
    (confined : Confined (k ≤ ·) w.store store) (own : k ≤ n) (standing : store.Freestanding n e) :
    Ends (Ranged.make edit) w (Made input k w (Pure.pure e)) := by
  refine ⟨some n, _, Ranged.run_make made, ?_⟩
  exact ⟨⟨ready.uses, ready.accesses, sound, confined.owned ready.owned⟩, confined, rfl,
    .some ⟨own, standing⟩⟩

theorem Ends.leaf (ready : Ready input k w) (label : String) :
    Ends (Ranged.leaf label) w (Made input k w (Pure.pure (.literal label))) :=
  .make ready rfl (ready.sound.alloc rfl) (ready.owned.alloc _)
    (ready.owned.new _ (Nat.le_refl _)) (ready.sound.freestanding_literal label)

theorem Ends.operator (ready : Ready input k w) (op : Operator) (ownL : k ≤ l) (ownR : k ≤ r)
    (left : w.store.Freestanding l a) (right : w.store.Freestanding r b) (differ : l ≠ r) :
    Ends (Ranged.make (·.operator op l r)) w
      (Made input k w (Pure.pure (.operator op [a, b]))) := by
  obtain ⟨store, made, sound, standing⟩ := ready.sound.freestanding_operator op left right differ
  have confined := ready.owned.operator op ownL ownR
  rw [made] at confined
  exact .make ready made sound confined (ready.owned.new _ (Nat.le_refl _)) standing

theorem Ends.parenthetical (ready : Ready input k w) (label : String) (own : k ≤ n)
    (inner : w.store.Freestanding n e) :
    Ends (Ranged.make (·.parenthetical label n)) w
      (Made input k w (Pure.pure (.parenthetical label e))) := by
  obtain ⟨store, made, sound, standing⟩ := ready.sound.freestanding_parenthetical label inner
  have confined := ready.owned.parenthetical label own
  rw [made] at confined
  exact .make ready made sound confined (ready.owned.new _ (Nat.le_refl _)) standing

/-! ## Steps one after the other -/

theorem Follows.orElse (first : Follows input m s) (second : Follows input m' t) :
    Follows input (m <|> m') (s <|> t) := by
  intro k w ready
  refine (first k w ready).orElse (fun n w' made => ?_) fun w' made => ?_
  · obtain ⟨e, found, -⟩ := made.exists_found
    exact made.congr (by simp [found]) (by simp [found])
  · have none := made.found_eq_none
    refine (second k w' made.ready).mono fun r w'' later => ?_
    exact made.trans later (by simp [none]) (by simp [none])

theorem Follows.failure : Follows input failure .fail := fun _ _ ready =>
  .failure (ready.nothing rfl rfl)

/-- A use of a production is an attempt. -/
theorem Follows.use {p : Production} {start stop : Nat}
    (range : Use.InRange input ⟨p, start, stop⟩) (follows : Follows input m s) :
    Follows input (do Ranged.use p start stop; m) s.attempt := by
  intro k w ready
  let used : Work := { w with uses := w.uses ++ [⟨p, start, stop⟩] }
  have ready' : Ready input k used :=
    { ready with uses := List.forall_mem_append.2 ⟨ready.uses, by simpa using range⟩ }
  obtain ⟨r, w', run, made⟩ := follows k used ready'
  refine ⟨r, w', ?_, ⟨made.ready, made.confined, ?_, made.found⟩⟩
  · rw [Ranged.run_bind, Ranged.run_use]
    exact run
  · rw [made.uses_length, List.length_append, Search.attempts_attempt]
    simp only [List.length_singleton]
    omega

/-- A search goes on with what it has found. -/
theorem Ends.andThen {f : NodeId → Ranged NodeId} {next : Expr → Search Expr}
    (first : Ends m w (Made input k w s))
    (goesOn : ∀ n e w', Ready input k w' → k ≤ n → w'.store.Freestanding n e →
      Ends (f n) w' (Made input k w' (next e))) :
    Ends (m >>= f) w (Made input k w (s >>= next)) := by
  refine first.bind (fun w' made => made.failed) fun n w' made => ?_
  obtain ⟨e, found, own, standing⟩ := made.exists_found
  refine (goesOn n e w' made.ready own standing).mono fun r w'' later => ?_
  exact made.trans later (by simp [found]) (by simp [found])

/-- An operand is searched for, and joined with the one that was found before. -/
theorem Follows.operand (follows : Follows input m s) (ready : Ready input k w) (op : Operator)
    (own : k ≤ l) (left : w.store.Freestanding l a) :
    Ends (do let r ← m; Ranged.make (·.operator op l r)) w
      (Made input k w (do let b ← s; return .operator op [a, b])) := by
  -- The operand is made of newer nodes than all that are there, so those stay as they are.
  have newer : Ready input w.store.slots.size w :=
    { ready with owned := ready.sound.forest.owned_new }
  have le : k ≤ w.store.slots.size := Nat.le_trans own (Nat.le_of_lt (lt_size_of_live left.live))
  refine (follows _ w newer).bind (fun w' made => (made.wider ready le).failed)
    fun r w' made => ?_
  obtain ⟨b, found, new, right⟩ := made.exists_found
  have left' := left.of_confined ready.sound.forest made.ready.sound.forest made.confined
  have made' := made.wider ready le
  have differ : l ≠ r := Nat.ne_of_lt (Nat.lt_of_lt_of_le (lt_size_of_live left.live) new)
  refine (Ends.operator made'.ready op own (Nat.le_trans le new) left' right differ).mono
    fun o w'' later => ?_
  exact made'.trans later (by simp [found]) (by simp [found])

end Steps

/-! ## Cuts -/

/-- A loop over positions follows the search over those that are candidates. -/
theorem Follows.firstM {β : Type} {input : List Char} {f : Nat → Ranged NodeId}
    {g : β → Search Expr} {place : β → Nat} (candidate : Nat → Prop) [DecidablePred candidate] :
    ∀ (is : List Nat) (bs : List β), is.filter candidate = bs.map place →
      (∀ i ∈ is, ¬ candidate i → Follows input (f i) .fail) →
      (∀ b ∈ bs, place b ∈ is → candidate (place b) → Follows input (f (place b)) (g b)) →
      Follows input (is.firstM f) (.first g bs)
  | [], [], _, _, _ => .failure
  | i :: is, bs, same, others, follows => by
      have later : ∀ j ∈ is, ¬ candidate j → Follows input (f j) .fail :=
        fun j member => others j (List.mem_cons_of_mem i member)
      by_cases here : candidate i
      · rw [List.filter_cons_of_pos (by simpa using here)] at same
        cases bs with
        | nil => cases same
        | cons b bs =>
            obtain ⟨rfl, tail⟩ := List.cons.inj same
            have rest := firstM candidate is bs tail later fun c member inside =>
              follows c (List.mem_cons_of_mem b member) (List.mem_cons_of_mem _ inside)
            exact (follows b List.mem_cons_self List.mem_cons_self here).orElse rest
      · rw [List.filter_cons_of_neg (by simpa using here)] at same
        have rest := firstM candidate is bs same later fun c member inside =>
          follows c member (List.mem_cons_of_mem i inside)
        rw [← Search.fail_orElse (.first g bs)]
        exact (others i List.mem_cons_self here).orElse rest

section Productions

variable {input before text after : List Char} {op : Operator}

theorem follows_splitRange {left right : Nat → Nat → Ranged NodeId} {p q : Production}
    (whole : input = before ++ text ++ after)
    (first : ∀ cut ∈ cuts op.symbol text,
      Follows input (left (size before) (size before + size cut.1)) (search p cut.1))
    (second : ∀ cut ∈ cuts op.symbol text,
      Follows input (right (size before + size cut.1 + 1) (size before + size text))
        (search q cut.2)) :
    Follows input (splitRange input op left right (size before) (size before + size text))
      (split op p q text) := by
  subst whole
  have range {i : Nat} (member : i ∈ List.range' (size before + 1)
      (size before + size text - 1 - (size before + 1))) :
      Access.InRange (before ++ text ++ after) ⟨i, size before + size text⟩ := by
    rw [List.mem_range'_1] at member
    exact ⟨by dsimp only; omega, by simp only [size_append]; omega⟩
  refine Follows.firstM _ _ _ (filter_positions op.toNat_symbol_lt before text after) ?_ ?_
  · intro i inside other k w ready
    obtain ⟨b, here⟩ := (range inside).exists_byte
    refine Ends.byte here (range inside) ready fun w' _ ready' => ?_
    have notSymbol : b ≠ op.symbol.toUInt8 := by
      rintro rfl
      exact other here
    rw [guard, if_neg notSymbol]
    exact Ends.failure (ready'.nothing rfl rfl)
  · intro cut member inside here k w ready
    refine Ends.byte here (range inside) ready fun w' _ ready' => ?_
    rw [guard, if_pos rfl, pure_bind]
    exact (first cut member k w' ready').andThen fun l a w'' ready'' own standing =>
      (second cut member).operand ready'' op own standing

theorem ofSymbol?_ofUInt8 {b : UInt8} {c : Char}
    (reads : ∀ x : Char, x.toNat < 128 → (Char.ofUInt8 b = x ↔ c = x)) :
    Operator.ofSymbol? (Char.ofUInt8 b) = Operator.ofSymbol? c := by
  simp only [Operator.ofSymbol?, reads '+' (by decide), reads '*' (by decide)]

section Atom

variable {expression : Nat → Nat → Ranged NodeId}
  (follows : ∀ before part after start stop, input = before ++ part ++ after →
    start = size before → stop = start + size part → part.length < text.length →
    Follows input (expression start stop) (search .expression part))

include follows

theorem ends_restRange {front rest : List Char} {close k : Nat} {w : Work} {group : NodeId}
    {e : Expr} (whole : input = front ++ rest ++ after) (closed : close + 1 = size front)
    (shorter : rest.length < text.length) (ready : Ready input k w) (own : k ≤ group)
    (standing : w.store.Freestanding group e) :
    Ends (restRange input expression group close (size front + size rest)) w
      (Made input k w (afterGroup e rest)) := by
  cases rest with
  | nil =>
      rw [restRange, if_pos (by simpa using closed)]
      exact .pure (ready.just own standing)
  | cons c operand =>
      have positive := c.utf8Size_pos
      obtain ⟨b, here, reads⟩ := exists_getElem?_bytes front c (operand ++ after)
      have here : (bytes input)[close + 1]? = some b := by
        rw [closed, whole, ← here]
        simp
      have range : Access.InRange input ⟨close + 1, size front + size (c :: operand)⟩ := by
        constructor
        · simp only [size_cons]
          omega
        · rw [whole]
          simp only [size_append]
          omega
      rw [restRange, if_neg (by simp only [size_cons]; omega)]
      refine Ends.byte here range ready fun w' same ready' => ?_
      rw [ofSymbol?_ofUInt8 reads, afterGroup]
      cases symbol : Operator.ofSymbol? c with
      | none => exact .fail ready' _
      | some op =>
          obtain rfl := Operator.ofSymbol?_eq_some_iff.1 symbol
          have one : op.symbol.utf8Size = 1 := utf8Size_of_ascii op.toNat_symbol_lt
          rw [Option.getM, pure_bind]
          refine (follows (front ++ [op.symbol]) operand after _ _ ?_ ?_ ?_ ?_).operand ready' op
            own (same ▸ standing)
          · simp [whole]
          · simp only [size_append, size_cons, size_nil, one]
            omega
          · simp only [size_cons, one]
            omega
          · exact Nat.lt_of_succ_lt shorter

theorem ends_groupRange {inner rest : List Char} {k : Nat} {w : Work}
    (whole : input = before ++ text ++ after) (grouped : group? text = some (inner, rest))
    (ready : Ready input k w) :
    Ends (groupRange input expression (size before) (size before + (size inner + 1))
        (size before + size text)) w
      (Made input k w (do
        let e ← search .expression inner
        afterGroup (.parenthetical (groupLabel inner) e) rest)) := by
  have parts := eq_of_group? grouped
  have lengths := length_of_group? grouped
  have one : '('.utf8Size = 1 := utf8Size_of_ascii (by decide)
  have one' : ')'.utf8Size = 1 := utf8Size_of_ascii (by decide)
  have inside : input = (before ++ ['(']) ++ inner ++ (')' :: rest ++ after) := by
    simp [whole, parts]
  have opened : size before + 1 = size (before ++ ['(']) := by
    simp [one]
  have behind : input = (before ++ '(' :: inner ++ [')']) ++ rest ++ after := by
    simp [whole, parts]
  have closed : size before + (size inner + 1) + 1 = size (before ++ '(' :: inner ++ [')']) := by
    simp only [size_append, size_cons, size_nil, one, one']
    omega
  have stop : size before + size text = size (before ++ '(' :: inner ++ [')']) + size rest := by
    simp only [parts, size_append, size_cons, size_nil]
    omega
  refine (follows _ inner _ _ _ inside opened (by omega) (by omega) k w ready).andThen
    fun n e w' ready' own standing => ?_
  refine Ends.slice (slice?_eq_some_iff.2 ⟨_, _, inside, opened.symm, by omega⟩) ?_
  rw [← Search.pure_bind (.parenthetical (groupLabel inner) e) (afterGroup · rest)]
  refine (Ends.parenthetical ready' _ own standing).andThen
    fun m g w'' ready'' own' standing' => ?_
  rw [stop]
  exact ends_restRange follows behind closed (by omega) ready'' own' standing'

theorem follows_atomRange (whole : input = before ++ text ++ after) :
    Follows input (atomRange input expression (size before) (size before + size text))
      (match Text.group? text with
      | none => if IsLiteral text then pure (.literal (String.ofList text)) else .fail
      | some (inner, rest) => do
        let e ← search .expression inner
        afterGroup (.parenthetical (groupLabel inner) e) rest) := by
  intro k w ready
  refine Ends.slice (slice?_eq_some_iff.2 ⟨before, after, whole, rfl, rfl⟩) ?_
  by_cases opening : text.head? = some '('
  · obtain ⟨tail, rfl⟩ := List.head?_eq_some_iff.1 opening
    rw [if_pos opening, matchingParenthesis_cons]
    cases grouped : group? ('(' :: tail) with
    | none =>
        have notLiteral : ¬ IsLiteral ('(' :: tail) := fun literal =>
          absurd (literal.2 '(' List.mem_cons_self) (by decide)
        rw [if_neg notLiteral]
        exact .fail ready _
    | some cut => exact ends_groupRange follows whole grouped ready
  · have noGroup : group? text = none := by
      cases grouped : group? text with
      | none => rfl
      | some cut => exact absurd (by rw [eq_of_group? grouped]; rfl) opening
    rw [if_neg opening, noGroup]
    by_cases literal : IsLiteral text
    · rw [guard, if_pos literal, if_pos literal, pure_bind]
      exact .leaf ready _
    · rw [guard, if_neg literal, if_neg literal]
      exact .fail ready _

end Atom

theorem Use.InRange.of_append {p : Production} (whole : input = before ++ text ++ after) :
    Use.InRange input ⟨p, size before, size before + size text⟩ where
  le := Nat.le_add_right _ _
  le_size := by
    rw [whole, size_append, size_append]
    exact Nat.le_add_right _ _
  start := ⟨before, text ++ after, by rw [whole, List.append_assoc], rfl⟩
  stop := ⟨before ++ text, after, whole, size_append before text⟩

/-- **The search on bytes follows the search on texts**, for every part of the text and
every production, where its uses may be nested deeply enough. -/
theorem follows_searchRange (input : List Char) : ∀ (depth : Nat) (p : Production)
    (before text after : List Char) (start stop : Nat), input = before ++ text ++ after →
    start = size before → stop = start + size text → p.measure text < depth →
    Follows input (searchRange input depth p start stop) (search p text)
  | 0, _, _, _, _, _, _, _, _, _, deep => absurd deep (Nat.not_lt_zero _)
  | depth + 1, p, before, text, after, _, _, whole, rfl, rfl, deep => by
      have range : Use.InRange input ⟨p, size before, size before + size text⟩ := .of_append whole
      -- A lower production on the same text, and any production on a shorter one.
      have lower (q : Production) (below : q.rank < p.rank) :
          Follows input (searchRange input depth q (size before) (size before + size text))
            (search q text) := by
        refine follows_searchRange input depth q before text after _ _ whole rfl rfl ?_
        simp only [Production.measure] at deep ⊢
        omega
      have shorter (q : Production) (before' part after' : List Char) (start stop : Nat)
          (whole' : input = before' ++ part ++ after') (first : start = size before')
          (last : stop = start + size part) (less : part.length < text.length) :
          Follows input (searchRange input depth q start stop) (search q part) := by
        refine follows_searchRange input depth q before' part after' _ _ whole' first last ?_
        have : q.rank ≤ 3 := by cases q <;> decide
        simp only [Production.measure] at deep ⊢
        omega
      have halves (op : Operator) (q q' : Production) :
          Follows input (splitRange input op (searchRange input depth q)
            (searchRange input depth q') (size before) (size before + size text))
            (split op q q' text) := by
        refine follows_splitRange whole ?_ ?_
        · rintro ⟨left, right⟩ member
          obtain ⟨rfl, -, -⟩ := mem_cuts.1 member
          have less : left.length + 2 ≤ _ := (length_of_mem_cuts member).1
          exact shorter q before left (op.symbol :: right ++ after) _ _ (by simp [whole]) rfl rfl
            (by omega)
        · rintro ⟨left, right⟩ member
          obtain ⟨rfl, -, -⟩ := mem_cuts.1 member
          have less : right.length + 2 ≤ _ := (length_of_mem_cuts member).2
          have one : op.symbol.utf8Size = 1 := utf8Size_of_ascii op.toNat_symbol_lt
          refine shorter q' (before ++ left ++ [op.symbol]) right after _ _ (by simp [whole])
            ?_ ?_ ?_
          · simp [one, Nat.add_assoc]
          · simp only [size_append, size_cons, one]
            omega
          · omega
      cases p with
      | expression =>
          rw [search_expression]
          exact ((lower .additive (by decide)).orElse (lower .atom (by decide))).use range
      | additive =>
          rw [search_additive]
          exact ((halves .add .additive .product).orElse (lower .product (by decide))).use range
      | product =>
          rw [search_product]
          exact ((halves .mul .product .product).orElse (lower .atom (by decide))).use range
      | atom =>
          rw [search_atom]
          exact (follows_atomRange (shorter .expression) whole).use range

end Productions

/-! ## Depth -/

section Depth

variable {input : List Char}

theorem refines_splitRange {op : Operator} {left left' right right' : Nat → Nat → Ranged NodeId}
    (first : ∀ i j, Refines (left i j) (left' i j))
    (second : ∀ i j, Refines (right i j) (right' i j)) (start stop : Nat) :
    Refines (splitRange input op left right start stop)
      (splitRange input op left' right' start stop) := by
  refine .firstM (fun i => ?_) _
  refine .bind (.refl _) fun b => .bind (.refl _) fun _ => ?_
  exact .bind (first start i) fun l => .bind (second (i + 1) stop) fun r => .refl _

theorem refines_atomRange {expression expression' : Nat → Nat → Ranged NodeId}
    (each : ∀ i j, Refines (expression i j) (expression' i j)) (start stop : Nat) :
    Refines (atomRange input expression start stop) (atomRange input expression' start stop) := by
  refine .bind (.refl _) fun text => ?_
  by_cases opening : text.head? = some '('
  · rw [if_pos opening, if_pos opening]
    refine .bind (.refl _) fun offset => ?_
    rw [groupRange, groupRange]
    refine .bind (each _ _) fun inner => .bind (.refl _) fun contents => ?_
    refine .bind (.refl _) fun group => ?_
    rw [restRange, restRange]
    split
    · exact .refl _
    · exact .bind (.refl _) fun b => .bind (.refl _) fun op => .bind (each _ _) fun rest => .refl _
  · rw [if_neg opening, if_neg opening]
    exact .refl _

/-- A search that ends without a fault ends in the same way with more depth. -/
theorem refines_searchRange : ∀ (depth : Nat) (p : Production) (start stop : Nat),
    Refines (searchRange input depth p start stop) (searchRange input (depth + 1) p start stop)
  | 0, p, start, stop => fun w r w' run => nomatch run
  | depth + 1, p, start, stop => by
      have each := refines_searchRange depth
      refine .bind (.refl _) fun _ => ?_
      cases p with
      | expression => exact (each .additive start stop).orElse (each .atom start stop)
      | additive =>
          exact (refines_splitRange (each .additive) (each .product) start stop).orElse
            (each .product start stop)
      | product =>
          exact (refines_splitRange (each .product) (each .product) start stop).orElse
            (each .atom start stop)
      | atom => exact refines_atomRange (each .expression) start stop

theorem refines_searchRange_of_le {depth depth' : Nat} (le : depth ≤ depth') (p : Production)
    (start stop : Nat) :
    Refines (searchRange input depth p start stop) (searchRange input depth' p start stop) := by
  induction le with
  | refl => exact .refl _
  | step _ ih => exact fun w r w' run => refines_searchRange _ p start stop w r w' (ih w r w' run)

end Depth

/-! ## Whole texts -/

/-- **The search on bytes ends, and ends without a fault.**  Whatever the text, the
outcome is the same with every depth from four for each character and four more on, so
the uses of productions are nested no deeper than that.  Each use is of a part of the
text between two boundaries.  Each byte that is read lies before the end of such a part,
so what follows an operator is a part as well, if an empty one.  No part is asked for
that is none, and no node is refused: as many attempts are made as in the search on
texts, and what that one finds are the nodes that come of it. -/
theorem searchBytes_ends {store : Store} (sound : store.Sound) (text : String) :
    ∃ r w,
      (∀ depth, 4 * (strip text).length + 4 ≤ depth → searchBytes depth text store = .ok (r, w)) ∧
      (∀ u ∈ w.uses, u.InRange (strip text)) ∧
      (∀ a ∈ w.accesses, a.InRange (strip text)) ∧
      w.uses.length = (searchText text).attempts ∧
      Option.Rel w.store.Freestanding r (searchText text).found := by
  have ready : Ready (strip text) store.slots.size ⟨store, [], []⟩ :=
    ⟨by simp, by simp, sound, sound.forest.owned_new⟩
  have enough : Production.expression.measure (strip text) < 4 * (strip text).length + 4 :=
    Nat.lt_succ_self _
  obtain ⟨r, w, run, made⟩ := follows_searchRange (strip text) _ .expression [] (strip text) []
    0 (size (strip text)) (by simp) rfl (by simp) enough _ _ ready
  refine ⟨r, w, fun depth le => refines_searchRange_of_le le _ _ _ _ _ _ run, made.ready.uses,
    made.ready.accesses, made.uses_length.trans (Nat.zero_add _), ?_⟩
  cases r with
  | none => exact made.found_eq_none ▸ .none
  | some n =>
      obtain ⟨e, found, -, standing⟩ := made.exists_found
      rw [searchText, found]
      exact .some standing

/-- A product of a group, whose literal takes two bytes, and a literal. -/
theorem searchBytes_ends_of_product :
    empty.Sound ∧ 4 * (strip "(é)*b").length + 4 ≤ 24 ∧
      ∃ n w e, searchBytes 24 "(é)*b" empty = .ok (some n, w) ∧
        (∀ u ∈ w.uses, u.InRange (strip "(é)*b")) ∧
        (∀ a ∈ w.accesses, a.InRange (strip "(é)*b")) ∧
        (searchText "(é)*b").found = some e ∧ w.store.Freestanding n e := by
  have le : 4 * (strip "(é)*b").length + 4 ≤ 24 := by decide
  have validE : IsLiteral ['é'] := by simp [IsLiteral, Allowed, disallowed]
  have validB : IsLiteral ['b'] := by simp [IsLiteral, Allowed, disallowed]
  let l : Level :=
    .cons (.group (.single (.literal ['é'] validE))) .mul (.single (.literal ['b'] validB))
  have level : IsLevel (strip "(é)*b") := ⟨l, rfl⟩
  obtain ⟨e, whole⟩ := Option.isSome_iff_exists.1 ((isSome_found_expression_iff _).2 level)
  obtain ⟨r, w, run, uses, accesses, -, found⟩ := searchBytes_ends sound_empty "(é)*b"
  rw [searchText, whole] at found
  obtain standing | _ := found
  exact ⟨sound_empty, le, _, w, e, run 24 le, uses, accesses, whole, standing⟩

end OperatorTree.Grammar
