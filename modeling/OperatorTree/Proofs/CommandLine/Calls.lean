/-
# OperatorTree.Proofs.CommandLine.Calls -- the arguments that ask for an expression

A call gives one expression and options around it, each option once at most.  An option is
one argument or two: the name of the format follows `--format`, or is joined to it by `=`.  The
expression may not look like an option, unless `--` stands before it; then nothing comes after.
And `--` may also stand at the end, where it says nothing.

Reading goes from left to right and keeps what has been set.  That depends on the options so far
(`given`), a further option is taken just when it is not among them (`set?_given_eq_some_iff`),
and so the arguments that are read as a request for an expression are the calls
(`read_eq_print_iff`).
-/
import Mathlib.Data.List.Basic
import OperatorTree.CommandLine

namespace OperatorTree.CommandLine

set_option autoImplicit false

/-! ## Options and calls -/

/-- The name of a format. -/
def Format.name : Format → String
  | debug => "debug"
  | display => "display"

/-- An option as it is given. -/
inductive Flag where
  | noFlatten
  /-- The format, with its name joined to `--format` or after it. -/
  | format (f : Format) (joined : Bool)
  deriving DecidableEq, Repr

namespace Flag

/-- The arguments that an option consists of. -/
def words : Flag → List String
  | noFlatten => ["--no-flatten"]
  | format f false => ["--format", f.name]
  | format f true => ["--format=" ++ f.name]

/-- The format that an option sets. -/
def format? : Flag → Option Format
  | noFlatten => none
  | format f _ => some f

end Flag

/-- The arguments that options consist of. -/
def words (flags : List Flag) : List String :=
  flags.flatMap Flag.words

/-- No option is given twice. -/
structure AtMostOnce (flags : List Flag) : Prop where
  noFlatten : flags.count .noFlatten ≤ 1
  format : (flags.filterMap Flag.format?).length ≤ 1

/-- An argument that is not read as an option. -/
def NotOption (argument : String) : Prop :=
  argument = "-" ∨ argument.toList.head? ≠ some '-'

/-- Arguments with one expression among options.  The options are listed in their order. -/
inductive Call (e : String) : List Flag → List String → Prop
  | bare {before after : List Flag} : NotOption e →
      Call e (before ++ after) (words before ++ e :: words after)
  | ended {before after : List Flag} : NotOption e →
      Call e (before ++ after) (words before ++ e :: words after ++ ["--"])
  | last {before : List Flag} : Call e before (words before ++ ["--", e])

/-- The settings that options ask for. -/
def settingsOf (flags : List Flag) : Grammar.Settings :=
  ⟨.noFlatten ∉ flags⟩

/-- The format that options ask for. -/
def formatOf (flags : List Flag) : Format :=
  (flags.filterMap Flag.format?).head?.getD .debug

variable {o o' : Options} {seen : Option String} {before flags : List Flag} {flag : Flag}
  {args rest : List String} {a e e' : String} {settings : Grammar.Settings} {f : Format}

/-! ## How an argument is read -/

theorem Format.ofName?_eq_some_iff {name : String} :
    Format.ofName? name = some f ↔ name = f.name := by
  unfold Format.ofName?
  split
  · cases f <;> simp_all [Format.name]
  · split <;> cases f <;> simp_all [Format.name]

/-- What an argument is, if it is read in the given way and the reading goes on. -/
def Argument.Written (argument : String) : Argument → Prop
  | .plain => NotOption argument
  | .endOfOptions => argument = "--"
  | .noFlatten => argument = "--no-flatten"
  | .format none => argument = "--format"
  | .format (some value) => argument = "--format=" ++ value
  | .version | .help | .unknown => True

theorem Argument.written_ofLong {name : List Char} (long : a.toList = '-' :: '-' :: name) :
    Argument.Written a (Argument.ofLong name) := by
  unfold Argument.ofLong
  split_ifs with noFlatten alone joined version help
  · exact String.toList_inj.1 (long.trans (by rw [noFlatten]; rfl))
  · exact String.toList_inj.1 (long.trans (by rw [alone]; rfl))
  · obtain ⟨value, rfl⟩ := joined
    refine String.toList_inj.1 (long.trans ?_)
    rw [show "format=".length = "format=".toList.length from rfl, List.drop_left,
      String.toList_append, String.toList_ofList]
    simp
  all_goals trivial

theorem Argument.written_ofString (a : String) : Argument.Written a (Argument.ofString a) := by
  unfold Argument.ofString
  split
  case h_1 dashes => exact String.toList_inj.1 dashes
  case h_2 name long => exact Argument.written_ofLong long
  case h_3 letter rest short =>
    unfold Argument.ofShort
    split_ifs <;> trivial
  case h_4 notLong notShort =>
    by_cases dash : a.toList.head? = some '-'
    · obtain ⟨rest, letters⟩ := List.head?_eq_some_iff.1 dash
      cases rest with
      | nil => exact .inl (String.toList_inj.1 letters)
      | cons letter rest => exact absurd letters (notShort letter rest)
    · exact .inr dash

theorem Argument.ofString_of_notOption (notOption : NotOption a) :
    Argument.ofString a = .plain := by
  rcases notOption with rfl | other
  · decide
  · unfold Argument.ofString
    split <;> simp_all

/-! ## One step -/

/-- Sets what an option asks for, unless it has been set. -/
def Options.set? (o : Options) : Flag → Option Options
  | .noFlatten => o.setNoFlatten?
  | .format f _ => o.setFormat? f.name

theorem readFrom_notOption (notOption : NotOption a) :
    readFrom o false (a :: rest) =
      (o.take? a).elim .usageError fun o => readFrom o false rest := by
  rw [readFrom]
  simp only [Argument.ofString_of_notOption notOption, Bool.false_eq_true, if_false]
  cases o.take? a <;> rfl

theorem readFrom_endOfOptions : readFrom o false ("--" :: rest) = readPlain o rest := by
  have dashes : Argument.ofString "--" = .endOfOptions := by decide
  rw [readFrom]
  simp only [dashes, Bool.false_eq_true, if_false]

theorem readFrom_awaiting :
    readFrom o true (a :: rest) =
      (o.setFormat? a).elim .usageError fun o => readFrom o false rest := by
  rw [readFrom]
  cases o.setFormat? a <;> rfl

theorem Flag.length_words_pos (flag : Flag) : 0 < flag.words.length := by
  cases flag with
  | noFlatten => decide
  | format f joined => cases joined <;> simp [Flag.words]

/-- An option is read as a whole, whether it is one argument or two. -/
theorem readFrom_words (flag : Flag) :
    readFrom o false (flag.words ++ rest) =
      (o.set? flag).elim .usageError fun o => readFrom o false rest := by
  cases flag with
  | noFlatten =>
      have named : Argument.ofString "--no-flatten" = .noFlatten := by decide
      rw [Flag.words, List.singleton_append, readFrom]
      simp only [named, Bool.false_eq_true, if_false, Options.set?]
      cases o.setNoFlatten? <;> rfl
  | format f joined =>
      cases joined with
      | false =>
          have named : Argument.ofString "--format" = .format none := by decide
          rw [Flag.words, List.cons_append, List.singleton_append, readFrom]
          simp only [named, Bool.false_eq_true, if_false]
          exact readFrom_awaiting
      | true =>
          have named : Argument.ofString ("--format=" ++ f.name) = .format (some f.name) := by
            cases f <;> decide
          rw [Flag.words, List.singleton_append, readFrom]
          simp only [named, Bool.false_eq_true, if_false, Options.set?]
          cases o.setFormat? f.name <;> rfl

theorem setFormat?_eq_some_iff {name : String} :
    o.setFormat? name = some o' ↔
      o.format = none ∧ ∃ f, name = f.name ∧ o' = { o with format := some f } := by
  unfold Options.setFormat?
  cases set : o.format with
  | none =>
      simp only [true_and, Option.map_eq_some_iff, Format.ofName?_eq_some_iff]
      exact exists_congr fun f => and_congr_right fun _ => eq_comm
  | some f => simp

/-- What arguments begin with where the reading goes on. -/
inductive Begins : List String → Prop
  | nothing : Begins []
  | endOfOptions (rest : List String) : Begins ("--" :: rest)
  | expression {a : String} (rest : List String) : NotOption a → Begins (a :: rest)
  | option (flag : Flag) (rest : List String) : Begins (flag.words ++ rest)

theorem begins_of_setFormat? {name : String} (set : o.setFormat? name = some o')
    (rest : List String) :
    Begins ("--format" :: name :: rest) ∧ Begins (("--format=" ++ name) :: rest) := by
  obtain ⟨-, f, rfl, -⟩ := setFormat?_eq_some_iff.1 set
  exact ⟨.option (.format f false) rest, .option (.format f true) rest⟩

theorem begins_of_readFrom (printed : readFrom o false args = .print e settings f) :
    Begins args := by
  cases args with
  | nil => exact .nothing
  | cons a rest =>
      have written := Argument.written_ofString a
      rw [readFrom] at printed
      cases kind : Argument.ofString a <;> rw [kind] at written
      case plain => exact .expression rest written
      case endOfOptions =>
        subst written
        exact .endOfOptions rest
      case noFlatten =>
        subst written
        exact .option .noFlatten rest
      case format value =>
        simp only [kind, Bool.false_eq_true, if_false] at printed
        cases value with
        | none =>
            subst written
            -- The value is the next argument, which has to name a format.
            cases rest with
            | nil => simp [readFrom] at printed
            | cons name rest =>
                rw [readFrom_awaiting] at printed
                cases set : o.setFormat? name with
                | none => simp [set] at printed
                | some o' => exact (begins_of_setFormat? set rest).1
        | some name =>
            subst written
            cases set : o.setFormat? name with
            | none => simp [set] at printed
            | some o' => exact (begins_of_setFormat? set rest).2
      all_goals simp [kind] at printed

/-! ## What has been set -/

/-- What options set, and an expression with them if one was seen. -/
def given (seen : Option String) (flags : List Flag) : Options :=
  ⟨seen, .noFlatten ∈ flags, (flags.filterMap Flag.format?).head?⟩

theorem atMostOnce_nil : AtMostOnce [] :=
  ⟨by simp, by simp⟩

theorem AtMostOnce.of_append (once : AtMostOnce (before ++ flags)) : AtMostOnce before where
  noFlatten := by
    have := once.noFlatten
    rw [List.count_append] at this
    omega
  format := by
    have := once.format
    rw [List.filterMap_append, List.length_append] at this
    omega

theorem atMostOnce_concat_noFlatten (once : AtMostOnce before) :
    AtMostOnce (before ++ [.noFlatten]) ↔ .noFlatten ∉ before := by
  constructor
  · intro both member
    have twice := both.noFlatten
    have := List.count_pos_iff.2 member
    rw [List.count_append, List.count_singleton_self] at twice
    omega
  · intro absent
    refine ⟨Nat.le_of_eq ?_, ?_⟩
    · rw [List.count_append, List.count_eq_zero.2 absent, List.count_singleton_self]
    · rw [List.filterMap_append, List.length_append]
      exact once.format

theorem atMostOnce_concat_format (once : AtMostOnce before) (f : Format) (joined : Bool) :
    AtMostOnce (before ++ [.format f joined]) ↔ before.filterMap Flag.format? = [] := by
  constructor
  · intro both
    have := both.format
    rw [List.filterMap_append, List.length_append] at this
    exact List.length_eq_zero_iff.1 (by simpa [Flag.format?] using this)
  · intro none
    refine ⟨by simpa using once.noFlatten, ?_⟩
    simp [none, Flag.format?]

/-- An option can be set just when it is not among those that have been given. -/
theorem set?_given_eq_some_iff (once : AtMostOnce before) :
    (given seen before).set? flag = some o' ↔
      AtMostOnce (before ++ [flag]) ∧ o' = given seen (before ++ [flag]) := by
  cases flag with
  | noFlatten =>
      rw [atMostOnce_concat_noFlatten once]
      by_cases member : Flag.noFlatten ∈ before
      · simp [Options.set?, Options.setNoFlatten?, given, member]
      · simp [Options.set?, Options.setNoFlatten?, given, member, Flag.format?, eq_comm]
  | format f joined =>
      rw [atMostOnce_concat_format once, Options.set?, setFormat?_eq_some_iff]
      have name (g : Format) : f.name = g.name ↔ f = g := by
        cases f <;> cases g <;> decide
      simp only [given, name, List.head?_eq_none_iff, exists_eq_left']
      refine and_congr_right fun none => ?_
      simp [none, Flag.format?]

/-- Reading options, each for the first time, leads to what they set. -/
theorem readFrom_given (once : AtMostOnce (before ++ flags)) :
    readFrom (given seen before) false (words flags ++ rest) =
      readFrom (given seen (before ++ flags)) false rest := by
  induction flags generalizing before with
  | nil => simp [words]
  | cons flag flags ih =>
      rw [List.append_cons] at once
      have set : (given seen before).set? flag = some (given seen (before ++ [flag])) :=
        (set?_given_eq_some_iff once.of_append.of_append).2 ⟨once.of_append, rfl⟩
      rw [words, List.flatMap_cons, List.append_assoc, readFrom_words, set, Option.elim_some,
        List.append_cons before flag flags]
      exact ih once

/-- The reading gets past the options that come first. -/
theorem exists_words_of_readFrom (once : AtMostOnce before)
    (printed : readFrom (given seen before) false args = .print e settings f) :
    ∃ flags rest, args = words flags ++ rest ∧ AtMostOnce (before ++ flags) ∧
      readFrom (given seen (before ++ flags)) false rest = .print e settings f ∧
      (rest = [] ∨ (∃ more, rest = "--" :: more) ∨ ∃ a more, rest = a :: more ∧ NotOption a) := by
  -- By the number of arguments left: an option may take two of them.
  induction length : args.length using Nat.strongRecOn generalizing before args with
  | ind n ih =>
    cases begins_of_readFrom printed with
    | nothing => exact ⟨[], [], rfl, by simpa using once, by simpa using printed, .inl rfl⟩
    | endOfOptions more =>
        exact ⟨[], _, rfl, by simpa using once, by simpa using printed, .inr (.inl ⟨more, rfl⟩)⟩
    | expression more notOption =>
        exact ⟨[], _, rfl, by simpa using once, by simpa using printed,
          .inr (.inr ⟨_, more, rfl, notOption⟩)⟩
    | option flag later =>
        rw [readFrom_words] at printed
        cases set : (given seen before).set? flag with
        | none => simp [set] at printed
        | some o' =>
            obtain ⟨onceMore, rfl⟩ := (set?_given_eq_some_iff once).1 set
            rw [set, Option.elim_some] at printed
            have shorter : later.length < n := by
              have := flag.length_words_pos
              rw [← length, List.length_append]
              omega
            obtain ⟨flags, rest, rfl, once, printed, next⟩ := ih _ shorter onceMore printed rfl
            refine ⟨flag :: flags, rest, ?_, ?_, ?_, next⟩
            · simp [words]
            · simpa using once
            · simpa using printed

theorem request_given_some :
    (given (some e) flags).request = .print e (settingsOf flags) (formatOf flags) := by
  simp [Options.request, given, settingsOf, formatOf]

/-! ## Calls -/

theorem readFrom_first (once : AtMostOnce flags) :
    readFrom (given none []) false (words flags ++ rest) =
      readFrom (given none flags) false rest :=
  readFrom_given (show AtMostOnce ([] ++ flags) from once)

/-- Past the expression, options are read until there are no more or `--` ends them. -/
theorem readFrom_expression (notOption : NotOption e) (once : AtMostOnce (before ++ flags)) :
    readFrom (given none before) false (e :: (words flags ++ rest)) =
      readFrom (given (some e) (before ++ flags)) false rest := by
  rw [readFrom_notOption notOption]
  exact readFrom_given once

/-- A call is read as a request for its expression. -/
theorem Call.read_eq (call : Call e flags args) (once : AtMostOnce flags) :
    read args = .print e (settingsOf flags) (formatOf flags) := by
  show readFrom (given none []) false args = _
  cases call with
  | @bare before after notOption =>
      rw [readFrom_first once.of_append, ← List.append_nil (words after),
        readFrom_expression notOption once]
      exact request_given_some
  | @ended before after notOption =>
      rw [List.append_assoc, List.cons_append, readFrom_first once.of_append,
        readFrom_expression notOption once, readFrom_endOfOptions]
      exact request_given_some
  | last =>
      rw [readFrom_first once, readFrom_endOfOptions]
      exact request_given_some

theorem eq_nil_of_readPlain
    (printed : readPlain (given (some e') flags) args = .print e settings f) : args = [] := by
  cases args with
  | nil => rfl
  | cons a rest => cases printed

/-- **The arguments that are read as a request for an expression are the calls.**  What is
asked for depends on which options there are. -/
theorem read_eq_print_iff :
    read args = .print e settings f ↔
      ∃ flags, AtMostOnce flags ∧ Call e flags args ∧ settings = settingsOf flags ∧
        f = formatOf flags := by
  constructor
  · intro printed
    have printed : readFrom (given none []) false args = .print e settings f := printed
    obtain ⟨before, rest, rfl, once, printed, next⟩ :=
      exists_words_of_readFrom atMostOnce_nil printed
    rw [List.nil_append] at once printed
    rcases next with rfl | ⟨more, rfl⟩ | ⟨a, more, rfl, notOption⟩
    -- There is no expression yet, so something has to follow.
    · cases printed
    · rw [readFrom_endOfOptions] at printed
      cases more with
      | nil => cases printed
      | cons a more =>
          have printed : readPlain (given (some a) before) more = .print e settings f := printed
          obtain rfl := eq_nil_of_readPlain printed
          cases request_given_some.symm.trans printed
          exact ⟨before, once, .last, rfl, rfl⟩
    -- The expression has been taken, and past the options that follow there is no place for another.
    · rw [readFrom_notOption notOption] at printed
      obtain ⟨after, rest, rfl, once, printed, next⟩ := exists_words_of_readFrom once printed
      rcases next with rfl | ⟨more, rfl⟩ | ⟨b, more, rfl, notOption'⟩
      · cases request_given_some.symm.trans printed
        exact ⟨_, once, by simpa using Call.bare notOption, rfl, rfl⟩
      · rw [readFrom_endOfOptions] at printed
        obtain rfl := eq_nil_of_readPlain printed
        cases request_given_some.symm.trans printed
        exact ⟨_, once, by simpa using Call.ended notOption, rfl, rfl⟩
      · rw [readFrom_notOption notOption'] at printed
        cases printed
  · rintro ⟨flags, once, call, rfl, rfl⟩
    exact call.read_eq once

end OperatorTree.CommandLine
