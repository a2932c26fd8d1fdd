/-
# OperatorTree.CommandLine -- the command line, from arguments to output

The program takes one expression and prints it, as an outline or as text,
flattened or as it was read.  Arguments are read from left to right.  Options may
stand before or after the expression, each at most once; `--` ends them, and a
single `-` is an ordinary argument.  The first argument that cannot be read ends
the reading with a usage error, and a request for the version or for help ends
it at once, whatever comes later.  Only a reading that gets to the end can find
the expression missing.
-/
import OperatorTree.Expr.Outline
import OperatorTree.Expr.Text
import OperatorTree.Grammar.Parse

namespace OperatorTree.CommandLine

set_option autoImplicit false

/-- The version of the program. -/
def version : String := "0.1.0"

/-- How an expression is printed. -/
inductive Format where
  /-- Its labels, indented by depth. -/
  | debug
  /-- Its text. -/
  | display
  deriving DecidableEq, Repr

namespace Format

/-- The format that an option value names. -/
def ofName? (name : String) : Option Format :=
  if name = "debug" then some debug else if name = "display" then some display else none

end Format

/-- What the arguments read so far have set. -/
structure Options where
  expression : Option String := none
  noFlatten : Bool := false
  format : Option Format := none
  deriving DecidableEq, Repr

/-- What the arguments ask for. -/
inductive Request where
  | print (expression : String) (settings : Grammar.Settings) (format : Format)
  | version
  | help
  | usageError
  deriving DecidableEq, Repr

/-- The request of arguments that have all been read. -/
def Options.request (o : Options) : Request :=
  match o.expression with
  | none => .usageError
  | some e => .print e ⟨!o.noFlatten⟩ (o.format.getD .debug)

/-! ## Reading arguments -/

/-- How one argument is to be read. -/
inductive Argument where
  /-- Not an option. -/
  | plain
  /-- `--` alone. -/
  | endOfOptions
  | noFlatten
  /-- `--format`, with the value after `=` if there is one. -/
  | format (value : Option String)
  | version
  | help
  | unknown
  deriving DecidableEq, Repr

namespace Argument

/-- The long option that follows two dashes. -/
def ofLong (name : List Char) : Argument :=
  if name = "no-flatten".toList then noFlatten
  else if name = "format".toList then format none
  else if "format=".toList <+: name then
    format (some (String.ofList (name.drop "format=".length)))
  else if name = "version".toList then version
  else if name = "help".toList then help
  else unknown

/-- The option that a letter after one dash stands for. -/
def ofShort (letter : Char) : Argument :=
  if letter = 'V' then version else if letter = 'h' then help else unknown

/-- How an argument is to be read.  Of several letters after one dash the first decides. -/
def ofString (argument : String) : Argument :=
  match argument.toList with
  | ['-', '-'] => endOfOptions
  | '-' :: '-' :: name => ofLong name
  | '-' :: letter :: _ => ofShort letter
  | _ => plain

end Argument

/-- Takes the expression, of which there can be only one. -/
def Options.take? (o : Options) (e : String) : Option Options :=
  match o.expression with
  | none => some { o with expression := some e }
  | some _ => none

/-- Sets the format, once. -/
def Options.setFormat? (o : Options) (name : String) : Option Options :=
  match o.format with
  | none => (Format.ofName? name).map fun f => { o with format := some f }
  | some _ => none

/-- Turns flattening off, once. -/
def Options.setNoFlatten? (o : Options) : Option Options :=
  if o.noFlatten then none else some { o with noFlatten := true }

/-- Reads arguments after `--`, none of which is an option. -/
def readPlain (o : Options) : List String → Request
  | [] => o.request
  | a :: rest =>
    match o.take? a with
    | none => .usageError
    | some o => readPlain o rest

/-- Reads arguments.  `awaiting` says that the last one was `--format` without a
value; what follows is then taken for the value, an option too, and no option is
the name of a format. -/
def readFrom (o : Options) (awaiting : Bool) : List String → Request
  | [] => if awaiting then .usageError else o.request
  | a :: rest =>
    if awaiting then
      match o.setFormat? a with
      | none => .usageError
      | some o => readFrom o false rest
    else
      match Argument.ofString a with
      | .plain =>
        match o.take? a with
        | none => .usageError
        | some o => readFrom o false rest
      | .endOfOptions => readPlain o rest
      | .noFlatten =>
        match o.setNoFlatten? with
        | none => .usageError
        | some o => readFrom o false rest
      | .format none => readFrom o true rest
      | .format (some value) =>
        match o.setFormat? value with
        | none => .usageError
        | some o => readFrom o false rest
      | .version => .version
      | .help => .help
      | .unknown => .usageError

/-- What the arguments ask for. -/
def read (args : List String) : Request :=
  readFrom {} false args

/-! ## Output -/

/-- What the program leaves behind. -/
structure Output where
  code : Nat
  stdout : String
  stderr : String
  deriving DecidableEq, Repr

/-- An expression as it is printed. -/
def render (format : Format) (e : Expr) : String :=
  match format with
  | .debug => e.outline
  | .display => e.text ++ "\n"

/-- Carries out a request: 0 for success, 65 for a text that is no expression, 2
for arguments that cannot be read.  The texts of the help and of usage errors are
left out. -/
def perform : Request → Output
  | .print e settings format =>
    match Grammar.parse settings e with
    | .ok tree => ⟨0, render format tree, ""⟩
    | .error err => ⟨65, "", err.message ++ "\n"⟩
  | .version => ⟨0, "exprtree " ++ version ++ "\n", ""⟩
  | .help => ⟨0, "", ""⟩
  | .usageError => ⟨2, "", ""⟩

/-- Runs the program on its arguments. -/
def run (args : List String) : Output :=
  perform (read args)

end OperatorTree.CommandLine
