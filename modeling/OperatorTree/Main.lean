/-
# OperatorTree.Main -- the program

Everything is decided in `OperatorTree.CommandLine`; here the output is written.
-/
import OperatorTree.CommandLine

/-- Prints the expression given as argument. -/
def main (args : List String) : IO UInt32 := do
  let output := OperatorTree.CommandLine.run args
  IO.print output.stdout
  IO.eprint output.stderr
  return output.code.toUInt32
