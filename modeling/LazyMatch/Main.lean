import LazyMatch.CommandLine

/-!
# The program

Runs the command line in an empty session and ends with its status.
-/

open LazyMatch

/-- Run the arguments. A fault that the command line does not report ends with status one. -/
def main (args : List String) : IO UInt32 := do
  match (Session.reply CommandLine.depth (.main args []) {}).1 with
  | .answered (.exit e) =>
    IO.print e.stdout
    IO.eprint e.stderr
    return (e.status.getD 0).toUInt32
  | .failed _ message =>
    IO.eprintln (message.getD "The program cannot be run.")
    return 1
  | _ =>
    IO.eprintln "The program does not come to an end."
    return 1
