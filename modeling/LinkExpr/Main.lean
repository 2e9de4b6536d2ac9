import LinkExpr.Command

/-!
# The program

Reads the document that a command names, runs the command, and writes what it has to say. The log is
kept silent.
-/

namespace LinkExpr

/-- The text of a file, if it can be read. -/
def readDocument? (path : String) : IO (Option String) := do
  try
    return some (← IO.FS.readFile path)
  catch _ =>
    return none

end LinkExpr

open LinkExpr in
/-- Runs the command that the arguments form, and ends with its code. -/
def main (arguments : List String) : IO UInt32 := do
  let outcome ← match Invocation.parse arguments with
    | .error fault => pure (Outcome.ofUsageFault fault)
    | .ok invocation =>
        let contents? ← match invocation.command.document? with
          | some path => readDocument? path
          | none => pure none
        pure (invocation.run .silent contents?)
  (← IO.getStdout).putStr outcome.output
  (← IO.getStderr).putStr outcome.errors
  return .ofNat outcome.code
