/-
# The command line
-/

import CircuitExpr.CommandLine

open CircuitExpr

/-- Runs the program on the arguments of the process. -/
def main (arguments : List String) : IO UInt32 := do
  let stdout ← IO.getStdout
  let stderr ← IO.getStderr
  let colours := Colour.wanted (← IO.getEnv "CLICOLOR_FORCE") (← IO.getEnv "NO_COLOR")
    (← IO.getEnv "CLICOLOR") (← stdout.isTty)
  let outcome := CommandLine.run colours arguments
  stdout.putStr outcome.stdout
  stderr.putStr outcome.stderr
  return outcome.code
