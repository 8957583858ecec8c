/-
# The program

From its arguments the program computes its output and its exit code:

| code | when |
| --- | --- |
| 0 | all went well |
| 1 | the expression or an assignment has an error |
| 2 | the arguments cannot be understood |
-/

import CircuitExpr.Backend.Real
import CircuitExpr.CommandLine.Options
import CircuitExpr.Report
import CircuitExpr.Vocabulary.Builtin

namespace CircuitExpr
namespace CommandLine

/-- What a run of the program leaves behind. -/
structure Outcome where
  /-- The exit code. -/
  code : UInt32
  /-- The output. -/
  stdout : String
  /-- The messages. -/
  stderr : String
deriving DecidableEq, Repr

/-- The name and version of the program. -/
def versionText : String := "spice-expr 0.1.0\n"

/-- How the program is used. -/
def helpText : String := linesText
  ["Parse, differentiate and evaluate SPICE behavioral expressions", "",
    "Usage: spice-expr [OPTIONS] <EXPRESSION>", "",
    "Options:",
    "      --set <VARIABLE=VALUE>  Value of a variable, such as V(in)=1.5 or time=1u",
    "      --fudge <FUDGE>         Tolerance for the division and power guards",
    "  -h, --help                  Print help",
    "  -V, --version               Print version"]

/-- The line for an error. -/
def errorLine (colours : Bool) (message : String) : String :=
  Colour.paint .red colours "Error" ++ ": " ++ message ++ "\n"

/-- The outcome of a report. -/
def Outcome.ofReport (colours : Bool) (r : Report) : Outcome :=
  match r.failure with
  | none => ⟨0, r.shown, ""⟩
  | some message => ⟨1, r.shown, errorLine colours message⟩

/-- Does what is asked for. -/
def answer (colours : Bool) : Request → Outcome
  | .help => ⟨0, helpText, ""⟩
  | .version => ⟨0, versionText, ""⟩
  | .report o =>
    let s : Setting Double Cell Double := ⟨Vocabulary.builtin, Backend.real o.fudge⟩
    .ofReport colours (Report.ofAssignments colours s o.assignments o.expression)

/-- Runs the program. -/
def run (colours : Bool) (arguments : List String) : Outcome :=
  match Request.read arguments with
  | .error e => ⟨2, "", "error: " ++ e.message ++ "\n\nFor more information, try '--help'.\n"⟩
  | .ok request => answer colours request

end CommandLine
end CircuitExpr
