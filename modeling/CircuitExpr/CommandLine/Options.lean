/-
# Arguments of the program

The program takes one expression and these options:

| option | meaning |
| --- | --- |
| `--set VARIABLE=VALUE` | the value of a variable; may be repeated |
| `--fudge FUDGE` | how close to zero a divisor may come |
| `-h`, `--help` | show how the program is used, and nothing else |
| `-V`, `--version` | show the version, and nothing else |

The value of an option follows it as the next argument or after `=`.  What follows
`--` is never an option.  A value or an expression that starts with `-` and is longer
than that has to be given after `=` or after `--`.  Arguments are read from left to
right, and the first that settles what to do does.
-/

import CircuitExpr.Backend
import CircuitExpr.Double.Text

namespace CircuitExpr
namespace CommandLine

/-- Why arguments cannot be understood. -/
inductive UsageError where
  /-- The argument has no place. -/
  | unexpectedArgument (argument : String)
  /-- The value of an option is not there. -/
  | missingValue (option : String)
  /-- The option takes no value. -/
  | unexpectedValue (option value : String)
  /-- The value of an option is of another kind. -/
  | invalidValue (option value : String)
  /-- The option is there twice. -/
  | repeatedOption (option : String)
  /-- The expression is not there. -/
  | missingExpression
deriving DecidableEq, Repr

/-- The message of an error. -/
def UsageError.message : UsageError → String
  | unexpectedArgument argument => "unexpected argument '" ++ argument ++ "' found"
  | missingValue option => "a value is required for '" ++ option ++ "' but none was supplied"
  | unexpectedValue option value => "unexpected value '" ++ value ++ "' for '" ++ option ++ "'"
  | invalidValue option value => "invalid value '" ++ value ++ "' for '" ++ option ++ "'"
  | repeatedOption option => "the option '" ++ option ++ "' cannot be used multiple times"
  | missingExpression => "an expression is required"

/-- What one argument is by its form. -/
inductive Argument where
  /-- The mark after which there are no options. -/
  | separator
  /-- An option with its name written out, and what follows `=`. -/
  | long (name : String) (value : Option String)
  /-- Options of one letter each. -/
  | short (letters : List Char)
  /-- Anything else. -/
  | plain

/-- What an argument is by its form. -/
def Argument.ofText (text : String) : Argument :=
  match text.toList with
  | ['-', '-'] => .separator
  | '-' :: '-' :: cs =>
    let name := String.ofList (cs.takeWhile (· != '='))
    match cs.dropWhile (· != '=') with
    | [] => .long name none
    | _ :: value => .long name (some (String.ofList value))
  | ['-'] => .plain
  | '-' :: cs => .short cs
  | _ => .plain

/-- What to report on. -/
structure Options where
  /-- The expression. -/
  expression : String
  /-- The assignments, in order. -/
  assignments : List String
  /-- How close to zero a divisor may come. -/
  fudge : Double

/-- What the arguments ask for. -/
inductive Request where
  /-- To show how the program is used. -/
  | help
  /-- To show the version. -/
  | version
  /-- To report on an expression. -/
  | report (options : Options)

/-- What the arguments read so far say. -/
structure Draft where
  /-- The expression. -/
  expression : Option String
  /-- The assignments, in order. -/
  assignments : List String
  /-- How close to zero a divisor may come. -/
  fudge : Option Double

namespace Draft

/-- Nothing has been said. -/
def empty : Draft := ⟨none, [], none⟩

/-- With an expression; there is only one. -/
def withExpression (d : Draft) (text : String) : Except UsageError Draft :=
  match d.expression with
  | none => .ok { d with expression := some text }
  | some _ => .error (.unexpectedArgument text)

/-- With one more assignment. -/
def withAssignment (d : Draft) (text : String) : Except UsageError Draft :=
  .ok { d with assignments := d.assignments ++ [text] }

/-- With a guard for divisors; there is only one. -/
def withFudge (d : Draft) (text : String) : Except UsageError Draft :=
  match Double.read? text with
  | none => .error (.invalidValue "--fudge" text)
  | some x =>
    match d.fudge with
    | none => .ok { d with fudge := some x }
    | some _ => .error (.repeatedOption "--fudge")

/-- What is asked for when all arguments are read. -/
def finish (d : Draft) : Except UsageError Request :=
  match d.expression with
  | none => .error .missingExpression
  | some text => .ok (.report ⟨text, d.assignments, d.fudge.getD Backend.defaultFudge⟩)

end Draft

/-- The options that take a value. -/
def valueOption? (name : String) : Option (Draft → String → Except UsageError Draft) :=
  if name = "set" then some Draft.withAssignment
  else if name = "fudge" then some Draft.withFudge
  else none

/-- The options that settle what to do. -/
def settling? (name : String) : Option Request :=
  if name = "help" then some .help
  else if name = "version" then some .version
  else none

/-- The letters of options that settle what to do. -/
def settlingLetter? (letter : Char) : Option Request :=
  if letter = 'h' then some .help
  else if letter = 'V' then some .version
  else none

/-- Reads the arguments after the separator. -/
def readPlain (d : Draft) : List String → Except UsageError Request
  | [] => d.finish
  | text :: rest => do readPlain (← d.withExpression text) rest

/-- Reads arguments. -/
def readFrom (d : Draft) : List String → Except UsageError Request
  | [] => d.finish
  | text :: rest =>
    match Argument.ofText text with
    | .separator => readPlain d rest
    | .plain => do readFrom (← d.withExpression text) rest
    | .short letters =>
      match letters.head?.bind settlingLetter? with
      | some request => .ok request
      | none => .error (.unexpectedArgument text)
    | .long name value =>
      match settling? name, valueOption? name, value with
      | some request, _, none => .ok request
      | some _, _, some v => .error (.unexpectedValue ("--" ++ name) v)
      | none, none, _ => .error (.unexpectedArgument text)
      | none, some take, some v => do readFrom (← take d v) rest
      | none, some take, none =>
        match rest with
        | [] => .error (.missingValue text)
        | v :: rest =>
          match Argument.ofText v with
          | .plain => do readFrom (← take d v) rest
          | _ => .error (.missingValue text)

/-- What the arguments ask for. -/
def Request.read (arguments : List String) : Except UsageError Request :=
  readFrom .empty arguments

end CommandLine
end CircuitExpr
