import MethodExtraction.CommandLine.Argument
import MethodExtraction.Numeric.Unsigned

namespace MethodExtraction.CommandLine

open Numeric

def programName : String := "extract-methods"

def version : String := programName ++ " 0.1.0\n"

def fullUsage : String := "Usage: " ++ programName ++ " [OPTIONS] <ROOT>"

def usageWith (used : List Argument) : String :=
  "Usage: " ++ " ".intercalate (programName :: used.eraseDups.map Argument.form) ++ " <ROOT>"

def usage (used : List Argument) : String := if used.isEmpty then fullUsage else usageWith used

def helpColumn (a : Argument) : String :=
  match a.short? with
  | some c => "  -" ++ c.toString ++ ", " ++ a.form
  | none => "      " ++ a.form

def helpLine (width : Nat) (a : Argument) : String :=
  let column := helpColumn a
  column ++ String.ofList (List.replicate (width - column.length) ' ') ++ "  " ++ a.about

def help : String :=
  let width := (Argument.options.map fun a => (helpColumn a).length).foldl max 0
  "\n".intercalate
    (["Extract Java method declarations from a source tree into a JSON array", "", fullUsage, "",
      "Arguments:", "  <ROOT>  " ++ Argument.root.about, "", "Options:"] ++
      Argument.options.map (helpLine width)) ++ "\n"

/-- Why the arguments are not taken. The options that were given go with errors that show them. -/
inductive ArgumentError where
  | help
  | version
  /-- No such option, or one argument too many. A word like an option may have been meant as the
  value `--` makes of it. -/
  | unknown (word : String) (similar : Option Argument) (likeOption : Bool) (used : List Argument)
  | repeated (argument : Argument)
  | noValue (argument : Argument)
  | invalidValue (argument : Argument) (value : String) (cause : UnsignedError)
  | extraValue (argument : Argument) (value : String) (used : List Argument)
  | missingRoot (used : List Argument)
  deriving DecidableEq, Inhabited, Repr

namespace ArgumentError

def message : ArgumentError → String
  | .unknown word .. => "unexpected argument '" ++ word ++ "' found"
  | .repeated a => "the argument '" ++ a.form ++ "' cannot be used multiple times"
  | .noValue a => "a value is required for '" ++ a.form ++ "' but none was supplied"
  | .invalidValue a value cause =>
    "invalid value '" ++ value ++ "' for '" ++ a.form ++ "': " ++ cause.text
  | .extraValue a value _ =>
    "unexpected value '" ++ value ++ "' for '" ++ a.form ++ "' found; no more were expected"
  | .missingRoot _ => "the following required arguments were not provided:\n  <ROOT>"
  | .help | .version => ""

def tip? : ArgumentError → Option String
  | .unknown _ (some a) .. => some ("a similar argument exists: '--" ++ a.name ++ "'")
  | .unknown word none true _ =>
    some ("to pass '" ++ word ++ "' as a value, use '-- " ++ word ++ "'")
  | _ => none

def usage? : ArgumentError → Option String
  | .unknown _ _ _ used => some (usage used)
  | .repeated _ => some fullUsage
  | .extraValue _ _ used => some (usage used)
  | .missingRoot used => some (usageWith used)
  | _ => none

def text (e : ArgumentError) : String :=
  match e with
  | .help => CommandLine.help
  | .version => CommandLine.version
  | _ =>
    "error: " ++ e.message ++ (e.tip?.elim "" fun tip => "\n\n  tip: " ++ tip) ++
      (e.usage?.elim "" fun usage => "\n\n" ++ usage) ++
      "\n\nFor more information, try '--help'.\n"

end ArgumentError

end MethodExtraction.CommandLine
