import MethodExtraction.CommandLine.Argument
import MethodExtraction.Extraction.Config
import MethodExtraction.Extraction.Failure
import MethodExtraction.Numeric.Size

namespace MethodExtraction.CommandLine

open Extraction Files Numeric Output

structure Settings where
  arguments : Arguments
  config : Config
  deriving DecidableEq, Inhabited, Repr

namespace Settings

def sizeLimit (a : Arguments) : Except ExtractionError (Option Nat) :=
  match a.maxFileSize with
  | none => .ok none
  | some text =>
    match readSize text with
    | .ok limit => .ok (some limit)
    | .error size => .error (.configuration ("Invalid size: " ++ size))

def ofArguments (a : Arguments) : Except ExtractionError Settings := do
  let config : Config :=
    { root := .ofText a.root
      output := .ofText a.output
      suffix := a.suffix
      followLinks := a.followLinks
      maxDepth := a.maxDepth
      sorted := a.sorted
      maxFileSize := ← sizeLimit a
      format := if a.strictJson then .strict else .legacy }
  match config.validate with
  | .ok () => .ok ⟨a, config⟩
  | .error message => .error (.configuration message)

def logDirective (s : Settings) : String :=
  if s.arguments.verbose then "extract_methods=debug" else "warn"

end Settings

end MethodExtraction.CommandLine
