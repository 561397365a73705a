import MethodExtraction.Files.Walk
import MethodExtraction.Output.Format

namespace MethodExtraction.Extraction

open Files Output

structure Config extends SourceOptions where
  root : Path := .ofText "."
  output : Path := .ofText "output.json"
  maxFileSize : Option Nat := none
  format : OutputFormat := .legacy
  deriving DecidableEq, Inhabited, Repr

def Config.validate (c : Config) : Except String Unit :=
  if c.suffix = "" then .error "Suffix must not be empty"
  else if c.maxDepth = some 0 then .error "Max depth must be at least 1"
  else if c.maxFileSize = some 0 then .error "Max file size must be greater than 0"
  else if c.output = .empty then .error "Output path must not be empty"
  else .ok ()

end MethodExtraction.Extraction
