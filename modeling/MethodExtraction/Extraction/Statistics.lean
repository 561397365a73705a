import MethodExtraction.Extraction.Failure
import MethodExtraction.Numeric.Duration
import MethodExtraction.Numeric.Unsigned

namespace MethodExtraction.Extraction

open Numeric

inductive FileOutcome where
  | parsed (records writeFailures : Nat)
  | failed (failure : FileFailure)
  deriving DecidableEq, Inhabited, Repr

structure Statistics where
  filesParsed : Nat := 0
  filesFailed : Nat := 0
  recordsWritten : Nat := 0
  writeFailures : Nat := 0
  milliseconds : Nat := 0
  deriving DecidableEq, Inhabited, Repr

namespace Statistics

def record (s : Statistics) : FileOutcome → Statistics
  | .parsed records writeFailures =>
    { s with
      filesParsed := s.filesParsed + 1
      recordsWritten := s.recordsWritten + records
      writeFailures := s.writeFailures + writeFailures }
  | .failed _ => { s with filesFailed := s.filesFailed + 1 }

def totalFiles (s : Statistics) : Nat := s.filesParsed + s.filesFailed

def setElapsed (s : Statistics) (d : Duration) : Statistics :=
  { s with milliseconds := d.milliseconds % wordLimit }

/-- The elapsed seconds, computed in single precision. -/
def seconds (s : Statistics) : String :=
  match single.round? ⟨s.milliseconds, 1⟩ with
  | some ms => Duration.decimal single ⟨ms.ratio.upper, ms.ratio.lower * 1000⟩
  | none => "inf"

def summary (s : Statistics) : String :=
  "Extracted " ++ toString s.recordsWritten ++ " methods from " ++ toString s.filesParsed ++
    " files in " ++ s.seconds ++ "s (" ++ toString s.filesFailed ++ " failed, " ++
    toString s.writeFailures ++ " write errors)"

end Statistics

end MethodExtraction.Extraction
