import MethodExtraction.CommandLine.Disk
import MethodExtraction.CommandLine.Program
import Std.Time

namespace MethodExtraction.CommandLine

open Extraction

def clockTime : IO Std.Time.PlainDateTime :=
  return .ofWallTime ((← Std.Time.Timestamp.now).toWallTime .zero)

def configured? (words : List String) : Option Config := do
  let arguments ← (parseArguments words).toOption
  return (← (Settings.ofArguments arguments).toOption).config

def run (words : List String) : IO Nat := do
  let started ← clockTime
  let begun ← IO.monoNanosNow
  let config := configured? words
  let before ← config.elim (return ⟨[], []⟩) Disk.read
  let (execution, after) := execute words (← IO.getEnv "RUST_LOG") before
  if let some config := config then Disk.update config before after
  let clock : Clock :=
    ⟨started.format "uuuu-MM-dd HH:mm:ss" ++ " UTC", ⟨(← IO.monoNanosNow) - begun⟩⟩
  let stamp := (← clockTime).format "uuuu-MM-dd'T'HH:mm:ss.SSSSSS" ++ "Z "
  (← IO.getStderr).putStr (execution.stderr stamp)
  (← IO.getStdout).putStr (execution.stdout clock)
  return execution.status

end MethodExtraction.CommandLine

def main (words : List String) : IO UInt32 :=
  return (← MethodExtraction.CommandLine.run words).toUInt32
