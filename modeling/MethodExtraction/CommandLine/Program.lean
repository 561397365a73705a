import MethodExtraction.CommandLine.LogFilter
import MethodExtraction.CommandLine.Parse
import MethodExtraction.CommandLine.Settings
import MethodExtraction.Extraction.ToFile

namespace MethodExtraction.CommandLine

open Extraction Files Numeric

inductive Execution where
  | refused (error : ArgumentError)
  | misconfigured (error : ExtractionError)
  | ran (settings : Settings) (log : LogFilter) (report : RunReport)

def execute (words : List String) (filter : Option String) (fs : FileSystem) :
    Execution × FileSystem :=
  match parseArguments words with
  | .error e => (.refused e, fs)
  | .ok arguments =>
    match Settings.ofArguments arguments with
    | .error e => (.misconfigured e, fs)
    | .ok settings =>
      let (report, fs) := extractToFile settings.config fs
      (.ran settings (.choose filter settings.logDirective) report, fs)

structure LogEvent where
  level : Level
  message : String
  deriving DecidableEq, Inhabited, Repr

def logTarget : String := "extract_methods::extraction::engine"

def fileEvents (file : FileReport) : List LogEvent :=
  let path := " path=" ++ file.path.display
  match file.outcome with
  | .failed (.unparseable cause) => [⟨.warn, (ExtractionError.parse cause).userMessage ++ path⟩]
  | .failed (.unreadable cause) => [⟨.warn, cause.userMessage ++ path⟩]
  | .parsed records _ =>
    (file.unwritten.map fun u =>
      ⟨.error, "failed to write record: " ++ u.cause.text ++ path ++ " method=" ++
        u.method.quote⟩) ++
      [⟨.debug, "extracted methods" ++ path ++ " records=" ++ toString records⟩]

def runEvents (report : RunReport) : List LogEvent :=
  report.files.flatMap fileEvents ++
    match report.result with
    | .ok s =>
      [⟨.debug, "extraction finished parsed=" ++ toString s.filesParsed ++ " failed=" ++
        toString s.filesFailed ++ " records=" ++ toString s.recordsWritten⟩]
    | .error _ => []

def diagnostics (report : RunReport) : List String :=
  report.files.filterMap fun file =>
    match file.outcome with
    | .failed failure => some (failure.diagnostic file.path)
    | .parsed .. => none

structure Clock where
  started : String
  elapsed : Duration

def statisticsLines (s : Statistics) (clock : Clock) : List String :=
  ["", "Extraction Statistics:", (s.setElapsed clock.elapsed).summary,
    "Started: " ++ clock.started, "Files seen: " ++ toString s.totalFiles,
    "Methods written: " ++ toString s.recordsWritten] ++
    (if s.writeFailures = 0 then [] else ["Write failures: " ++ toString s.writeFailures]) ++
    ["Processing time: " ++ clock.elapsed.text]

def errorLines (e : ExtractionError) : List String :=
  ("✗ " ++ e.userMessage) ::
    match e with
    | .traversal _ => ["", "Tip: check that the root directory exists and is readable"]
    | .configuration _ => ["", "Try '" ++ programName ++ " --help' for usage information."]
    | _ => []

def unlines (lines : List String) : String := String.join (lines.map (· ++ "\n"))

namespace Execution

def status : Execution → Nat
  | .refused .help | .refused .version => 0
  | .refused _ | .misconfigured _ => 2
  | .ran _ _ report => if report.result.isOk then 0 else 1

def stdout (clock : Clock) : Execution → String
  | .refused .help => ArgumentError.help.text
  | .refused .version => ArgumentError.version.text
  | .refused _ | .misconfigured _ => ""
  | .ran settings _ report =>
    let a := settings.arguments
    unlines ((if a.quiet then [] else diagnostics report) ++
      match report.result with
      | .error _ => []
      | .ok s =>
        ["Success: " ++ toString s.filesParsed, "Fail: " ++ toString s.filesFailed] ++
          (if a.stats then statisticsLines s clock else []))

/-- Everything for the standard error stream; `stamp` stands before every log line. -/
def stderr (stamp : String) : Execution → String
  | .refused .help | .refused .version => ""
  | .refused e => e.text
  | .misconfigured e => unlines (errorLines e)
  | .ran _ log report =>
    unlines (((runEvents report).filter fun e => log.shows logTarget e.level).map
      (fun e => stamp ++ e.level.label ++ " " ++ e.message) ++
      match report.result with
      | .ok _ => []
      | .error e => errorLines e)

end Execution

end MethodExtraction.CommandLine
