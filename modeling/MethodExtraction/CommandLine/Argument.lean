namespace MethodExtraction.CommandLine

inductive Argument where
  | root | output | suffix | followLinks | maxDepth | sorted | maxFileSize | strictJson | stats
  | progress | verbose | quiet | help | version
  deriving DecidableEq, Inhabited, Repr

namespace Argument

def options : List Argument :=
  [.output, .suffix, .followLinks, .maxDepth, .sorted, .maxFileSize, .strictJson, .stats,
    .progress, .verbose, .quiet, .help, .version]

def name : Argument → String
  | .root => "root"
  | .output => "output"
  | .suffix => "suffix"
  | .followLinks => "follow-links"
  | .maxDepth => "max-depth"
  | .sorted => "sorted"
  | .maxFileSize => "max-file-size"
  | .strictJson => "strict-json"
  | .stats => "stats"
  | .progress => "progress"
  | .verbose => "verbose"
  | .quiet => "quiet"
  | .help => "help"
  | .version => "version"

def short? : Argument → Option Char
  | .output => some 'o'
  | .help => some 'h'
  | .version => some 'V'
  | _ => none

def valueName? : Argument → Option String
  | .root => some "ROOT"
  | .output => some "OUTPUT"
  | .suffix => some "SUFFIX"
  | .maxDepth => some "MAX_DEPTH"
  | .maxFileSize => some "MAX_FILE_SIZE"
  | _ => none

def takesValue (a : Argument) : Bool := a.valueName?.isSome

def about : Argument → String
  | .root => "Root directory of the source tree"
  | .output => "Output JSON file [default: output.json]"
  | .suffix => "File name suffix of source files [default: .java]"
  | .followLinks => "Descend into symlinked directories"
  | .maxDepth => "Maximum directory depth below the root"
  | .sorted => "Visit files in file name order for reproducible output"
  | .maxFileSize => "Skip source files above this size (e.g., 10MB)"
  | .strictJson => "Write a valid JSON array: no trailing comma, no quote pre-escaping"
  | .stats => "Output extraction statistics"
  | .progress => "Show a progress spinner"
  | .verbose => "Enable verbose logging"
  | .quiet => "Suppress per-file diagnostics"
  | .help => "Print help"
  | .version => "Print version"

def form (a : Argument) : String :=
  match a, a.valueName? with
  | .root, _ => "<ROOT>"
  | _, some value => "--" ++ a.name ++ " <" ++ value ++ ">"
  | _, none => "--" ++ a.name

def ofName? (name : String) : Option Argument := options.find? (·.name == name)

def ofShort? (c : Char) : Option Argument := options.find? (·.short? == some c)

end Argument

structure Arguments where
  root : String := ""
  output : String := "output.json"
  suffix : String := ".java"
  followLinks : Bool := false
  maxDepth : Option Nat := none
  sorted : Bool := false
  maxFileSize : Option String := none
  strictJson : Bool := false
  stats : Bool := false
  progress : Bool := false
  verbose : Bool := false
  quiet : Bool := false
  deriving DecidableEq, Inhabited, Repr

end MethodExtraction.CommandLine
