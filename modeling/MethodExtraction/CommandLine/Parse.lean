import MethodExtraction.CommandLine.Similarity
import MethodExtraction.CommandLine.Usage

namespace MethodExtraction.CommandLine

open Numeric

/-- What has been read so far. The value of an option may be the next word, so an argument is taken
up only when the next one begins, or at the end. -/
structure Draft where
  values : Arguments := {}
  used : List Argument := []
  pending : Option (Argument × Option String) := none
  /-- Whether all words that follow are values, because `--` has been read. -/
  trailing : Bool := false
  deriving DecidableEq, Inhabited, Repr

def long? (word : List Char) : Option (String × Option String) :=
  match word with
  | '-' :: '-' :: body =>
    match body.dropWhile (· ≠ '=') with
    | [] => some (String.ofList body, none)
    | _ :: value => some (String.ofList (body.takeWhile (· ≠ '=')), some (String.ofList value))
  | _ => none

def store (a : Argument) (value : String) (v : Arguments) : Except ArgumentError Arguments :=
  match a with
  | .root => if value = "" then .error (.noValue a) else .ok { v with root := value }
  | .output => if value = "" then .error (.noValue a) else .ok { v with output := value }
  | .suffix => .ok { v with suffix := value }
  | .maxDepth =>
    match readUnsigned value.toList with
    | .ok depth => .ok { v with maxDepth := some depth }
    | .error e => .error (.invalidValue a value e)
  | .maxFileSize => .ok { v with maxFileSize := some value }
  | .followLinks => .ok { v with followLinks := true }
  | .sorted => .ok { v with sorted := true }
  | .strictJson => .ok { v with strictJson := true }
  | .stats => .ok { v with stats := true }
  | .progress => .ok { v with progress := true }
  | .verbose => .ok { v with verbose := true }
  | .quiet => .ok { v with quiet := true }
  | .help => .error .help
  | .version => .error .version

namespace Draft

def accept (d : Draft) (a : Argument) (value : Option String) : Except ArgumentError Draft := do
  if a.takesValue && value.isNone then .error (.noValue a)
  else if a ∈ d.used then .error (.repeated a)
  else
    let values ← store a (value.getD "") d.values
    .ok { d with values, used := d.used ++ [a], pending := none }

def acceptPending (d : Draft) : Except ArgumentError Draft :=
  match d.pending with
  | none => .ok d
  | some (a, value) => d.accept a value

def begin (d : Draft) (a : Argument) (value : Option String) : Except ArgumentError Draft := do
  (← d.acceptPending).accept a value

def await (d : Draft) (a : Argument) : Except ArgumentError Draft := do
  let d ← d.acceptPending
  return { d with pending := some (a, none) }

def shown (used : List Argument) : List Argument := used.filter (· ≠ .root)

/-- The options that an error shows, after an attempt to take up the pending argument. -/
def attempted (d : Draft) : List Argument :=
  match d.pending with
  | some (a, some _) => shown (if a ∈ d.used then d.used.erase a else d.used ++ [a])
  | _ => shown d.used

def readLong (d : Draft) (name : String) (value : Option String) : Except ArgumentError Draft :=
  match Argument.ofName? name with
  | some a =>
    match a.takesValue, value with
    | true, none => d.await a
    | false, some v => .error (.extraValue a v (shown d.used ++ [a]))
    | _, _ => d.begin a value
  | none =>
    let similar := similarOption? name
    .error (.unknown ("--" ++ name) similar similar.isNone (d.attempted ++ similar.toList))

/-- Options of one letter each. What follows one that has a value is its value. -/
def readShort (d : Draft) : List Char → Except ArgumentError Draft
  | [] => .ok d
  | c :: rest =>
    match Argument.ofShort? c with
    | some a =>
      if a.takesValue then
        match rest with
        | [] => d.await a
        | '=' :: value => d.begin a (String.ofList value)
        | value => d.begin a (String.ofList value)
      else do (← d.begin a none).readShort rest
    | none => .error (.unknown (String.ofList ['-', c]) none true [])

def readPlain (d : Draft) (word : String) : Except ArgumentError Draft := do
  if .root ∈ d.used || d.pending.any (·.1 = .root) then .error (.unknown word none false [])
  else
    let d ← d.acceptPending
    return { d with pending := some (.root, some word) }

def read (d : Draft) (word : String) : Except ArgumentError Draft :=
  if d.trailing then d.readPlain word
  else if word = "--" then .ok { d with trailing := true }
  else
    match long? word.toList, word.toList, d.pending with
    | some (name, value), _, _ => d.readLong name value
    | none, '-' :: c :: letters, _ => d.readShort (c :: letters)
    | none, _, some (a, none) => .ok { d with pending := some (a, some word) }
    | none, _, _ => d.readPlain word

def finish (d : Draft) : Except ArgumentError Arguments := do
  let d ← d.acceptPending
  if .root ∈ d.used then .ok d.values else .error (.missingRoot (shown d.used))

end Draft

def parseArguments (words : List String) : Except ArgumentError Arguments := do
  (← words.foldlM Draft.read {}).finish

end MethodExtraction.CommandLine
