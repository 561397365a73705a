import MethodExtraction.Numeric.Unsigned
import MethodExtraction.Text.Trim

namespace MethodExtraction.CommandLine

open Numeric Text

inductive Level where
  | error
  | warn
  | info
  | debug
  | trace
  deriving DecidableEq, Inhabited, Repr

namespace Level

def rank (l : Level) : Nat := l.ctorIdx + 1

def label : Level → String
  | .error => "ERROR"
  | .warn => " WARN"
  | .info => " INFO"
  | .debug => "DEBUG"
  | .trace => "TRACE"

end Level

/-- Events up to a rank are shown, 0 for none; those of one target only, if there is one. -/
structure LogDirective where
  target : String
  rank : Nat
  spans : Bool := false
  deriving DecidableEq, Inhabited, Repr

namespace LogDirective

def highest : Nat := Level.trace.rank

def rankNames : List (String × Nat) :=
  [("off", 0), ("error", 1), ("warn", 2), ("info", 3), ("debug", 4), ("trace", 5)]

def rank? (text : List Char) : Option Nat :=
  match readUnsigned text with
  | .ok n => if n ≤ highest then some n else none
  | .error _ =>
    rankNames.lookup (String.ofList (text.map Char.toLower))

def startsDirective (c : Char) : Bool :=
  c = '-' || c = ':' || c = '_' || c.isAlphanum || 0x80 ≤ c.toNat

def readLevel? : List Char → Option Nat
  | [] | ['='] => some highest
  | '=' :: level => rank? level
  | _ => none

/-- A directive in which white space has no meaning: with a level behind it, it is wrong. -/
def read? (text : List Char) : Option LogDirective :=
  match trim text with
  | [] => none
  | c :: _ =>
    let target := text.takeWhile fun c => c ≠ '=' && c ≠ '['
    let rest := text.dropWhile fun c => c ≠ '=' && c ≠ '['
    match rest with
    | '[' :: inside =>
      (readLevel? ((inside.dropWhile (· ≠ ']')).drop 1)).bind fun rank =>
        if inside.contains ']' then some ⟨String.ofList target, rank, true⟩ else none
    | [] =>
      if startsDirective c then
        match rank? text with
        | some rank => some ⟨"", rank, false⟩
        | none => some ⟨String.ofList target, highest, false⟩
      else none
    | _ =>
      if startsDirective c && text.head? == some c then
        (readLevel? rest).map fun rank => ⟨String.ofList target, rank, false⟩
      else none

end LogDirective

abbrev LogFilter := List LogDirective

namespace LogFilter

def read? (text : String) : Option LogFilter :=
  ((text.toList.splitOn ',').filter (· ≠ [])).mapM LogDirective.read?

/-- Of the directives for the event's target the longest decides, the last of two equal ones. -/
def shows (f : LogFilter) (target : String) (level : Level) : Bool :=
  let decisive := f.foldl (fun best d =>
    if !d.spans && d.target.toList.isPrefixOf target.toList &&
        best.all (fun (b : LogDirective) => b.target.length ≤ d.target.length) then some d
    else best) (none : Option LogDirective)
  decisive.any fun d => level.rank ≤ d.rank

def choose (environment : Option String) (default : String) : LogFilter :=
  ((environment.bind read?).orElse fun _ => read? default).getD []

end LogFilter

end MethodExtraction.CommandLine
