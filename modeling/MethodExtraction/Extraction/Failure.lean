import MethodExtraction.Files.Walk
import MethodExtraction.Java.Parser

namespace MethodExtraction.Extraction

open Files Java

structure ParseError where
  message : String
  location : Option Position
  deriving DecidableEq, Inhabited, Repr

namespace ParseError

def ofSyntaxError (e : SyntaxError) : ParseError := ⟨"Syntax error", e.location⟩

def place (p : Position) : String :=
  " at line " ++ toString p.line ++ ", column " ++ toString p.column

def text (e : ParseError) : String := e.message ++ (e.location.elim "" place)

end ParseError

inductive ExtractionError where
  | traversal (cause : WalkError)
  | parse (cause : ParseError)
  | fileRead (path : Path) (cause : IoError)
  | fileTooLarge (path : Path) (size limit : Nat)
  | write (cause : IoError)
  | grammar (message : String)
  | configuration (message : String)
  deriving DecidableEq, Inhabited, Repr

namespace ExtractionError

def text : ExtractionError → String
  | .traversal cause => "Failed to walk source tree: " ++ cause.text
  | .parse cause => cause.text
  | .fileRead path cause => "Failed to read " ++ path.display ++ ": " ++ cause.text
  | .fileTooLarge path size limit =>
    "Source file too large: " ++ path.display ++ " (" ++ toString size ++ " bytes, limit: " ++
      toString limit ++ " bytes)"
  | .write cause => "Output write error: " ++ cause.text
  | .grammar message => "Failed to load grammar: " ++ message
  | .configuration message => "Invalid configuration: " ++ message

def cause? : ExtractionError → Option String
  | .traversal cause => some cause.text
  | .fileRead _ cause => some cause.text
  | .write cause => some cause.text
  | _ => none

def userMessage : ExtractionError → String
  | .traversal cause => "Cannot walk " ++ cause.path.display ++ ": " ++ cause.text
  | .parse cause =>
    "Java parse error" ++ cause.location.elim "" ParseError.place ++ ": " ++ cause.message
  | .fileTooLarge path size limit =>
    path.display ++ " is " ++ toString size ++ " bytes, over the " ++ toString limit ++
      " byte limit"
  | .write cause => "Could not write output: " ++ cause.text
  | e => e.text

end ExtractionError

inductive FileFailure where
  | unparseable (cause : ParseError)
  | unreadable (cause : ExtractionError)
  deriving DecidableEq, Inhabited, Repr

namespace FileFailure

def ofError : ExtractionError → FileFailure
  | .parse cause => .unparseable cause
  | e => .unreadable e

def diagnostic (f : FileFailure) (path : Path) : String :=
  match f with
  | .unparseable _ => "Error in " ++ path.display
  | .unreadable _ => "Failed to parse " ++ path.display

end FileFailure

end MethodExtraction.Extraction
