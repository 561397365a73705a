import MethodExtraction.Java.Method
import MethodExtraction.Output.Json

namespace MethodExtraction.Output

open Java

inductive OutputFormat where
  | legacy
  | strict
  deriving DecidableEq, Inhabited, Repr

/-- A text whose quotes are escaped: the text itself if it has none. -/
inductive Escaped where
  | same (text : String)
  | changed (text : String)
  deriving DecidableEq, Inhabited, Repr

namespace Escaped

def text : Escaped → String
  | .same text => text
  | .changed text => text

def isSame : Escaped → Bool
  | .same _ => true
  | .changed _ => false

end Escaped

def escapeQuote (c : Char) : List Char := if c = '"' then ['\\', '"'] else [c]

/-- Put a backslash before every quote. What stands before the quote makes no difference. -/
def escapeQuotes (text : String) : Escaped :=
  if '"' ∈ text.toList then .changed (String.ofList (text.toList.flatMap escapeQuote))
  else .same text

def OutputFormat.methodText (format : OutputFormat) (method : String) : String :=
  match format with
  | .legacy => (escapeQuotes method).text
  | .strict => method

def formatRecord (format : OutputFormat) (r : MethodRecord) : String :=
  Json.object
    [("name", Json.string r.name), ("method", Json.string (format.methodText r.method)),
      ("hasBody", Json.bool r.hasBody)]

end MethodExtraction.Output
