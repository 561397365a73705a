import MethodExtraction.Java.Derivation
import MethodExtraction.Java.Method
import MethodExtraction.Java.Search

namespace MethodExtraction.Java

/-- Line and column, both from 1; columns count bytes. -/
structure Position where
  line : Nat
  column : Nat
  deriving DecidableEq, Inhabited, Repr

def Position.ofOffset (text : String) (offset : Nat) : Position :=
  let before := text.toUTF8.data.toList.take offset
  ⟨1 + before.count 10, 1 + (before.reverse.takeWhile (· != 10)).length⟩

structure SyntaxError where
  location : Option Position
  deriving DecidableEq, Inhabited, Repr

def unreadable : Node := .mk ⟨.error, true, none, 0, 0, false, true⟩ []

/-- The tree of a text. A search is assumed always to find a tree, and a tree without errors to
derive its text; then the tree is the one that is found, as `treeBy_of_find` proves. Parsing checks
neither. Both branches to `unreadable` are only for searches that break the assumption; for one that
finds no tree the error has a place there, the beginning of the text, where it should have none. -/
def treeBy (search : String → Option Node) (text : String) : Node :=
  match (search text).map Node.mark with
  | some root => if root.label.hasError || root.derives text then root else unreadable
  | none => unreadable

def parseBy (search : String → Option Node) (text : String) : Except SyntaxError Node :=
  let root := treeBy search text
  if root.label.hasError then
    .error ⟨root.firstError.map fun n => .ofOffset text n.label.start⟩
  else .ok root

def parse (text : String) : Except SyntaxError Node := parseBy search text

def methods (text : String) : Except SyntaxError (List MethodRecord) :=
  (parse text).map fun root => root.methods text

end MethodExtraction.Java
