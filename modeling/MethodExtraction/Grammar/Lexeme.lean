import MethodExtraction.Grammar.Regex
import MethodExtraction.Text.Identifier

namespace MethodExtraction.Grammar

open Text

inductive CharRange where
  | chars (first last : Char)
  | identifierStart
  | identifierPart
  deriving DecidableEq, Inhabited, Repr

structure CharSet where
  negated : Bool
  ranges : List CharRange
  deriving DecidableEq, Inhabited, Repr

namespace CharSet

/-- The cent sign continues an identifier although it is not of the class XID_Continue. -/
def isIdentifierPart (c : Char) : Bool := Identifier.isContinue c || c = '¢'

def inRange (c : Char) : CharRange → Bool
  | .chars first last => first ≤ c && c ≤ last
  | .identifierStart => Identifier.isStart c
  | .identifierPart => isIdentifierPart c

/-- NUL belongs to no set. -/
def has (s : CharSet) (c : Char) : Bool :=
  c ≠ '\x00' && (s.ranges.any (inRange c) != s.negated)

def char (c : Char) : CharSet := ⟨false, [.chars c c]⟩

def of (s : String) : CharSet := ⟨false, s.toList.map fun c => .chars c c⟩

def but (s : String) : CharSet := ⟨true, s.toList.map fun c => .chars c c⟩

def range (first last : Char) : CharSet := ⟨false, [.chars first last]⟩

def blank : CharSet := of "\t\n\x0b\x0c\r "

end CharSet

/-- The number of letter classes: the ASCII characters one by one, then three classes of others. -/
def letterCount : Nat := 131

def letterOf (c : Char) : Nat :=
  if c.toNat < 128 then c.toNat
  else if Identifier.isStart c then 128
  else if CharSet.isIdentifierPart c then 129
  else 130

def sampleOf (letter : Nat) : Char :=
  if letter < 128 then Char.ofNat letter
  else if letter = 128 then 'ª'
  else if letter = 129 then '·'
  else '¡'

abbrev Pattern := Regex CharSet

namespace Pattern

def word (s : String) : Pattern := Regex.concat (s.toList.map fun c => .atom (CharSet.char c))

def set (s : CharSet) : Pattern := .atom s

def accepts (p : Pattern) (cs : List Char) : Bool := Regex.accepts CharSet.has p cs

end Pattern

/-- How a token shows in the tree: as a node of its own name, as a node named by its text, or
not at all. -/
inductive TokenForm where
  | named
  | anonymous
  | hidden
  deriving DecidableEq, Inhabited, Repr

/-- A token. `immediate` tokens do not let blanks precede them; `literal` says that the pattern
is one fixed word. -/
structure Lexeme where
  pattern : Pattern
  form : TokenForm
  literal : Bool := false
  immediate : Bool := false
  precedence : Int := 0
  deriving Inhabited

namespace Lexeme

def word (s : String) (form : TokenForm) : Lexeme :=
  { pattern := Pattern.word s, form, literal := true }

/-- Between tokens of one precedence a fixed word is preferred, then an immediate one. -/
def rank (l : Lexeme) : Nat := (if l.literal then 2 else 0) + (if l.immediate then 1 else 0)

end Lexeme

end MethodExtraction.Grammar
