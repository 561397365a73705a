import MethodExtraction.Grammar.Lexeme
import MethodExtraction.Grammar.Rule

namespace MethodExtraction.Grammar

/-- How a construct appears in a tree: as a node of its own, or through its parts. A supertype
groups alternatives and keeps their fields to itself; an inlined construct is replaced wherever it
is used. -/
inductive Visibility where
  | visible
  | hidden
  | supertype
  | inlined
  deriving DecidableEq, Inhabited, Repr

inductive Sym where
  | token (i : Nat)
  | variable (i : Nat)
  deriving DecidableEq, Hashable, Inhabited, Repr

abbrev NumberedRule := Rule Sym Nat Nat

/-- The first construct is that of a whole text. `wordToken` is the token from which keywords are
told by their spelling; `comments` are the tokens that may stand anywhere. -/
structure Language where
  tokens : Array Lexeme
  wordToken : Nat
  comments : List Nat
  constructs : Array (Visibility × NumberedRule)

end MethodExtraction.Grammar
