import MethodExtraction.Grammar.Production
import MethodExtraction.Java.Grammar

namespace MethodExtraction.Java

open Grammar

namespace Kind

def number : Kind → Nat
  | token t => t.number
  | construct c => Token.all.length + c.number
  | typeIdentifier => Token.all.length + Construct.all.length
  | error => Token.all.length + Construct.all.length + 1

def ofNumber (i : Nat) : Kind :=
  match Token.all[i]? with
  | some t => token t
  | none =>
    match Construct.all[i - Token.all.length]? with
    | some c => construct c
    | none => if i = Token.all.length + Construct.all.length then typeIdentifier else error

end Kind

def Symbol.toSym : Symbol → Sym
  | token t => .token t.number
  | construct c => .variable c.number

def language : Language where
  tokens := (Token.all.map Token.lexeme).toArray
  wordToken := Token.identifier.number
  comments := [Token.lineComment.number, Token.blockComment.number]
  constructs := (Construct.all.map fun c =>
    (c.visibility, c.rule.map Symbol.toSym Kind.number Field.number)).toArray

end MethodExtraction.Java
