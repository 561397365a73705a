import MethodExtraction.Java.Grammar
import MethodExtraction.Java.Node

namespace MethodExtraction.Java

open Grammar

abbrev Shape := Regex (Part Kind Field)

def Symbol.view : Symbol → View Symbol Kind Field
  | token t => .node (.token t)
  | construct c => if c.visibility = .visible then .node (.construct c) else .unfold c.rule

/-- Hidden constructs contain one another to a smaller depth than this. -/
private def hiddenDepth : Nat := 10

def Construct.shape (c : Construct) : Shape := c.rule.shapeIn Symbol.view hiddenDepth none

private def shapes : Array Shape := (Construct.all.map Construct.shape).toArray

def Construct.knownShape (c : Construct) : Shape := shapes[c.number]?.getD .never

def Kind.isComment : Kind → Bool
  | token t => t.isComment
  | _ => false

namespace Node

def isComment (n : Node) : Bool := n.kind.isComment

def part (n : Node) : Part Kind Field := ⟨n.kind, n.label.field⟩

/-- Whether nodes can be the children of a construct. Comments may stand anywhere among them, but
fill no field. -/
def fit (c : Construct) (ns : List Node) : Bool :=
  ns.all (fun n => !n.isComment || n.label.field = none) &&
    c.knownShape.accepts (fun a n => a = part n) (ns.filter fun n => !n.isComment)

end Node

structure Place where
  offset : Nat
  rest : List Char

namespace Place

def isBlank (c : Char) : Bool := CharSet.blank.has c

def ofText (text : List Char) : Place :=
  match text with
  | '\uFEFF' :: rest => ⟨'\uFEFF'.utf8Size, rest⟩
  | _ => ⟨0, text⟩

def charsIn? (bytes : Nat) (cs : List Char) (count : Nat := 0) : Option Nat :=
  match cs with
  | [] => if bytes = 0 then some count else none
  | c :: cs =>
    if bytes = 0 then some count
    else if c.utf8Size ≤ bytes then charsIn? (bytes - c.utf8Size) cs (count + 1)
    else none

def goTo? (p : Place) (offset : Nat) : Option (List Char × Place) :=
  if p.offset ≤ offset then
    (charsIn? (offset - p.offset) p.rest).map fun n =>
      (p.rest.take n, ⟨offset, p.rest.drop n⟩)
  else none

/-- Goes behind the next token, which lies between the two offsets and matches a pattern. -/
def token? (p : Place) (start stop : Nat) (pattern : Pattern) : Option Place := do
  let (gap, p) ← p.goTo? start
  let (word, p) ← p.goTo? stop
  if gap.all isBlank && pattern.accepts word then some p else none

end Place

namespace Node

/-- A node begins where its first child begins and ends where its last one ends; neither is a
comment. -/
def spans (l : Label) (ns : List Node) : Bool :=
  match ns.head?, ns.getLast? with
  | some first, some last =>
    first.label.start = l.start && last.label.stop = l.stop && !first.isComment && !last.isComment
  | _, _ => false

mutual

def read? : Node → Place → Option Place
  | mk l ns, p =>
    if l.isError || l.named != l.kind.isNamed then none
    else
      match l.kind with
      | .construct c => if spans l ns && fit c ns then readAll? ns p else none
      | .token t => if ns.isEmpty then p.token? l.start l.stop t.lexeme.pattern else none
      | .typeIdentifier =>
        if ns.isEmpty then p.token? l.start l.stop Token.identifier.lexeme.pattern else none
      | .error => none

def readAll? : List Node → Place → Option Place
  | [], p => some p
  | n :: ns, p => (n.read? p).bind (readAll? ns)

end

def beginning (size : Nat) (ns : List Node) : Nat := (ns.head?.map fun n => n.label.start).getD size

/-- Whether a tree derives a text, however it was found: the children of each node, comments aside,
have the shape that the rule of its construct gives them, and the leaves spell the text with nothing
but blanks between them. The root goes on to the end of the text. -/
def derives (root : Node) (text : String) : Bool :=
  let l := root.label
  let ns := root.children
  !l.isError && l.named && l.kind = .construct .program && fit .program ns &&
    l.start = beginning text.utf8ByteSize ns && l.stop = text.utf8ByteSize &&
    (readAll? ns (.ofText text.toList)).any fun p => p.rest.all Place.isBlank

end Node

end MethodExtraction.Java
