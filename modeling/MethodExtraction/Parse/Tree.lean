import MethodExtraction.Parse.Source

namespace MethodExtraction.Parse

open Grammar

structure Extent where
  bytes : Nat
  rows : Nat
  deriving DecidableEq, Inhabited

namespace Extent

def zero : Extent := ⟨0, 0⟩

def add (a b : Extent) : Extent := ⟨a.bytes + b.bytes, a.rows + b.rows⟩

end Extent

/-- `padding` is the stretch before the tree. `shownBelow` counts the visible nodes below the tree,
`shownChildren` those that would be its children; `leafCode` and `leafState` are the first token's
code and the state for which it was read; `count` counts all nodes. -/
structure TreeHead where
  code : Nat
  padding : Extent
  extent : Extent
  extra : Bool := false
  visible : Bool
  missing : Bool := false
  cost : Nat := 0
  dynamic : Int := 0
  shownBelow : Nat := 0
  shownChildren : Nat := 0
  keyword : Bool := false
  state : Nat := 0
  leafCode : Nat := 0
  leafState : Nat := 0
  layout : Nat := 0
  count : Nat := 1
  deriving Inhabited

inductive Tree where
  | node (head : TreeHead) (children : Array Tree)
  deriving Inhabited

namespace Cost

def missing : Nat := 610

def recovery : Nat := 500

def skippedTree : Nat := 100

def skippedRow : Nat := 30

end Cost

def errorPartCode (t : Table) : Nat := t.showing.size

def errorCode (t : Table) : Nat := t.showing.size + 1

def isError (t : Table) (code : Nat) : Bool := t.showing.size ≤ code

namespace Tree

def head : Tree → TreeHead
  | node h _ => h

def children : Tree → Array Tree
  | node _ ts => ts

def arity (t : Tree) : Nat := t.children.size

def withHead (t : Tree) (f : TreeHead → TreeHead) : Tree := node (f t.head) t.children

def cost (t : Tree) : Nat := if t.head.missing then Cost.missing else t.head.cost

def stretch (t : Tree) : Extent := t.head.padding.add t.head.extent

variable (table : Table)

/-- The visible nodes of a tree, its root included; a part of an error counts too. -/
def nodeCount (t : Tree) : Nat :=
  t.head.shownBelow + (if t.head.visible then 1 else 0)
    + (if t.head.code = errorPartCode table then 1 else 0)

def isVisible (code : Nat) : Bool :=
  code = errorCode table || (table.showing[code]?).any Showing.visible

def leaf (code : Nat) (padding extent : Extent) (state : Nat) (keyword : Bool) : Tree :=
  node
    { code, padding, extent, keyword, state
      extra := code = Table.endCode
      visible := isVisible table code
      leafCode := code
      leafState := state } #[]

def absent (code : Nat) : Tree :=
  (leaf table code .zero .zero 0 false).withHead fun h => { h with missing := true }

private def skipCost (t : Tree) : Nat :=
  if t.head.extra || t.head.code = errorCode table && t.arity = 0 then 0
  else if t.head.visible then Cost.skippedTree
  else Cost.skippedTree * (if t.arity = 0 then 0 else t.head.shownChildren)

def join (inError : Bool) (kinds : Array (Option Nat)) (acc : TreeHead × Nat) (t : Tree) :
    TreeHead × Nat :=
  let (h, i) := acc
  let renamed := !t.head.extra && t.head.code != Table.endCode && ((kinds[i]?).join).isSome
  let shown :=
    if renamed || t.head.visible then 1 else if t.arity = 0 then 0 else t.head.shownChildren
  ({ h with
      extent := h.extent.add t.stretch
      cost := h.cost + (if t.head.code = errorPartCode table then 0 else t.cost)
        + (if inError then skipCost table t else 0)
      dynamic := h.dynamic + t.head.dynamic
      shownBelow := h.shownBelow + t.head.shownBelow + (if renamed || t.head.visible then 1 else 0)
      shownChildren := h.shownChildren + shown
      count := h.count + t.head.count },
    if t.head.extra then i else i + 1)

def make (code : Nat) (children : Array Tree) (layout : Nat) : Tree :=
  let inError := isError table code
  let kinds := ((table.layouts[layout]?).map Prod.fst).getD #[]
  let first := (children[0]?).map head
  let padding := (first.map TreeHead.padding).getD .zero
  let start : TreeHead :=
    { code, padding
      extent := .zero
      visible := isVisible table code
      leafCode := (first.map TreeHead.leafCode).getD 0
      leafState := (first.map TreeHead.leafState).getD 0
      layout }
  let (h, _) := children.foldl (join table inError kinds) (start, 0)
  let extent : Extent :=
    ⟨h.extent.bytes - padding.bytes, h.extent.rows - padding.rows⟩
  let cost :=
    if inError then h.cost + Cost.recovery + extent.bytes + Cost.skippedRow * extent.rows
    else h.cost
  node { h with extent, cost } children

/-- Comments at the end of a list of children belong behind the node that is made of the others. -/
def splitExtras (children : Array Tree) : Array Tree × Array Tree :=
  if children.back?.all fun t => !t.head.extra then (children, #[]) else
  let rest := children.toList.reverse
  ((rest.dropWhile fun t => t.head.extra).reverse.toArray,
    (rest.takeWhile fun t => t.head.extra).reverse.toArray)

/-- Whether the first tree comes after the second in the order of codes, arities and children. -/
private def comesAfter : Nat → List (Tree × Tree) → Bool
  | 0, _ => false
  | _, [] => false
  | fuel + 1, (a, b) :: rest =>
    if a.head.code != b.head.code then b.head.code < a.head.code
    else if a.arity != b.arity then b.arity < a.arity
    else comesAfter fuel ((a.children.zip b.children).toList ++ rest)

/-- Whether `b` is a better reading than `a`: cheaper, else of higher dynamic precedence. -/
def isBetter (a b : Tree) : Bool :=
  if b.cost < a.cost then true
  else if a.cost < b.cost then false
  else if a.head.dynamic < b.head.dynamic then true
  else if b.head.dynamic < a.head.dynamic then false
  else if 0 < a.cost then true
  else comesAfter (a.head.count + b.head.count) [(a, b)]

def isLike (a b : Tree) : Bool :=
  a.head.code = b.head.code &&
    ((0 < a.cost && 0 < b.cost) ||
      (a.head.padding.bytes = b.head.padding.bytes && a.head.extent.bytes = b.head.extent.bytes &&
        a.arity = b.arity && a.head.extra = b.head.extra))

end Tree

end MethodExtraction.Parse
