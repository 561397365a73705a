import MethodExtraction.Parse.Tree

namespace MethodExtraction.Parse

open Grammar

/-- The way down from a node, with the tree that lies on it. No tree lies where recovery began. -/
structure Link where
  node : Nat
  tree : Option Tree
  deriving Inhabited

/-- `bytes` and `rows` are the place in the text; cost, count and dynamic precedence are those of
all trees from the bottom up to the node. -/
structure StackNode where
  state : Nat
  links : Array Link
  place : Extent
  cost : Nat
  nodeCount : Nat
  dynamic : Int
  deriving Inhabited

/-- Where the stack was before recovery: how many trees below its top. -/
structure Rung where
  place : Extent
  depth : Nat
  state : Nat
  deriving Inhabited

inductive Status where
  | active
  | paused (lookahead : Tree)
  | halted
  deriving Inhabited

/-- A version of the stack. `countAtError` is the node count when it last met an error. -/
structure Version where
  top : Nat
  countAtError : Nat
  status : Status
  summary : Option (Array Rung)
  deriving Inhabited

structure Stack where
  nodes : Array StackNode
  versions : Array Version
  deriving Inhabited

structure Slice where
  version : Nat
  trees : List Tree
  deriving Inhabited

abbrev StackM := StateM Stack

namespace Status

def isActive : Status → Bool
  | active => true
  | _ => false

def isPaused : Status → Bool
  | paused _ => true
  | _ => false

def isHalted : Status → Bool
  | halted => true
  | _ => false

end Status

namespace Stack

def initial : Stack :=
  ⟨#[⟨1, #[], .zero, 0, 0, 0⟩], #[⟨0, 0, .active, none⟩]⟩

def version (s : Stack) (v : Nat) : Version := s.versions[v]?.getD ⟨0, 0, .halted, none⟩

def topOf (s : Stack) (v : Nat) : StackNode := s.nodes[(s.version v).top]!

def stateOf (s : Stack) (v : Nat) : Nat := (s.topOf v).state

def placeOf (s : Stack) (v : Nat) : Extent := (s.topOf v).place

def statusOf (s : Stack) (v : Nat) : Status := (s.version v).status

def count (s : Stack) : Nat := s.versions.size

def haltedCount (s : Stack) : Nat := (s.versions.filter (·.status.isHalted)).size

/-- What the version has cost, with the cost of a recovery that has only begun. -/
def errorCost (s : Stack) (v : Nat) : Nat :=
  let top := s.topOf v
  let begun := top.state = 0 && !((top.links[0]?).any fun l => l.tree.isSome)
  top.cost + (if (s.statusOf v).isPaused || begun then Cost.recovery else 0)

def countSinceError (s : Stack) (v : Nat) : Nat :=
  (s.topOf v).nodeCount - (s.version v).countAtError

def sameSpot (a b : StackNode) : Bool :=
  a.state = b.state && a.place.bytes = b.place.bytes && a.cost = b.cost

def canMerge (s : Stack) (a b : Nat) : Bool :=
  (s.statusOf a).isActive && (s.statusOf b).isActive && sameSpot (s.topOf a) (s.topOf b)

end Stack

namespace StackM

variable (t : Table)

def modifyVersion (v : Nat) (f : Version → Version) : StackM Unit :=
  modify fun s => { s with versions := s.versions.modify v f }

def setStatus (v : Nat) (status : Status) : StackM Unit :=
  modifyVersion v fun h => { h with status }

def remove (v : Nat) : StackM Unit :=
  modify fun s => { s with versions := s.versions.eraseIdxIfInBounds v }

def swap (a b : Nat) : StackM Unit :=
  modify fun s => { s with versions := s.versions.swapIfInBounds a b }

def copy (v : Nat) : StackM Nat :=
  modifyGet fun s =>
    (s.versions.size, { s with versions := s.versions.push { s.version v with summary := none } })

def replace (a b : Nat) : StackM Unit :=
  if a = b then pure ()
  else modify fun s =>
    let source := s.version a
    let summary := source.summary.orElse fun _ => (s.version b).summary
    { s with
      versions := (s.versions.setIfInBounds b { source with summary }).eraseIdxIfInBounds a }

def newNode (below : Nat) (tree : Option Tree) (state : Nat) (s : Stack) : StackNode :=
  let n := s.nodes[below]!
  let links := #[⟨below, tree⟩]
  match tree with
  | none => { n with state, links }
  | some x =>
    { state, links
      place := n.place.add x.stretch
      cost := n.cost + x.cost
      nodeCount := n.nodeCount + x.nodeCount t
      dynamic := n.dynamic + x.head.dynamic }

def push (v : Nat) (tree : Option Tree) (state : Nat) : StackM Unit :=
  modify fun s =>
    let h := s.version v
    let n := newNode t h.top tree state s
    let countAtError := if tree.isNone then n.nodeCount else h.countAtError
    match s with
    | ⟨nodes, versions⟩ =>
      let versions := versions.setIfInBounds v { h with top := nodes.size, countAtError }
      ⟨nodes.push n, versions⟩

def linkLimit : Nat := 8

def likeTree : Option Tree → Option Tree → Bool
  | none, none => true
  | some a, some b => a.isLike b
  | _, _ => false

def dynamicOf (tree : Option Tree) : Int := (tree.map fun x => x.head.dynamic).getD 0

/-- Gives node `self` another way down, unless it has one like it. -/
def addLink : Nat → Nat → Link → StackM Unit
  | 0, _, _ => pure ()
  | fuel + 1, self, link => do
    if link.node = self then return
    let s ← get
    let node := s.nodes[self]!
    let below := s.nodes[link.node]!
    let known := node.links.findIdx? fun old =>
      likeTree old.tree link.tree &&
        (old.node = link.node || Stack.sameSpot s.nodes[old.node]! below)
    match known with
    | some i =>
      let old := node.links[i]!
      if old.node = link.node then
        if dynamicOf old.tree < dynamicOf link.tree then
          modify fun s => { s with nodes := s.nodes.modify self fun n =>
            { n with
              links := n.links.setIfInBounds i { old with tree := link.tree }
              dynamic := below.dynamic + dynamicOf link.tree } }
      else
        for l in below.links do
          addLink fuel old.node l
        modify fun s => { s with nodes := s.nodes.modify self fun n =>
          { n with dynamic := max n.dynamic (below.dynamic + dynamicOf link.tree) } }
    | none =>
      if node.links.size < linkLimit then
        let count := below.nodeCount + ((link.tree.map (Tree.nodeCount t)).getD 0)
        modify fun s => { s with nodes := s.nodes.modify self fun n =>
          { n with
            links := n.links.push link
            nodeCount := max n.nodeCount count
            dynamic := max n.dynamic (below.dynamic + dynamicOf link.tree) } }

/-- Merges version `b` into version `a` if they stand at one spot, and says whether it did. -/
def merge (a b : Nat) : StackM Bool := do
  let s ← get
  if !s.canMerge a b then return false
  let target := (s.version a).top
  let depth := s.nodes.size
  for l in (s.topOf b).links do
    addLink t depth target l
  let node := (← get).nodes[target]!
  if node.state = 0 then
    modifyVersion a fun h => { h with countAtError := node.nodeCount }
  remove b
  return true

def settleCount (v : Nat) : StackM Unit :=
  modify fun s =>
    let count := (s.topOf v).nodeCount
    { s with versions := s.versions.modify v fun h =>
        { h with countAtError := min h.countAtError count } }

section Walk

structure Walker where
  node : Nat
  trees : List Tree
  count : Nat
  deriving Inhabited

/-- What to do at a node: take what was passed as a slice, and go no further. -/
structure Verdict where
  takes : Bool
  stops : Bool

def goOn : Verdict := ⟨false, false⟩

def walkLimit : Nat := 64

def addSlice (v node : Nat) (trees : List Tree) (slices : Array Slice) :
    StackM (Array Slice) := do
  let s ← get
  let same := (Array.range slices.size).findRev? fun i =>
    (s.version (slices[i]!).version).top = node
  match same with
  | some i => return slices.insertIdxIfInBounds (i + 1) ⟨(slices[i]!).version, trees⟩
  | none =>
    let fresh : Version := ⟨node, (s.version v).countAtError, .active, none⟩
    set ({ s with versions := s.versions.push fresh } : Stack)
    return slices.push ⟨s.versions.size, trees⟩

def Walker.follow (w : Walker) (keep : Bool) (l : Link) : Walker :=
  match l.tree with
  | none => { w with node := l.node, count := w.count + 1 }
  | some x =>
    { node := l.node
      trees := if keep then x :: w.trees else w.trees
      count := if x.head.extra then w.count else w.count + 1 }

/-- Walks down from a version by all links, one step of all walks at a time. `look` sees each walk
and keeps a state of its own; `keep` says that the trees passed are wanted. -/
def walk {σ : Type} (v : Nat) (keep : Bool)
    (look : σ → StackNode → Walker → Verdict × σ) (start : σ) : StackM (Array Slice × σ) := do
  let mut slices : Array Slice := #[]
  let mut seen := start
  let mut walkers : Array Walker := #[⟨((← get).version v).top, [], 0⟩]
  for _ in [0:(← get).nodes.size + 1] do
    if walkers.isEmpty then break
    let mut kept : Array Walker := #[]
    let mut added : Array Walker := #[]
    let mut waiting := walkers.size
    for w in walkers do
      waiting := waiting - 1
      let node := (← get).nodes[w.node]!
      let (verdict, next) := look seen node w
      seen := next
      if verdict.takes then
        slices ← addSlice v w.node w.trees slices
      if !verdict.stops then
        match node.links[0]? with
        | none => pure ()
        | some first =>
          for l in node.links.extract 1 node.links.size do
            if kept.size + added.size + waiting + 1 < walkLimit then
              added := added.push (w.follow keep l)
          kept := kept.push (w.follow keep first)
    walkers := kept ++ added
  return (slices, seen)

def popCount (v n : Nat) : StackM (Array Slice) := do
  let (slices, _) ← walk v true (fun (_ : Unit) _ w =>
    (if w.count = n then ⟨true, true⟩ else goOn, ())) ()
  return slices

def popAll (v : Nat) : StackM (Array Slice) := do
  let (slices, _) ← walk v true (fun (_ : Unit) node _ =>
    (if node.links.isEmpty then ⟨true, false⟩ else goOn, ())) ()
  return slices

def popError (v : Nat) : StackM (List Tree) := do
  let s ← get
  let isError (x : Tree) : Bool := x.head.code = errorCode t
  if !(s.topOf v).links.any fun l => l.tree.any isError then return []
  let (slices, _) ← walk v true (fun taken _ w =>
    match w.trees.getLast? with
    | none => (goOn, taken)
    | some x => if !taken && isError x then (⟨true, true⟩, true) else (⟨false, true⟩, taken)) false
  match slices[0]? with
  | none => return []
  | some slice =>
    replace slice.version v
    return slice.trees

def recordSummary (v depth : Nat) : StackM Unit := do
  let look (rungs : Array Rung) (node : StackNode) (w : Walker) : Verdict × Array Rung :=
    if depth < w.count then (⟨false, true⟩, rungs)
    else
      let known := (rungs.toList.reverse.takeWhile fun r => w.count ≤ r.depth).any fun r =>
        r.depth = w.count && r.state = node.state
      (goOn, if known then rungs else rungs.push ⟨node.place, w.count, node.state⟩)
  let (_, rungs) ← walk v false look #[]
  modifyVersion v fun h => { h with summary := some rungs }

end Walk

end StackM

end MethodExtraction.Parse
