import MethodExtraction.Parse.Stack

namespace MethodExtraction.Parse

open Grammar

structure Setting where
  table : Table
  source : Source

/-- The state of a search. `token` is the last one read, with the byte offset at which its padding
begins; `best` is the best reading found so far, of `accepted` ones. -/
structure Search where
  stack : Stack
  token : Option (Nat × Tree)
  best : Option Tree
  accepted : Nat

abbrev SearchM := StateM Search

namespace SearchM

variable (c : Setting)

instance : MonadLift StackM SearchM where
  monadLift m := fun s =>
    match s with
    | ⟨stack, token, best, accepted⟩ =>
      let (x, stack) := m stack
      (x, ⟨stack, token, best, accepted⟩)

def onStack {α : Type} (f : Stack → α) : SearchM α := do return f (← get).stack

def versionLimit : Nat := 6

def overflow : Nat := 4

def costLimit : Nat := 1800

section Table

def cell (state code : Nat) : Cell := ((c.table.cells[state]!)[code]?).getD ⟨#[], false⟩

def actions (state code : Nat) : Array Action := (cell c state code).actions

def next (state code : Nat) : Nat :=
  let n := c.table.tokenCount
  if isError c.table code then 0
  else if code ≤ n then
    match (actions c state code).back? with
    | some (.shift s _) => s
    | some .extra => state
    | _ => 0
  else ((c.table.gotos[state]!)[code - n - 1]?).getD 0

end Table

section Tokens

def readToken (state bytes : Nat) : Tree :=
  let s := c.source
  let i := s.charAt[bytes]!
  let found := Found.findAt c.table s state i
  let extent (a b : Nat) : Extent := ⟨s.bytes a b, s.breaks a b⟩
  let code := if found.error then errorCode c.table else found.code
  .leaf c.table code (extent i found.start) (extent found.start found.stop) state found.keyword

def canReuse (state : Nat) (x : Tree) (cell : Cell) : Bool :=
  let sameScanner := c.table.scannerOf[state]! = (c.table.scannerOf[x.head.leafState]!)
  let h := x.head
  if !cell.actions.isEmpty && sameScanner
      && (h.leafCode != Table.wordCode || (!h.keyword && h.state = state)) then true
  else if h.extent.bytes = 0 && h.leafCode != Table.endCode then false
  else cell.reusable

/-- The token after version `v`, read again only if the last one read cannot be used. -/
def lookahead (v : Nat) : SearchM Tree := do
  let state ← onStack (·.stateOf v)
  let place := (← onStack (·.placeOf v)).bytes
  let known := match (← get).token with
    | some (at_, x) =>
      if at_ = place && canReuse c state x (cell c state x.head.code) then some x else none
    | none => none
  match known with
  | some x => return x
  | none =>
    let x := readToken c state place
    modify fun s => { s with token := some (place, x) }
    return x

end Tokens

section Reductions

def shift (v state : Nat) (token : Tree) (extra : Bool) : SearchM Unit :=
  let token := if token.head.extra = extra then token else token.withHead ({ · with extra })
  (StackM.push c.table v (some token) state : StackM Unit)

def groupSlices (slices : Array Slice) : Array (Nat × Array (List Tree)) :=
  slices.foldl (fun groups s =>
    match groups.back? with
    | some (v, trees) =>
      if v = s.version then groups.pop.push (v, trees.push s.trees)
      else groups.push (s.version, #[s.trees])
    | none => groups.push (s.version, #[s.trees])) #[]

def bestNode (code layout : Nat) (candidates : Array (List Tree)) :
    Option (Tree × Array Tree) :=
  candidates.foldl (fun best trees =>
    let (children, extras) := Tree.splitExtras trees.toArray
    match best with
    | none => some (.make c.table code children layout, extras)
    | some (b, e) =>
      if b.isBetter (.make c.table code children 0) then
        some (.make c.table code children layout, extras)
      else some (b, e)) none

/-- Replaces the trees on top of a version by a node over them. Gives the first version that came
of it, if any did. -/
def reduce (v code count : Nat) (dynamic : Int) (layout : Nat) : SearchM (Option Nat) := do
  let before ← onStack Stack.count
  let slices ← StackM.popCount v count
  let halted ← onStack Stack.haltedCount
  let mut removed := 0
  for (version, candidates) in groupSlices slices do
    let w := version - removed
    if versionLimit + overflow + halted < w then
      StackM.remove w
      removed := removed + 1
    else
      match bestNode c code layout candidates with
      | none => pure ()
      | some (x, extras) =>
        let state := next c (← onStack (·.stateOf w)) code
        let x := x.withHead fun h => { h with dynamic := h.dynamic + dynamic }
        StackM.push c.table w (some x) state
        for e in extras do
          StackM.push c.table w (some e) state
        for j in [0:w] do
          if j != v then
            if ← StackM.merge c.table j w then
              removed := removed + 1
              break
  return if before < (← onStack Stack.count) then some before else none

def keepBest (x : Option Tree) : SearchM Unit :=
  modify fun s =>
    { s with
      accepted := s.accepted + 1
      best := match s.best, x with
        | none, x => x
        | some b, some x => if b.isBetter x then some x else some b
        | some b, none => some b }

def rootOf (trees : Array Tree) : Option Tree :=
  match (Array.range trees.size).findRev? fun i => !(trees[i]!).head.extra with
  | none => none
  | some i =>
    let root := trees[i]!
    some (.make c.table root.head.code
      (trees.extract 0 i ++ root.children ++ trees.extract (i + 1) trees.size) root.head.layout)

def accept (v : Nat) (token : Tree) : SearchM Unit := do
  StackM.push c.table v (some token) 1
  let slices ← StackM.popAll v
  for s in slices do
    keepBest (rootOf c s.trees.toArray)
  match slices[0]? with
  | some s => StackM.remove s.version
  | none => pure ()
  StackM.setStatus v .halted

end Reductions

section Comparison

/-- What tells versions apart: cost, visible nodes since the last error, dynamic precedence and
whether the version is in an error. -/
structure Standing where
  cost : Nat
  nodes : Nat
  dynamic : Int
  inError : Bool

inductive Preference where
  | takeLeft
  | preferLeft
  | neither
  | preferRight
  | takeRight
  deriving DecidableEq

def standing (v : Nat) : SearchM Standing := do
  StackM.settleCount v
  let s := (← get).stack
  let paused := (s.statusOf v).isPaused
  return {
    cost := s.errorCost v + (if paused then Cost.skippedTree else 0)
    nodes := s.countSinceError v
    dynamic := (s.topOf v).dynamic
    inError := paused || s.stateOf v = 0 }

def compare (a b : Standing) : Preference :=
  if !a.inError && b.inError then if a.cost < b.cost then .takeLeft else .preferLeft
  else if a.inError && !b.inError then if b.cost < a.cost then .takeRight else .preferRight
  else if a.cost < b.cost then
    if costLimit < (b.cost - a.cost) * (1 + a.nodes) then .takeLeft else .preferLeft
  else if b.cost < a.cost then
    if costLimit < (a.cost - b.cost) * (1 + b.nodes) then .takeRight else .preferRight
  else if b.dynamic < a.dynamic then .preferLeft
  else if a.dynamic < b.dynamic then .preferRight
  else .neither

def hasBetter (v cost : Nat) : SearchM Bool := do
  if (← get).best.any fun b => b.cost ≤ cost then return true
  StackM.settleCount v
  let s ← onStack id
  let place := (s.placeOf v).bytes
  let mine : Standing :=
    { cost, nodes := s.countSinceError v, dynamic := (s.topOf v).dynamic, inError := false }
  for i in [0:s.count] do
    if i != v && (s.statusOf i).isActive && place ≤ (s.placeOf i).bytes then
      match compare mine (← standing i) with
      | .takeRight => return true
      | .preferRight => if s.canMerge i v then return true
      | _ => pure ()
  return false

end Comparison

section Recovery

def lookBack : Nat := 16

/-- Goes back to a state below the top, with all above as an error. -/
def recoverTo (v depth goal : Nat) : SearchM Bool := do
  let slices ← StackM.popCount v depth
  let mut previous : Option Nat := none
  for slice in slices do
    let w := slice.version
    if previous != some w then
      if (← onStack (·.stateOf w)) != goal then
        StackM.setStatus w .halted
      else
        let earlier ← StackM.popError c.table w
        let trees := match earlier with
          | x :: _ => x.children.toList ++ slice.trees
          | [] => slice.trees
        let (children, extras) := Tree.splitExtras trees.toArray
        if !children.isEmpty then
          let x := (Tree.make c.table (errorCode c.table) children 0).withHead
            ({ · with extra := true })
          StackM.push c.table w (some x) goal
        for e in extras do
          StackM.push c.table w (some e) goal
        previous := some w
  return previous.isSome

def removeInactive (from_ : Nat) : SearchM Unit :=
  modify fun s =>
    let kept := s.stack.versions.toList.zipIdx.filter fun (h, i) =>
      i < from_ || h.status.isActive
    { s with stack := { s.stack with versions := (kept.map Prod.fst).toArray } }

def recoverByRung (v before : Nat) (token : Tree) (cost since : Nat) :
    List Rung → SearchM Bool
  | [] => return false
  | rung :: rungs => do
    let s ← onStack id
    let place := s.placeOf v
    if rung.state = 0 || rung.place.bytes = place.bytes then
      recoverByRung v before token cost since rungs
    else if (s.versions.extract 0 before).any fun h =>
        (s.nodes[h.top]!).state = rung.state && (s.nodes[h.top]!).place.bytes = place.bytes then
      recoverByRung v before token cost since rungs
    else
      let newCost := cost + rung.depth * Cost.skippedTree + (place.bytes - rung.place.bytes)
        + (place.rows - rung.place.rows) * Cost.skippedRow
      if ← hasBetter v newCost then return false
      let depth := if 0 < since then rung.depth + 1 else rung.depth
      if !(actions c rung.state token.head.code).isEmpty then
        if ← recoverTo c v depth rung.state then return true
      recoverByRung v before token cost since rungs

/-- Deals with a token in an error: goes back to a state that takes it, or skips it. -/
def recover (v : Nat) (token : Tree) : SearchM Unit := do
  StackM.settleCount v
  let s ← onStack id
  let before := s.count
  let since := s.countSinceError v
  let cost := s.errorCost v
  let recovered ←
    match (s.version v).summary with
    | some rungs =>
      if token.head.code = errorCode c.table then pure false
      else recoverByRung c v before token cost since rungs.toList
    | none => pure false
  removeInactive before
  if recovered && versionLimit < (← onStack Stack.count) then
    StackM.setStatus v .halted
  else if token.head.code = Table.endCode then
    StackM.push c.table v (some (.make c.table (errorCode c.table) #[] 0)) 1
    accept c v token
  else
    let skipped := token.stretch
    let newCost := cost + Cost.skippedTree + skipped.bytes + skipped.rows * Cost.skippedRow
    if ← hasBetter v newCost then
      StackM.setStatus v .halted
    else
      let isExtra := match (actions c 1 token.head.code).back? with
        | some .extra => true
        | _ => false
      let token := if isExtra then token.withHead ({ · with extra := true }) else token
      let part := Tree.make c.table (errorPartCode c.table) #[token] 0
      if 0 < since then
        let slices ← StackM.popCount v 1
        match slices[0]? with
        | none => StackM.push c.table v (some part) 0
        | some slice =>
          if 1 < slices.size then
            modify fun s => { s with stack := { s.stack with
              versions := s.stack.versions.extract 0 (slice.version + 1) } }
          StackM.replace slice.version v
          let part := Tree.make c.table (errorPartCode c.table)
            (slice.trees.toArray.push part) 0
          StackM.push c.table v (some part) 0
      else
        StackM.push c.table v (some part) 0

/-- The reductions that a state allows at the given tokens, each once, and whether it also takes a
token there. -/
def possible (state : Nat) (codes : List Nat) :
    Bool × List (Nat × Nat × Int × Nat) :=
  codes.foldl (fun found code =>
    (actions c state code).foldl (fun (takes, reductions) a =>
      match a with
      | .shift _ repetition => (takes || !repetition, reductions)
      | .recover => (true, reductions)
      | .reduce head count dynamic layout =>
        if count = 0 || reductions.any fun r => r.1 = head && r.2.1 = count then
          (takes, reductions)
        else (takes, reductions ++ [(head, count, dynamic, layout)])
      | _ => (takes, reductions)) found) (false, [])

def reductionLimit : Nat := 100000

/-- Makes all reductions that are possible on a version before the given token, or before any token
if it is the end of the text; says whether a version came of it that can take the token. -/
def reduceAll (start code : Nat) : SearchM Bool := do
  let first ← onStack Stack.count
  let isToken := code != Table.endCode
  let codes := if isToken then [code] else (List.range c.table.tokenCount).map (· + 1)
  let mut v := start
  let mut canTake := false
  for i in [0:reductionLimit] do
    let count ← onStack Stack.count
    if count ≤ v then break
    let mut merged := false
    for j in [first:v] do
      if ← StackM.merge c.table j v then
        merged := true
        break
    if !merged then
      let (takes, reductions) := possible c (← onStack (·.stateOf v)) codes
      let mut made := none
      for (head, count, dynamic, layout) in reductions do
        made ← reduce c v (Table.variableCode c.table.tokenCount head) count dynamic layout
      let mut again := false
      if takes then
        canTake := true
      else
        match made with
        | some w =>
          if i < versionLimit then
            StackM.replace w v
            again := true
          else if isToken then
            StackM.remove v
        | none =>
          if isToken then
            StackM.remove v
      if !again then
        v := if v = start then count else v + 1
  return canTake

/-- Tries to go on as if one token stood before the lookahead; says whether that worked. -/
def insertAbsent (v : Nat) (token : Tree) : SearchM Bool := do
  let state ← onStack (·.stateOf v)
  for code in [1:c.table.tokenCount + 1] do
    let after := next c state code
    if after != 0 && after != state then
      match (actions c after token.head.leafCode)[0]? with
      | some (.reduce ..) =>
        let w ← StackM.copy v
        StackM.push c.table w (some (.absent c.table code)) after
        if ← reduceAll c w token.head.leafCode then return true
      | _ => pure ()
  return false

def handleError (v : Nat) (token : Tree) : SearchM Unit := do
  let before ← onStack Stack.count
  let _ ← reduceAll c v Table.endCode
  let count ← onStack Stack.count
  let mut inserted := false
  for w in v :: (List.range (count - before)).map (· + before) do
    if !inserted then
      inserted ← insertAbsent c w token
    StackM.push c.table w none 0
  for _ in [before:count] do
    let _ ← StackM.merge c.table v before
  StackM.recordSummary v lookBack
  recover c v token

end Recovery

section Progress

def actionLimit : Nat := 100000

inductive Outcome where
  | done
  | reduced (last : Option Nat)
  | nothing

def act (v state : Nat) (token : Tree) : List Action → Outcome → SearchM Outcome
  | [], outcome => return outcome
  | a :: rest, outcome => do
    match a with
    | .shift target repetition =>
      if repetition then act v state token rest outcome
      else
        shift c v target token false
        return .done
    | .extra =>
      shift c v state token true
      return .done
    | .reduce head count dynamic layout =>
      let made ← reduce c v (Table.variableCode c.table.tokenCount head) count dynamic layout
      let last := match outcome with
        | .reduced l => made.orElse fun _ => l
        | _ => made
      act v state token rest (.reduced last)
    | .accept =>
      accept c v token
      return .done
    | .recover =>
      recover c v token
      return .done

def decide (v : Nat) : Nat → Tree → Array Action → SearchM Unit
  | 0, _, _ => StackM.setStatus v .halted
  | fuel + 1, token, here => do
    let state ← onStack (·.stateOf v)
    match ← act c v state token here.toList .nothing with
    | .done => pure ()
    | .reduced (some w) =>
      StackM.replace w v
      let state ← onStack (·.stateOf v)
      decide v fuel token (actions c state token.head.leafCode)
    | .reduced none => StackM.setStatus v .halted
    | .nothing =>
      let word := actions c state Table.wordCode
      if token.head.keyword && token.head.code != Table.wordCode && !word.isEmpty then
        let token := token.withHead fun h =>
          { h with code := Table.wordCode, leafCode := Table.wordCode, visible := true }
        decide v fuel token word
      else if state = 0 then recover c v token
      else
        let count := (← onStack (·.topOf v)).nodeCount
        StackM.modifyVersion v fun h =>
          { h with status := .paused token, countAtError := count }

def advance (v : Nat) : SearchM Unit := do
  let token ← lookahead c v
  let state ← onStack (·.stateOf v)
  decide c v actionLimit token (actions c state token.head.code)

end Progress

section Condensing

/-- Compares version `i` with those before it from `j` on; gives the place from which to go on. -/
def settle : Nat → Nat → Nat → Standing → SearchM Nat
  | 0, i, _, _ => return i + 1
  | fuel + 1, i, j, mine => do
    if i ≤ j then return i + 1
    match compare (← standing j) mine with
    | .takeLeft =>
      StackM.remove i
      return i
    | .preferLeft | .neither =>
      if ← StackM.merge c.table j i then return i
      settle fuel i (j + 1) mine
    | .preferRight =>
      if ← StackM.merge c.table j i then return i
      StackM.swap i j
      settle fuel i (j + 1) mine
    | .takeRight =>
      StackM.remove j
      settle fuel (i - 1) j mine

/-- Drops halted versions and those that others beat; gives the least cost of a version that is not
in an error. -/
def compareAll : Nat → Nat → Option Nat → SearchM (Option Nat)
  | 0, _, least => return least
  | fuel + 1, i, least => do
    let s ← onStack id
    if s.count ≤ i then return least
    if (s.statusOf i).isHalted then
      StackM.remove i
      compareAll fuel i least
    else
      let mine ← standing i
      let least :=
        if mine.inError then least
        else some ((least.map (min mine.cost)).getD mine.cost)
      let i ← settle c (2 * s.count) i 0 mine
      compareAll fuel i least

/-- Lets the first version begin its recovery if all wait for it; else drops those that wait. -/
def resume : Nat → Nat → Bool → Option Nat → SearchM (Option Nat)
  | 0, _, _, least => return least
  | left + 1, i, hasUnpaused, least => do
    let s ← onStack id
    match s.statusOf i with
    | .paused token =>
      if !hasUnpaused && (← get).accepted < versionLimit then
        let least := some (s.errorCost i)
        StackM.setStatus i .active
        handleError c i token
        resume left (i + 1) true least
      else
        StackM.remove i
        resume left i hasUnpaused least
    | _ => resume left (i + 1) true least

def compareLimit : Nat := 100000

def condense : SearchM (Option Nat) := do
  let least ← compareAll c compareLimit 0 none
  modify fun s => { s with stack := { s.stack with
    versions := s.stack.versions.extract 0 versionLimit } }
  resume c (← onStack Stack.count) 0 false least

end Condensing

def advanceUntil (v : Nat) : Nat → Nat → SearchM Nat
  | 0, last => do
    StackM.setStatus v .halted
    return last
  | fuel + 1, last => do
    if (← onStack (·.statusOf v)).isActive then
      advance c v
      let place := (← onStack (·.placeOf v)).bytes
      if last < place || (0 < v && place = last) then return place
      advanceUntil v fuel last
    else return last

def idleLimit : Nat := 100000

def rounds : Nat → Nat → SearchM Unit
  | 0, _ => pure ()
  | fuel + 1, last => do
    let mut last := last
    let mut count := 0
    for v in [0:idleLimit] do
      count ← onStack Stack.count
      if count ≤ v then break
      last ← advanceUntil c v idleLimit last
    let least ← condense c
    let finished := match (← get).best, least with
      | some b, some cost => b.cost < cost
      | some _, none => true
      | none, _ => false
    if finished || count = 0 then return
    rounds fuel last

end SearchM

/-- The best reading of a text, errors included. The rounds of the search are bounded far beyond
what a text of its length takes. -/
def Setting.read (c : Setting) : Option Tree :=
  let (_, s) := (SearchM.rounds c (1000 * (c.source.size + 1000)) 0).run ⟨.initial, none, none, 0⟩
  s.best

end MethodExtraction.Parse
