import MethodExtraction.Grammar.Merging

namespace MethodExtraction.Grammar

/-- The actions of a state at a token. A token read for another state may be used again at a
`reusable` cell. -/
structure Cell where
  actions : Array Action
  reusable : Bool
  deriving Inhabited

/-- A state of a scanner: the code of the token that is complete, whether the text may end here, and
where each letter leads and whether it is skipped. -/
structure ScanState where
  accepts : Option Nat
  mayEnd : Bool
  moves : Array (Option (Nat × Bool))
  deriving Inhabited

structure Showing where
  visible : Bool
  kind : Nat
  deriving Inhabited

/-- Symbols go by code: 0 is the end of the text, 1 the word token, then come the other tokens, the
variables, and two codes for text that no rule covers. -/
structure Table where
  tokenCount : Nat
  cells : Array (Array Cell)
  gotos : Array (Array Nat)
  scanners : Array ScanState
  scannerOf : Array Nat
  keywordScanner : Nat
  showing : Array Showing
  layouts : Array (Array (Option Nat) × Array (Option Nat))
  deriving Inhabited

namespace Table

section Codes

def endCode : Nat := 0

def wordCode : Nat := 1

def tokenCode (word token : Nat) : Nat :=
  if token = word then wordCode else if token < word then token + 2 else token + 1

def variableCode (tokenCount v : Nat) : Nat := tokenCount + 1 + v

end Codes

section Scanners

/-- The sets of tokens that are told apart by one scanner, joined as far as they do not get in each
other's way, and the number of the set of each state. -/
private def scannerSets (i : Interference) (companions : Array BitSet) (keywords : BitSet)
    (word : Nat) (states : Array Automaton.State) : Array BitSet × Array Nat := Id.run do
  let n := companions.size
  let clashing := i.relation Clash.overlaps
  let conflict := i.relation fun c => c.conflicts || c.beforeEnd
  let hostile := (Array.range n).map fun a =>
    let across := BitSet.ofList ((List.range n).filter fun b =>
      !(companions[a]!).has b && ((clashing[a]!).has b || (clashing[b]!).has a))
    (conflict[a]!).union across
  let fits (a b : BitSet) : Bool :=
    let both := a &&& b
    (a ^^^ both).members.all (fun t => !((hostile[t]?).getD 0).meets b) &&
      (b ^^^ both).members.all fun t => !((hostile[t]?).getD 0).meets a
  let mut sets : Array BitSet := #[]
  let mut setNumbers := #[]
  for s in states do
    let tokens := BitSet.ofList (s.tokens.members.toList.map fun t =>
      if keywords.has t then word else t)
    match sets.findIdx? (fits · tokens) with
    | some k =>
      sets := sets.modify k (·.union tokens)
      setNumbers := setNumbers.push k
    | none =>
      setNumbers := setNumbers.push sets.size
      sets := sets.push tokens
  return (sets, setNumbers)

private def scanLimit : Nat := 1000000

private structure ScanBuild where
  numbers : Std.HashMap (Front × Bool) Nat
  fronts : Array (Front × Bool)

private def ScanBuild.number (b : ScanBuild) (f : Front × Bool) : Nat × ScanBuild :=
  match b.numbers[f]? with
  | some i => (i, b)
  | none => (b.fronts.size, ⟨b.numbers.insert f b.fronts.size, b.fronts.push f⟩)

/-- All scan states that the starting ones lead to; these come first. A front may also be allowed to
end with the text. -/
private def scanStates (s : Scanning) (word : Nat) (starts : Array (Front × Bool)) :
    Array Nat × Array ScanState := Id.run do
  let mut build : ScanBuild := ⟨∅, #[]⟩
  let mut firsts := #[]
  for f in starts do
    let (i, b) := build.number f
    build := b
    firsts := firsts.push i
  let mut out := #[]
  for i in [0:scanLimit] do
    match build.fronts[i]? with
    | none => break
    | some (f, mayEnd) =>
      let leading := s.isLeading f
      let done := s.preferred f
      let mut moves := #[]
      for letter in [0:letterCount] do
        match s.advance f letter with
        | none => moves := moves.push none
        | some m =>
          let goesOn := match done with
            | some t => s.continues leading t m
            | none => true
          if goesOn then
            let (j, b) := build.number (m.front, mayEnd && m.skips)
            build := b
            moves := moves.push (some (j, m.skips))
          else
            moves := moves.push none
      out := out.push ⟨done.map (tokenCode word), mayEnd, moves⟩
  return (firsts, out)

end Scanners

def cellsOf (l : Language) (overlapping : Array BitSet) (s : Automaton.State) :
    Array Cell := Id.run do
  let n := l.tokens.size
  let tokens := s.tokens
  let cell (t : Nat) : Cell :=
    let actions := s.actions[t]!
    let disturbed := t < n && (overlapping[t]!).meets tokens
    ⟨actions, !actions.isEmpty && !actions.contains .recover && !disturbed⟩
  let mut cells := Array.replicate (n + 1) (cell n)
  for t in [0:n] do
    cells := cells.set! (tokenCode l.wordToken t) (cell t)
  return cells

private def gotosOf (variableCount : Nat) (s : Automaton.State) : Array Nat :=
  s.gotos.foldl (fun out (v, t) => out.set! v t) (Array.replicate variableCount 0)

def showings (l : Language) (vars : Array Variable) : Array Showing := Id.run do
  let n := l.tokens.size
  let mut out := Array.replicate (n + 1) ⟨false, 0⟩
  for t in [0:n] do
    out := out.set! (tokenCode l.wordToken t) ⟨(l.tokens[t]!).form != .hidden, t⟩
  for (v, i) in vars.zipIdx do
    out := out.push ⟨v.role.isVisible, n + i⟩
  return out

private def layoutArrays (l : Layout) : Array (Option Nat) × Array (Option Nat) :=
  let size := l.fields.foldl (fun n (_, i, _) => max n (i + 1)) 0
  (l.kinds.toArray,
    l.fields.foldl (fun out (f, i, inherited) => if inherited then out else out.set! i (some f))
      (Array.replicate size none))

/-- Variables whose nodes do not show and are never given a kind where they are used. -/
private def plainVariable (vars : Array Variable) : Nat → Bool :=
  let renamed := BitSet.ofList (vars.toList.flatMap fun v =>
    v.productions.flatMap fun p => p.steps.filterMap fun s =>
      match s.symbol, s.kind with
      | .variable w, some _ => some w
      | _, _ => none)
  fun v => (vars[v]!).role.passesFields && !renamed.has v

def ofLanguage (l : Language) : Table :=
  let catalog := Catalog.ofLanguage l
  let items := ItemTable.ofLanguage l
  let n := l.tokens.size
  let scanning := Scanning.ofLexemes l.tokens
  let interference := Interference.ofScanning scanning (catalog.following l)
  let keywords := interference.keywords l.wordToken
  let states := Automaton.build items
  let companions := Automaton.companions n states
  let states := Automaton.withRecovery interference companions keywords l.wordToken states
  let clash := (interference.relation fun c => c.conflicts || c.sameText).mapIdx fun t others =>
    if t = l.wordToken then others ^^^ (others &&& keywords)
    else if keywords.has t && others.has l.wordToken then
      others ^^^ BitSet.single l.wordToken
    else others
  let states := Automaton.arrange
    (Automaton.skipRenamings (plainVariable catalog.allVariables) (Automaton.merge clash states))
  let (sets, setNumbers) := scannerSets interference companions keywords l.wordToken states
  let starts := sets.map fun s =>
    (Front.start (s.members.toList.filter (· < n)), s.has n)
  let (firsts, scanners) := scanStates scanning l.wordToken
    (starts.push (Front.start keywords.members.toList, false))
  let overlapping := (Array.range n).map fun t =>
    BitSet.ofList ((List.range n).filter fun a => (interference.clash a t).overlaps)
  { tokenCount := n
    cells := states.map (cellsOf l overlapping)
    gotos := states.map (gotosOf catalog.allVariables.size)
    scanners
    scannerOf := setNumbers.map fun k => firsts[k]!
    keywordScanner := firsts.back?.getD 0
    showing := showings l catalog.allVariables
    layouts := items.layouts.map layoutArrays }

end Table

end MethodExtraction.Grammar
