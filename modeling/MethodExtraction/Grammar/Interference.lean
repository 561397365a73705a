import MethodExtraction.Grammar.Scanning

namespace MethodExtraction.Grammar

/-- What one token does to another. `beforeEnd`: it is taken although the other could read on;
`readsOn`: it reads on where the other is complete, and `intoNext` if by a letter that may also
follow the other; `withBlanks`: it is complete while the other may still skip blanks; `sameText`:
it wins where both are complete; `alone`: it goes on where the other cannot. -/
structure Clash where
  beforeEnd : Bool := false
  readsOn : Bool := false
  intoNext : Bool := false
  withBlanks : Bool := false
  sameText : Bool := false
  alone : Bool := false
  deriving DecidableEq, Inhabited

namespace Clash

def conflicts (c : Clash) : Bool := c.intoNext || c.withBlanks || c.sameText

def overlaps (c : Clash) : Bool := c.withBlanks || c.beforeEnd || c.sameText || c.readsOn

end Clash

section Pairs

variable (s : Scanning) (following : Array BitSet)

private structure PairState where
  lower : Clash
  upper : Clash
  seen : List Front
  todo : List Front

private def PairState.change (p : PairState) (isUpper : Bool) (f : Clash → Clash) : PairState :=
  if isUpper then { p with upper := f p.upper } else { p with lower := f p.lower }

private def PairState.look (a b : Nat) (p : PairState) (f : Front) : PairState := Id.run do
  match f with
  | [(t, _)] => return p.change (t = b) fun c => { c with alone := true }
  | _ =>
    let leading := s.isLeading f
    let complete := s.complete f
    let mut p := p
    for t in complete do
      if leading then
        p := p.change (t = b) fun c => { c with withBlanks := true }
    if complete.length = 2 then
      p := p.change (s.prefers b a) fun c => { c with sameText := true }
    for letter in [0:letterCount] do
      match s.advance f letter with
      | none => pure ()
      | some m =>
        match s.preferred f with
        | none => pure ()
        | some done =>
          match m.front with
          | [(t, _)] =>
            if t != done then
              if s.continues leading done m then
                let next := (following[done]!).has letter
                p := p.change (t = b) fun c =>
                  { c with readsOn := true, intoNext := c.intoNext || next }
              else
                p := p.change (done = b) fun c => { c with beforeEnd := true }
          | _ => pure ()
        if !p.seen.contains m.front then
          p := { p with seen := m.front :: p.seen, todo := m.front :: p.todo }
    return p

private def frontLimit : Nat := 100000

private def clashOf (a b : Nat) : Clash × Clash := Id.run do
  let mut p : PairState := ⟨{}, {}, [], [Front.start [a, b]]⟩
  for _ in [0:frontLimit] do
    match p.todo with
    | [] => break
    | f :: rest => p := PairState.look s following a b { p with todo := rest } f
  return (p.lower, p.upper)

end Pairs

structure Interference where
  clashes : Array (Array Clash)
  deriving Inhabited

namespace Interference

def ofScanning (s : Scanning) (follow : Array BitSet) : Interference := Id.run do
  let starts := s.automata.map TokenAutomaton.startLetters
  let following := follow.map fun tokens =>
    tokens.members.foldl (fun letters t => letters.union (starts[t]?.getD 0)) 0
  let n := s.lexemes.size
  let mut clashes : Array (Array Clash) := Array.replicate n (Array.replicate n {})
  for b in [0:n] do
    for a in [0:b] do
      let (lower, upper) := clashOf s following a b
      clashes := clashes.modify a (·.set! b lower)
      clashes := clashes.modify b (·.set! a upper)
  return ⟨clashes⟩

variable (i : Interference)

def clash (a b : Nat) : Clash := (i.clashes[a]!)[b]!

/-- The tokens `b` such that `p` holds of what `a` does to `b`, for each `a`. -/
def relation (p : Clash → Bool) : Array BitSet :=
  i.clashes.map fun row =>
    BitSet.ofList ((row.toList.zipIdx.filter fun (c, _) => p c).map Prod.snd)

/-- The tokens that are spelt like a `word`, but preferred to it. -/
def keywords (word : Nat) : BitSet :=
  BitSet.ofList ((i.clashes.toList.zipIdx.filter fun (row, _) =>
    (row[word]!).sameText && !(row[word]!).alone).map Prod.snd)

end Interference

end MethodExtraction.Grammar
