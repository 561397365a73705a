import MethodExtraction.Grammar.BitSet
import MethodExtraction.Grammar.Lexeme

namespace MethodExtraction.Grammar

/-- A point in the reading of a token: blanks may still be skipped while `leading`, and `rest` is
what completes the text read so far. -/
structure Reading where
  leading : Bool
  rest : Pattern
  deriving DecidableEq, Inhabited

structure Move where
  target : Nat
  skips : Bool
  reads : Bool
  deriving Inhabited

structure Point where
  leading : Bool
  accepts : Bool
  moves : Array (Option Move)
  deriving Inhabited

/-- Reading starts at point 0. -/
abbrev TokenAutomaton := Array Point

/-- What is left of a reading after a character, with whether it was skipped and whether it was
read; nothing if it could be neither. -/
def Reading.step (l : Lexeme) (r : Reading) (c : Char) : Option (Reading × Bool × Bool) :=
  let after (p : Pattern) : Pattern := p.deriv fun s => s.has c
  let skips := r.leading && CharSet.blank.has c
  let rest :=
    if r.leading then Regex.mkAlt (after l.pattern) (after r.rest) else after r.rest
  let reads := rest != .never
  if skips || reads then some (⟨skips, rest⟩, skips, reads) else none

namespace TokenAutomaton

def letters : Array Char := (Array.range letterCount).map sampleOf

private def start (l : Lexeme) : Reading :=
  if l.immediate then ⟨false, l.pattern⟩ else ⟨true, .never⟩

private def pointLimit : Nat := 10000

def ofLexeme (l : Lexeme) : TokenAutomaton := Id.run do
  let mut readings := #[start l]
  let mut points := #[]
  for i in [0:pointLimit] do
    match readings[i]? with
    | none => break
    | some r =>
      let mut moves := #[]
      for c in letters do
        match Reading.step l r c with
        | none => moves := moves.push none
        | some (next, skips, reads) =>
          let target := (readings.findIdx? (· = next)).getD readings.size
          if target = readings.size then
            readings := readings.push next
          moves := moves.push (some ⟨target, skips, reads⟩)
      points := points.push ⟨r.leading, r.rest.nullable, moves⟩
  return points

def startLetters (a : TokenAutomaton) : BitSet :=
  BitSet.ofList (((a[0]!).moves.toList.zipIdx.filter fun (m, _) => m.isSome).map Prod.snd)

end TokenAutomaton

/-- The tokens that may still be under way, each with its point, in the order of tokens. -/
abbrev Front := List (Nat × Nat)

def Front.start (tokens : List Nat) : Front := tokens.map fun t => (t, 0)

/-- Where a front moves by a letter. `skips` says that the letter can only be a blank before the
token; `precedence` is the highest of the tokens that read it. -/
structure Advance where
  front : Front
  skips : Bool
  precedence : Int
  deriving Inhabited

structure Scanning where
  lexemes : Array Lexeme
  automata : Array TokenAutomaton

namespace Scanning

variable (s : Scanning)

def ofLexemes (ls : Array Lexeme) : Scanning := ⟨ls, ls.map TokenAutomaton.ofLexeme⟩

private def point (token i : Nat) : Point := (s.automata[token]!)[i]!

def isLeading (f : Front) : Bool := f.any fun (t, i) => (s.point t i).leading

def complete (f : Front) : List Nat := (f.filter fun (t, i) => (s.point t i).accepts).map Prod.fst

def advance (f : Front) (letter : Nat) : Option Advance :=
  let moves := f.filterMap fun (t, i) =>
    ((s.point t i).moves[letter]?).join.map fun m => (t, m)
  if moves.isEmpty then none
  else
    let levels := moves.map fun (t, m) =>
      if m.reads then
        let own := (s.lexemes[t]!).precedence
        if m.skips then max 0 own else own
      else 0
    some
      { front := moves.map fun (t, m) => (t, m.target)
        skips := moves.all fun (_, m) => !m.reads
        precedence := levels.foldl max (levels.headD 0) }

def prefers (a b : Nat) : Bool :=
  let x := s.lexemes[a]!
  let y := s.lexemes[b]!
  if x.precedence != y.precedence then y.precedence < x.precedence
  else if x.rank != y.rank then y.rank < x.rank
  else a < b

def preferred (f : Front) : Option Nat :=
  (s.complete f).foldl (fun best t =>
    match best with
    | none => some t
    | some b => if s.prefers b t then some b else some t) none

def continues (leading : Bool) (token : Nat) (a : Advance) : Bool :=
  let level := (s.lexemes[token]!).precedence
  if a.precedence < level then false
  else if level < a.precedence then true
  else !a.skips && !(leading && a.front.any fun (t, _) => t != token)

end Scanning

end MethodExtraction.Grammar
