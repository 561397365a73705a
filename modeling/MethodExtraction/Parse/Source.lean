import MethodExtraction.Grammar.Table

namespace MethodExtraction.Parse

open Grammar

/-- Characters with the byte offset and the number of line breaks before each; both go on to the end
of the text. `charAt` finds the character at a byte offset. -/
structure Source where
  chars : Array Char
  offsets : Array Nat
  rows : Array Nat
  charAt : Array Nat
  deriving Inhabited

namespace Source

def ofString (s : String) : Source := Id.run do
  let chars := s.toList.toArray
  let mut offsets := #[0]
  let mut rows := #[0]
  let mut charAt := #[]
  let mut offset := 0
  let mut row := 0
  let mut i := 0
  for c in chars do
    for _ in [0:c.utf8Size] do
      charAt := charAt.push i
    offset := offset + c.utf8Size
    if c = '\n' then
      row := row + 1
    offsets := offsets.push offset
    rows := rows.push row
    i := i + 1
  return ⟨chars, offsets, rows, charAt.push i⟩

variable (s : Source)

def size : Nat := s.chars.size

def bytes (i j : Nat) : Nat := s.offsets[j]! - s.offsets[i]!

def breaks (i j : Nat) : Nat := s.rows[j]! - s.rows[i]!

end Source

/-- A token under way: where it begins, where the reading is, and the longest token found so far
with its end. -/
structure Scan where
  start : Nat
  position : Nat
  code : Nat
  stop : Option Nat

namespace Scan

variable (t : Table) (s : Source)

def begin (i : Nat) : Scan :=
  let j := if i = 0 && s.chars[0]? = some '\uFEFF' then 1 else i
  ⟨j, j, 0, none⟩

/-- NUL ends every reading. -/
def run : Nat → Nat → Scan → Scan
  | 0, _, scan => scan
  | fuel + 1, state, scan =>
    let here := t.scanners[state]!
    let scan := match here.accepts with
      | some code => { scan with code, stop := some scan.position }
      | none => scan
    match s.chars[scan.position]? with
    | none =>
      if here.mayEnd then { scan with code := Table.endCode, stop := some scan.position } else scan
    | some c =>
      match (here.moves[letterOf c]?).join with
      | some (next, skipped) =>
        let position := scan.position + 1
        run fuel next { scan with position, start := if skipped then position else scan.start }
      | none => scan

def runFrom (state i : Nat) : Scan := run t s (s.size + 1) state (begin s i)

def found (scan : Scan) : Bool := scan.stop.isSome

def span (scan : Scan) : Nat × Nat :=
  let stop := scan.stop.getD scan.position
  (min scan.start stop, stop)

end Scan

/-- A token in the text: its code and where it begins and ends. An `error` token is text in which no
token begins; `keyword` says that its spelling begins like a keyword. -/
structure Found where
  error : Bool
  code : Nat
  start : Nat
  stop : Nat
  keyword : Bool

namespace Found

variable (t : Table) (s : Source)

/-- Passes over characters until a token is found at which recovery can go on. -/
def search (i : Nat) : Nat → Nat → Bool → Option (Nat × Nat) → Nat → Found
  | 0, _, _, _, _ => ⟨true, 0, i, i, false⟩
  | fuel + 1, state, recovering, skipped, position =>
    let scan := Scan.runFrom t s state position
    let (start, stop) := scan.span
    if scan.found then
      match skipped with
      | some (a, b) => ⟨true, 0, a, b, false⟩
      | none => ⟨false, scan.code, start, stop, false⟩
    else if !recovering then search i fuel (t.scannerOf[0]!) true none i
    else
      let (a, b) := skipped.getD (start, start)
      if scan.position = b then
        if s.size ≤ scan.position then ⟨true, 0, a, b, false⟩
        else search i fuel state true (some (a, scan.position + 1)) (scan.position + 1)
      else search i fuel state true (some (a, scan.position)) scan.position

def acts (state code : Nat) : Bool := !((t.cells[state]!)[code]!).actions.isEmpty

/-- The token that state `state` finds at character `i`. A word is a keyword where its state has an
action for that keyword. -/
def findAt (state i : Nat) : Found :=
  let word := search t s i (s.size + 3) (t.scannerOf[state]!) (state = 0) none i
  if word.error || word.code != Table.wordCode then word
  else
    let scan := Scan.runFrom t s t.keywordScanner word.start
    if scan.found && scan.span.2 = word.stop && acts t state scan.code then
      { word with code := scan.code, keyword := true }
    else { word with keyword := scan.found }

end Found

end MethodExtraction.Parse
