import MethodExtraction.Numeric.Binary
import MethodExtraction.Numeric.Unsigned

namespace MethodExtraction.Numeric

/-- The number `digits * 10 ^ exponent`, or its negation. -/
structure Numeral where
  negative : Bool
  digits : Nat
  exponent : Int
  deriving DecidableEq, Inhabited, Repr

def ofDigits (cs : List Char) : Nat := cs.foldl (fun n c => n * 10 + digit c) 0

/-- Digits of an exponent are read until it is far beyond all numbers that are finite or not zero. -/
def exponentLimit : Nat := 65536

def ofExponentDigits (cs : List Char) : Nat :=
  cs.foldl (fun n c => if n < exponentLimit then n * 10 + digit c else n) 0

def readSign : List Char → Bool × List Char
  | '-' :: cs => (true, cs)
  | '+' :: cs => (false, cs)
  | cs => (false, cs)

def readExponent? : List Char → Option Int
  | [] => some 0
  | c :: cs =>
    if c = 'e' || c = 'E' then
      let (negative, ds) := readSign cs
      if ds.isEmpty || !ds.all Char.isDigit then none
      else if negative then some (-(ofExponentDigits ds : Int))
      else some (ofExponentDigits ds)
    else none

def readNumeral? (cs : List Char) : Option Numeral := do
  let (negative, cs) := readSign cs
  let whole := cs.takeWhile Char.isDigit
  let rest := cs.dropWhile Char.isDigit
  let (fraction, rest) :=
    match rest with
    | '.' :: rest => (rest.takeWhile Char.isDigit, rest.dropWhile Char.isDigit)
    | _ => ([], rest)
  if whole.isEmpty && fraction.isEmpty then none
  else
    return ⟨negative, ofDigits (whole ++ fraction), (← readExponent? rest) - fraction.length⟩

namespace Numeral

def ratio (n : Numeral) : Ratio :=
  ⟨n.digits * Nat.pow 10 n.exponent.toNat, Nat.pow 10 (-n.exponent).toNat⟩

end Numeral

end MethodExtraction.Numeric
