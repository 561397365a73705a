import MethodExtraction.Numeric.Numeral
import MethodExtraction.Text.Trim
import MethodExtraction.Text.Uppercase

namespace MethodExtraction.Numeric

open Text

def units : List (List Char × Nat) :=
  [("GB".toList, 30), ("MB".toList, 20), ("KB".toList, 10)]

def dropEnding? (ending text : List Char) : Option (List Char) :=
  if ending.isSuffixOf text then some (text.take (text.length - ending.length)) else none

/-- What a number of units of `2 ^ power` bytes comes to, with the fraction of a byte dropped. The
number is rounded as a 64-bit floating-point number, and the result is at most the greatest word. -/
def scaled? (number : List Char) (power : Nat) : Option Nat := do
  let n ← readNumeral? (trim number)
  let b ← double.round? n.ratio
  if n.negative && b.significand != 0 then none
  else some (min (b.ratio.shift power).floor (wordLimit - 1))

def bytes? (size : List Char) : Option Nat :=
  match units.findSome? fun (unit, power) => (dropEnding? unit size).map (·, power) with
  | some (number, power) => scaled? number power
  | none =>
    match dropEnding? ['B'] size with
    | some number => (readUnsigned (trim number)).toOption
    | none => (readUnsigned size).toOption

/-- Read a size; a text that is none comes back as the error. -/
def readSize (text : String) : Except String Nat :=
  let size := uppercase (trim text.toList)
  match bytes? size with
  | some n => .ok n
  | none => .error (String.ofList size)

end MethodExtraction.Numeric
