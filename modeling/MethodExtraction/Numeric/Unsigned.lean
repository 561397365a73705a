namespace MethodExtraction.Numeric

def wordLimit : Nat := 18446744073709551616

inductive UnsignedError where
  | empty
  | invalidDigit
  | overflow
  deriving DecidableEq, Inhabited, Repr

def UnsignedError.text : UnsignedError → String
  | .empty => "cannot parse integer from empty string"
  | .invalidDigit => "invalid digit found in string"
  | .overflow => "number too large to fit in target type"

def digit (c : Char) : Nat := c.toNat - '0'.toNat

/-- Go on reading digits behind those that make `n`. The first thing that is wrong counts. -/
def readDigits (n : Nat) : List Char → Except UnsignedError Nat
  | [] => .ok n
  | c :: cs =>
    if !c.isDigit then .error .invalidDigit
    else if n * 10 + digit c < wordLimit then readDigits (n * 10 + digit c) cs
    else .error .overflow

def readUnsigned : List Char → Except UnsignedError Nat
  | [] => .error .empty
  | ['+'] => .error .invalidDigit
  | '+' :: cs => readDigits 0 cs
  | cs => readDigits 0 cs

end MethodExtraction.Numeric
