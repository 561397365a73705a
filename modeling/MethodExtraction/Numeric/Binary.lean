namespace MethodExtraction.Numeric

/-- Numbers of `precision` bits. The last bit of the smallest ones is worth `2 ^ lowest`; all are
below `2 ^ top`. -/
structure BinaryFormat where
  precision : Nat
  lowest : Int
  top : Int
  deriving DecidableEq, Repr

def double : BinaryFormat := ⟨53, -1074, 1024⟩

def single : BinaryFormat := ⟨24, -149, 128⟩

structure Binary where
  significand : Nat
  exponent : Int
  deriving DecidableEq, Inhabited, Repr

/-- The ratio of two numbers; the lower one is not zero. -/
structure Ratio where
  upper : Nat
  lower : Nat
  deriving DecidableEq, Inhabited, Repr

namespace Ratio

def shift (r : Ratio) (e : Int) : Ratio := ⟨r.upper <<< e.toNat, r.lower <<< (-e).toNat⟩

def floor (r : Ratio) : Nat := r.upper / r.lower

/-- The nearest whole number, the even one if two are equally near. -/
def nearest (r : Ratio) : Nat :=
  let q := r.upper / r.lower
  let rest := 2 * (r.upper % r.lower)
  if rest < r.lower then q else if r.lower < rest then q + 1 else q + q % 2

/-- The exponent of the greatest power of two that is not above `r`. -/
def log2 (r : Ratio) : Int :=
  let e : Int := (Nat.log2 r.upper : Int) - Nat.log2 r.lower
  let s := r.shift (-e)
  if s.upper < s.lower then e - 1 else e

end Ratio

namespace Binary

def ratio (b : Binary) : Ratio := (Ratio.mk b.significand 1).shift b.exponent

def oneDecimal (b : Binary) : String :=
  let tenths := Ratio.nearest ⟨10 * b.ratio.upper, b.ratio.lower⟩
  toString (tenths / 10) ++ "." ++ toString (tenths % 10)

end Binary

/-- The nearest number of the format, unless that would not be finite. -/
def BinaryFormat.round? (f : BinaryFormat) (r : Ratio) : Option Binary :=
  let fine := r.log2 - (f.precision - 1)
  let exponent := if fine < f.lowest then f.lowest else fine
  let b : Binary := ⟨(r.shift (-exponent)).nearest, exponent⟩
  let scaled := b.ratio.shift (-f.top)
  if scaled.upper < scaled.lower then some b else none

end MethodExtraction.Numeric
