import MethodExtraction.Numeric.Binary

namespace MethodExtraction.Numeric

structure Duration where
  nanoseconds : Nat
  deriving DecidableEq, Inhabited, Repr

namespace Duration

def milliseconds (d : Duration) : Nat := d.nanoseconds / 1000000

def decimal (f : BinaryFormat) (r : Ratio) : String :=
  match f.round? r with
  | some b => b.oneDecimal
  | none => "inf"

def text (d : Duration) : String :=
  let ms := d.milliseconds
  if ms < 1000 then toString ms ++ "ms"
  else if ms < 60000 then decimal double ⟨ms, 1000⟩ ++ "s"
  else toString (ms / 60000) ++ "m " ++ toString (ms % 60000 / 1000) ++ "s"

end Duration

end MethodExtraction.Numeric
