namespace MethodExtraction.Grammar

abbrev BitSet := Nat

namespace BitSet

def single (i : Nat) : BitSet := 1 <<< i

def has (s : BitSet) (i : Nat) : Bool := Nat.testBit s i

def union (s t : BitSet) : BitSet := s ||| t

def insert (s : BitSet) (i : Nat) : BitSet := s ||| single i

def meets (s t : BitSet) : Bool := s &&& t != 0

def ofList (is : List Nat) : BitSet := is.foldl insert 0

def below (n : Nat) : BitSet := single n - 1

def members (s : BitSet) : Array Nat := Id.run do
  let mut out := #[]
  let mut rest := s
  for word in [0:s.log2 / 32 + 1] do
    let bits := rest % 4294967296
    rest := rest >>> 32
    if bits != 0 then
      for i in [0:32] do
        if Nat.testBit bits i then
          out := out.push (32 * word + i)
  return out

end BitSet

end MethodExtraction.Grammar
