namespace MethodExtraction.Text

def slice? (s : String) (start stop : Nat) : Option String := do
  let a ← s.pos? ⟨start⟩
  let b ← s.pos? ⟨stop⟩
  if start ≤ stop then some (s.extract a b) else none

end MethodExtraction.Text
