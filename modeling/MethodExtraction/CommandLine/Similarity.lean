import MethodExtraction.CommandLine.Argument

namespace MethodExtraction.CommandLine

/-- Which characters of two words are matched with each other: equal ones that stand less than
`range` apart, each taken once, the first that is free. -/
def matchChars (range : Nat) (as bs : List Char) : List Bool × List Bool :=
  as.zipIdx.foldl (fun (fa, fb) (a, i) =>
    let free := bs.zipIdx.find? fun (b, j) =>
      a == b && i < j + range && j < i + range && !fb.getD j false
    match free with
    | some (_, j) => (fa ++ [true], fb.set j true)
    | none => (fa ++ [false], fb)) ([], bs.map fun _ => false)

def pick (word : List Char) (flags : List Bool) : List Char :=
  (word.zip flags).filterMap fun (c, flag) => if flag then some c else none

def jaro (a b : String) : Float :=
  let as := a.toList
  let bs := b.toList
  let range := max as.length bs.length / 2
  let (fa, fb) := matchChars (max range 1) as bs
  let ma := pick as fa
  let mb := pick bs fb
  let swaps := ((ma.zip mb).filter fun (x, y) => x != y).length / 2
  if ma.isEmpty then 0
  else
    let n := ma.length.toFloat
    (n / as.length.toFloat + n / bs.length.toFloat + (ma.length - swaps).toFloat / n) / 3

/-- The option whose name is most similar to a word, the last of them if there are several. -/
def similarOption? (word : String) : Option Argument :=
  (Argument.options.foldl (fun best a =>
    let similarity := jaro word a.name
    if 0.7 < similarity && best.all (fun (known, _) => known ≤ similarity) then
      some (similarity, a)
    else best) (none : Option (Float × Argument))).map (·.2)

end MethodExtraction.CommandLine
