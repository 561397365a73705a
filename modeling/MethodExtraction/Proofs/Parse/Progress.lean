import MethodExtraction.Proofs.Parse.Insertions

namespace MethodExtraction.Parse

open Grammar Stack Search

variable {B : Nat → Prop} {n : Nat} {c : Setting} {M : List (Nat × Bool)} {v p : Nat}

namespace SearchM

section Actions

end Actions

section Condensing

end Condensing

end SearchM

end MethodExtraction.Parse
