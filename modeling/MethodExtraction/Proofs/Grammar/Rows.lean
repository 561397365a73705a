import MethodExtraction.Grammar.Table
import MethodExtraction.Proofs.Parse.Steps

namespace MethodExtraction.Grammar.Table

end MethodExtraction.Grammar.Table
