import Frontend.Proofs.Layout.Lambda
import Frontend.Proofs.Layout.Program
import Frontend.Proofs.Returns.Source

/-!
# Scopes of accepted programs

In the end, the scopes of analysed code have been carried out and nothing else has opened a block or
declared a variable in one. So the scope of each construct holds just what the text has directly in
it: the tree of scopes mirrors the tree of the program.
-/

namespace Frontend

variable {p : Program} {s : AnalysisState} {es : List Definition} {d : Definition} {σ τ : Shape}
  {id : ScopeId}

namespace CarriedOut

variable (h : CarriedOut p es s) (hi : Inv p s)
include h hi

end CarriedOut

/-! ### Accepted programs -/

end Frontend
