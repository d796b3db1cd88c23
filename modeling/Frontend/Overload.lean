import Frontend.Symbol

/-!
# Overload selection

A parameter list is scored against an argument list: a placeholder weighs 1, an exactly equal
type 2, anything else 0, and the weights multiply. So 0 always means that the function does not
apply. The best score wins, and of equal scores the first.
-/

namespace Frontend.Overload

/-- Scores are cut off at this value. -/
def maxScore : Nat := Nat.pow 2 32 - 1

/-- How well a parameter type fits an argument type. -/
def weight (param arg : Ty) : Nat :=
  if param.isTemplate then 1 else if param = arg then 2 else 0

/-- How well parameter types fit argument types, zero if they do not. -/
def scoreParams (params args : List Ty) : Nat :=
  if params.length ≠ args.length then 0
  else (List.zipWith weight params args).foldl (fun score w => min (score * w) maxScore) 1

/-- How well a function fits argument types. -/
def score (f : FuncSymbol) (args : List Ty) : Nat := scoreParams f.paramTypes args

/-- Keeps the better of the best candidate so far and the next one, which has to score more. -/
def better {κ : Type} (args : List Ty) (best : Option ((κ × FuncSymbol) × Nat))
    (candidate : κ × FuncSymbol) : Option ((κ × FuncSymbol) × Nat) :=
  let score := score candidate.2 args
  if (best.map (·.2)).getD 0 < score then some (candidate, score) else best

/-- The function that a call of `name` stands for among candidates, each known under a key, and
its score. -/
def select {κ : Type} (candidates : List (κ × FuncSymbol)) (name : String) (args : List Ty) :
    Option ((κ × FuncSymbol) × Nat) :=
  (candidates.filter fun c => c.2.name == name).foldl (better args) none

end Frontend.Overload
