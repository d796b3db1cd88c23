import Frontend.Tree.Describe

/-!
# Symbols

What a name can stand for: a variable, which covers parameters and constants, or a function.
`FuncSymbol.sameDeclaration` says when two functions could not be told apart by a call.
-/

namespace Frontend

/-- A variable, parameter or constant. Only a constant can lack a type, until its value has been
analysed. -/
structure VarSymbol where
  name : String
  type : Option Ty
  isVar : Bool
deriving DecidableEq, Repr

namespace VarSymbol

/-- A variable with its type, if that is known. -/
def describe (v : VarSymbol) : String :=
  let header := declarator v.isVar ++ " " ++ v.name
  match v.type with
  | some type => header ++ " : " ++ type.toText
  | none => header

/-- Whether a variable is a parameter that takes arguments of any type. -/
def isTemplate (v : VarSymbol) : Bool := v.type.any Ty.isTemplate

/-- Gives a variable its type, unless it has one. -/
def withType? (v : VarSymbol) (type : Ty) : Option VarSymbol :=
  if v.type.isSome then none else some { v with type := some type }

end VarSymbol

/-- A function, procedure or lambda. -/
structure FuncSymbol where
  name : String
  params : List VarSymbol
  /-- The result type, once it is known; a procedure never has one. -/
  ret : Option Ty
  kind : FuncKind
  isBuiltin : Bool
  decl : Option FuncDef

namespace FuncSymbol

/-- The types of the parameters; a parameter without one counts as unit. -/
def paramTypes (f : FuncSymbol) : List Ty := f.params.map fun p => p.type.getD .unit

/-- Whether some parameter is a placeholder. -/
def isTemplate (f : FuncSymbol) : Bool := f.params.any VarSymbol.isTemplate

/-- The type of the function as a value, once its result type is known. -/
def type? (f : FuncSymbol) : Option Ty :=
  if f.kind.returnsValue then f.ret.map fun ret => .func f.paramTypes (some ret)
  else some (.func f.paramTypes none)

/-- The definition that declares the function. -/
def declaration (f : FuncSymbol) : Except Fault FuncDef :=
  if f.isBuiltin then throw (.builtinDeclaration f.name)
  else match f.decl with
    | some definition => pure definition
    | none => throw (.missingDeclaration f.name)

/-- Gives a function its result type, unless it has one. -/
def withRet? (f : FuncSymbol) (type : Ty) : Option FuncSymbol :=
  if f.ret.isSome then none else some { f with ret := some type }

/-- Whether two parameters take the same arguments: both are placeholders, or neither is and
their types are equal. -/
def sameParam (p q : VarSymbol) : Bool :=
  if p.isTemplate || q.isTemplate then p.isTemplate && q.isTemplate else decide (p.type = q.type)

/-- Whether two functions declare the same: the same name and pairwise the same parameters. -/
def sameDeclaration (f g : FuncSymbol) : Bool :=
  f.name == g.name && f.params.length == g.params.length &&
    (f.params.zip g.params).all fun (p, q) => sameParam p q

/-- The header of a function: for a builtin the names of its parameters, for others their types
and, once it is known, the result type. -/
def describe (f : FuncSymbol) : String :=
  if f.isBuiltin then "func " ++ f.name ++ "(" ++ commas (f.params.map (·.name)) ++ ")"
  else
    let types := f.params.map fun p => (p.type.map Ty.toText).getD "?"
    let header := f.kind.name ++ " " ++ f.name ++ "(" ++ commas types ++ ")"
    match f.ret with
    | some ret => header ++ ": " ++ ret.toText
    | none => header

end FuncSymbol

end Frontend
