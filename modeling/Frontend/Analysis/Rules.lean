import Frontend.Tree.Basic

/-!
# Typing rules

The rules of operators, literals and builtin members that depend on types alone.
-/

namespace Frontend

/-- The type of a literal. -/
def Literal.type : Literal → Ty
  | .char _ => .char
  | .float _ => .float
  | .bool _ => .bool
  | .string _ => .string
  | .int _ => .int
  | .uint _ => .uint
  | .symbol _ => .symbol

/-- The members that values of a type have without a function declaring them. -/
def Ty.member? (receiver : Ty) (name : String) : Option Ty :=
  match receiver with
  | .array _ | .dict _ _ | .builtin .string => if name = "size" then some .uint else none
  | .tuple elems =>
    if name = "first" then elems.head?
    else if name = "second" then elems[1]?
    else if name = "last" then elems.getLast?
    else none
  | _ => none

/-- The type of the elements that a loop over a value runs through. -/
def Ty.element? : Ty → Option Ty
  | .array elem => some elem
  | .builtin .string => some .char
  | .dict key value => some (.tuple [key, value])
  | .named name [elem] => if name = "range" then some elem else none
  | _ => none

namespace BinaryOp

/-- The type of a binary expression whose operands have the given type, if the operator applies
to them. -/
def result? (op : BinaryOp) (operand : Ty) : Option Ty :=
  if op.isComparison then some .bool
  else if op.isLogical then if operand = .bool then some .bool else none
  else if op.isArithmetic then
    if operand.isNumeric ∨ (op = .add ∧ operand = .string) then some operand else none
  else if operand.isIntegral then some operand else none

/-- What an operator expects of its operands. -/
def operands (op : BinaryOp) : String :=
  if op.isLogical then "bool"
  else if op = .add then "number or string"
  else if op.isArithmetic then "number"
  else "integer"

end BinaryOp

/-- The type of a unary expression whose operand has the given type, or what the operator
expects. -/
def UnaryOp.result (op : UnaryOp) (operand : Ty) : Except String Ty :=
  match op with
  | .not => if operand = .bool then .ok operand else .error "bool"
  | .neg | .plus => if operand.isNumeric then .ok operand else .error "number"

/-- The position in a tuple that an index expression names: only an integer literal does. -/
def Expr.tuplePosition? : Expr → Option Nat
  | .literal _ (.int value) => if 0 ≤ value then some value.toNat else none
  | .literal _ (.uint value) => some value
  | _ => none

end Frontend
