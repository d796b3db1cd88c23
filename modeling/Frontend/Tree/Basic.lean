import Frontend.Decimal.Double
import Frontend.Tree.TypeExpr

/-!
# The syntax tree

Trees are immutable values. What analysis finds out about a node is kept elsewhere, under the
id of the node.
-/

namespace Frontend

/-- A literal value. -/
inductive Literal where
  | char (value : Char)
  | float (value : Double)
  | bool (value : Bool)
  | string (value : String)
  | int (value : Int)
  | uint (value : Nat)
  | symbol (name : String)
deriving DecidableEq, Repr

/-- Whether a condition is taken as it is or negated. -/
inductive IfKind where
  | «if»
  | unless
deriving DecidableEq, Repr

/-- The operators with one operand. -/
inductive UnaryOp where
  | neg | plus | not
deriving DecidableEq, Repr

/-- The operators with two operands. -/
inductive BinaryOp where
  | add | sub | mul | div | mod
  | eq | notEq | less | lessEq | greater | greaterEq
  | and | or
  | bitAnd | bitOr | bitXor | shl | shr
deriving DecidableEq, Repr

namespace BinaryOp

/-- Whether an operator computes a number from two. -/
def isArithmetic : BinaryOp → Bool
  | .add | .sub | .mul | .div | .mod => true
  | _ => false

/-- Whether an operator compares its operands. -/
def isComparison : BinaryOp → Bool
  | .eq | .notEq | .less | .lessEq | .greater | .greaterEq => true
  | _ => false

/-- Whether an operator combines truth values. -/
def isLogical : BinaryOp → Bool
  | .and | .or => true
  | _ => false

end BinaryOp

/-- A function parameter, or a variable of a `for` loop. -/
structure Param where
  info : NodeInfo
  isVar : Bool
  name : String
  type : Option TypeExpr
deriving Repr

/-- A name that an initialize statement declares. -/
structure VarDecl where
  info : NodeInfo
  isVar : Bool
  name : String
  type : Option TypeExpr
deriving Repr

/-- A name that a constant definition declares. -/
structure ConstDecl where
  info : NodeInfo
  name : String
  type : Option TypeExpr
deriving Repr

mutual

/-- An expression. -/
inductive Expr where
  | literal (info : NodeInfo) (value : Literal)
  | array (info : NodeInfo) (elems : List Expr)
  | tuple (info : NodeInfo) (elems : List Expr)
  | dict (info : NodeInfo) (entries : List (Expr × Expr))
  /-- A name; `assigned` if it is a target of an assignment. -/
  | varRef (info : NodeInfo) (name : String) (assigned : Bool)
  | member (info : NodeInfo) (receiver : Expr) (name : String)
  | index (info : NodeInfo) (receiver index : Expr)
  | call (info : NodeInfo) (callee : Expr) (args : List Expr)
  | unary (info : NodeInfo) (op : UnaryOp) (operand : Expr)
  | binary (info : NodeInfo) (op : BinaryOp) (lhs rhs : Expr)
  | cast (info : NodeInfo) (value : Expr) (type : TypeExpr)
  | typed (info : NodeInfo) (value : Expr) (type : TypeExpr)
  | ifElse (info : NodeInfo) (kind : IfKind) (condition thenValue elseValue : Expr)
  | range (info : NodeInfo) (first last : Expr) (inclusive : Bool)
  | lambda (info : NodeInfo) (definition : FuncDef)

/-- A function, procedure or lambda. -/
structure FuncDef where
  info : NodeInfo
  kind : FuncKind
  name : String
  params : List Param
  returnType : Option TypeExpr
  body : Block
  ensureBody : Option Block

/-- Statements between braces. -/
structure Block where
  info : NodeInfo
  stmts : List Stmt

/-- An initialize statement; without values each declaration has a type. -/
structure Init where
  info : NodeInfo
  decls : List VarDecl
  values : List Expr

/-- A statement. -/
inductive Stmt where
  | init (init : Init)
  /-- An assignment, with the operator of a compound one such as `+=`. -/
  | assign (info : NodeInfo) (targets : List Expr) (op : Option BinaryOp) (values : List Expr)
  | ifElse (info : NodeInfo) (kind : IfKind) (condition : Expr) (thenBlock : Block)
      (elseifs : List (Expr × Block)) (elseBlock : Option Block)
  | ret (info : NodeInfo) (values : List Expr)
  | case (info : NodeInfo) (whens : List (Expr × Block)) (elseBlock : Option Block)
  | switch (info : NodeInfo) (target : Expr) (whens : List (List Expr × Block))
      (elseBlock : Option Block)
  | forIn (info : NodeInfo) (vars : List Param) (range : Expr) (body : Block)
  | whileDo (info : NodeInfo) (condition : Expr) (body : Block)
  /-- A statement followed by a condition. -/
  | guarded (info : NodeInfo) (body : Stmt) (kind : IfKind) (condition : Expr)
  | letIn (info : NodeInfo) (inits : List Init) (child : Stmt)
  | expr (value : Expr)

end

/-- A definition of constants. -/
structure ConstDef where
  info : NodeInfo
  decls : List ConstDecl
  values : List Expr

/-- A definition at the top level. -/
inductive Definition where
  | function (definition : FuncDef)
  | constant (definition : ConstDef)

/-- A compilation unit: its definitions in source order. -/
structure Program where
  info : NodeInfo
  definitions : List Definition

namespace Expr

/-- Identity and location. -/
def info : Expr → NodeInfo
  | .literal info _ | .array info _ | .tuple info _ | .dict info _ | .varRef info ..
  | .member info .. | .index info .. | .call info .. | .unary info .. | .binary info ..
  | .cast info .. | .typed info .. | .ifElse info .. | .range info .. | .lambda info _ => info

/-- The id of the node. -/
def id (e : Expr) : Nat := e.info.id

/-- Where the expression begins. -/
def position (e : Expr) : Position := e.info.span.start

/-- The expression as a target of an assignment: a plain name is marked as assigned. -/
def asTarget : Expr → Expr
  | .varRef info name _ => .varRef info name true
  | e => e

end Expr

/-- Identity and location of a statement. -/
def Stmt.info : Stmt → NodeInfo
  | .init ⟨info, _, _⟩ => info
  | .assign info .. | .ifElse info .. | .ret info _ | .case info .. | .switch info ..
  | .forIn info .. | .whileDo info .. | .guarded info .. | .letIn info .. => info
  | .expr value => value.info

/-- Whether a function has a parameter without a type. -/
def FuncDef.isTemplate (d : FuncDef) : Bool := d.params.any (·.type.isNone)

namespace Program

/-- The functions of a program in source order. -/
def functions (p : Program) : List FuncDef :=
  p.definitions.filterMap fun
    | .function d => some d
    | .constant _ => none

/-- The constant definitions of a program in source order. -/
def constants (p : Program) : List ConstDef :=
  p.definitions.filterMap fun
    | .constant d => some d
    | .function _ => none

end Program

end Frontend
