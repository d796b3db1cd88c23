import Frontend.Tree.Basic

/-!
# The ids of a tree

All node ids of a tree, the ids of type annotations included, each node before its parts.
-/

namespace Frontend

mutual

/-- The ids of a type annotation. -/
def TypeExpr.ids : TypeExpr → List Nat
  | .primary info _ args => info.id :: TypeExpr.idsAll args
  | .array info elem => info.id :: elem.ids
  | .dict info key value => info.id :: (key.ids ++ value.ids)
  | .tuple info elems => info.id :: TypeExpr.idsAll elems
  | .func info _ params none => info.id :: TypeExpr.idsAll params
  | .func info _ params (some ret) => info.id :: (TypeExpr.idsAll params ++ ret.ids)
  | .qualified info _ inner => info.id :: inner.ids

/-- The ids of type annotations. -/
def TypeExpr.idsAll : List TypeExpr → List Nat
  | [] => []
  | t :: rest => t.ids ++ TypeExpr.idsAll rest

end

/-- The ids of an optional type annotation. -/
def TypeExpr.idsOption (t : Option TypeExpr) : List Nat := (t.map TypeExpr.ids).getD []

/-- The ids of a parameter. -/
def Param.ids (p : Param) : List Nat := p.info.id :: TypeExpr.idsOption p.type

/-- The ids of a declaration. -/
def VarDecl.ids (d : VarDecl) : List Nat := d.info.id :: TypeExpr.idsOption d.type

/-- The ids of a declaration of a constant. -/
def ConstDecl.ids (d : ConstDecl) : List Nat := d.info.id :: TypeExpr.idsOption d.type

mutual

/-- The ids of an expression. -/
def Expr.ids : Expr → List Nat
  | .literal info _ | .varRef info _ _ => [info.id]
  | .array info elems | .tuple info elems => info.id :: exprIds elems
  | .dict info entries => info.id :: entryIds entries
  | .member info receiver _ => info.id :: receiver.ids
  | .index info receiver index => info.id :: (receiver.ids ++ index.ids)
  | .call info callee args => info.id :: (callee.ids ++ exprIds args)
  | .unary info _ operand => info.id :: operand.ids
  | .binary info _ lhs rhs => info.id :: (lhs.ids ++ rhs.ids)
  | .cast info value type | .typed info value type => info.id :: (value.ids ++ type.ids)
  | .ifElse info _ condition thenValue elseValue =>
    info.id :: (condition.ids ++ thenValue.ids ++ elseValue.ids)
  | .range info first last _ => info.id :: (first.ids ++ last.ids)
  | .lambda info definition => info.id :: definition.ids

/-- The ids of expressions. -/
def exprIds : List Expr → List Nat
  | [] => []
  | e :: rest => e.ids ++ exprIds rest

/-- The ids of the entries of a dictionary. -/
def entryIds : List (Expr × Expr) → List Nat
  | [] => []
  | (key, value) :: rest => key.ids ++ value.ids ++ entryIds rest

/-- The ids of a function. -/
def FuncDef.ids : FuncDef → List Nat
  | ⟨info, _, _, params, returnType, body, ensureBody⟩ =>
    info.id :: (params.flatMap Param.ids ++ TypeExpr.idsOption returnType ++ body.ids ++
      blockIds ensureBody)

/-- The ids of a block. -/
def Block.ids : Block → List Nat
  | ⟨info, stmts⟩ => info.id :: stmtIds stmts

/-- The ids of an optional block. -/
def blockIds : Option Block → List Nat
  | none => []
  | some b => b.ids

/-- The ids of an initialize statement. -/
def Init.ids : Init → List Nat
  | ⟨info, decls, values⟩ => info.id :: (decls.flatMap VarDecl.ids ++ exprIds values)

/-- The ids of a statement. -/
def Stmt.ids : Stmt → List Nat
  | .init init => init.ids
  | .assign info targets _ values => info.id :: (exprIds targets ++ exprIds values)
  | .ifElse info _ condition thenBlock elseifs elseBlock =>
    info.id :: (condition.ids ++ thenBlock.ids ++ armIds elseifs ++ blockIds elseBlock)
  | .ret info values => info.id :: exprIds values
  | .case info whens elseBlock => info.id :: (armIds whens ++ blockIds elseBlock)
  | .switch info target whens elseBlock =>
    info.id :: (target.ids ++ valueArmIds whens ++ blockIds elseBlock)
  | .forIn info vars range body => info.id :: (vars.flatMap Param.ids ++ range.ids ++ body.ids)
  | .whileDo info condition body => info.id :: (condition.ids ++ body.ids)
  | .guarded info body _ condition => info.id :: (body.ids ++ condition.ids)
  | .letIn info inits child => info.id :: (initIds inits ++ child.ids)
  | .expr value => value.ids

/-- The ids of statements. -/
def stmtIds : List Stmt → List Nat
  | [] => []
  | s :: rest => s.ids ++ stmtIds rest

/-- The ids of initialize statements. -/
def initIds : List Init → List Nat
  | [] => []
  | init :: rest => init.ids ++ initIds rest

/-- The ids of conditions and the blocks they guard. -/
def armIds : List (Expr × Block) → List Nat
  | [] => []
  | (condition, block) :: rest => condition.ids ++ block.ids ++ armIds rest

/-- The ids of values and the blocks that are run for them. -/
def valueArmIds : List (List Expr × Block) → List Nat
  | [] => []
  | (values, block) :: rest => exprIds values ++ block.ids ++ valueArmIds rest

end

/-- The ids of a constant definition. -/
def ConstDef.ids (d : ConstDef) : List Nat :=
  d.info.id :: (d.decls.flatMap ConstDecl.ids ++ exprIds d.values)

/-- The ids of a definition. -/
def Definition.ids : Definition → List Nat
  | .function d => d.ids
  | .constant d => d.ids

/-- Identity and location of a definition. -/
def Definition.info : Definition → NodeInfo
  | .function d => d.info
  | .constant d => d.info

/-- The ids of what a definition has analysed: the bodies of a function, the values of
constants. -/
def Definition.bodyIds : Definition → List Nat
  | .function d => d.body.ids ++ blockIds d.ensureBody
  | .constant d => exprIds d.values

/-- The ids of a program. -/
def Program.ids (p : Program) : List Nat := p.info.id :: p.definitions.flatMap Definition.ids

/-- Whether the nodes of a function have pairwise different ids, all of them `first` or later. -/
def FuncDef.isFreshSince (d : FuncDef) (first : Nat) : Bool :=
  decide (d.ids.Nodup) && d.ids.all fun id => decide (first ≤ id)

end Frontend
