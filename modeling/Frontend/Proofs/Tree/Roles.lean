import Mathlib.Data.List.Nodup
import Frontend.Tree.Ids

/-!
# The roles of nodes

An expression stands for a value or is what a call calls, and a statement is neither. The ids that
come with the roles are among the ids of the tree, in order (`FuncDef.roles_sublist`), so where ids
differ a node has one role only (`Definition.role_unique`).
-/

namespace Frontend

/-- What a node is in the tree around it. -/
inductive Role where
  /-- What is called in a call. -/
  | callee
  /-- Any other expression. -/
  | value
  /-- A statement that is no expression. -/
  | statement
deriving DecidableEq, Repr

mutual

/-- The roles of the parts of an expression. -/
def Expr.roles : Expr → List (Role × Nat)
  | .literal .. | .varRef .. => []
  | .array _ elems | .tuple _ elems => exprsRoles elems
  | .dict _ entries => entriesRoles entries
  | .member _ receiver _ => (.value, receiver.id) :: receiver.roles
  | .index _ receiver index =>
    (.value, receiver.id) :: receiver.roles ++ (.value, index.id) :: index.roles
  | .call _ callee args => (.callee, callee.id) :: callee.roles ++ exprsRoles args
  | .unary _ _ operand => (.value, operand.id) :: operand.roles
  | .binary _ _ lhs rhs => (.value, lhs.id) :: lhs.roles ++ (.value, rhs.id) :: rhs.roles
  | .cast _ value _ | .typed _ value _ => (.value, value.id) :: value.roles
  | .ifElse _ _ condition thenValue elseValue =>
    (.value, condition.id) :: condition.roles ++ (.value, thenValue.id) :: thenValue.roles ++
      (.value, elseValue.id) :: elseValue.roles
  | .range _ first last _ =>
    (.value, first.id) :: first.roles ++ (.value, last.id) :: last.roles
  | .lambda _ d => d.roles

/-- The roles of expressions and their parts. -/
def exprsRoles : List Expr → List (Role × Nat)
  | [] => []
  | e :: rest => (.value, e.id) :: e.roles ++ exprsRoles rest

/-- The roles of the entries of a dictionary and their parts. -/
def entriesRoles : List (Expr × Expr) → List (Role × Nat)
  | [] => []
  | (key, value) :: rest =>
    (.value, key.id) :: key.roles ++ (.value, value.id) :: value.roles ++ entriesRoles rest

/-- The roles in the bodies of a function. -/
def FuncDef.roles : FuncDef → List (Role × Nat)
  | ⟨_, _, _, _, _, body, ensureBody⟩ => body.roles ++ blockRoles ensureBody

/-- The roles in a block. -/
def Block.roles : Block → List (Role × Nat)
  | ⟨_, stmts⟩ => stmtsRoles stmts

/-- The roles in an optional block. -/
def blockRoles : Option Block → List (Role × Nat)
  | none => []
  | some b => b.roles

/-- The roles of an initialize statement and its values. -/
def Init.roles : Init → List (Role × Nat)
  | ⟨info, _, values⟩ => (.statement, info.id) :: exprsRoles values

/-- The roles of a statement and its parts. -/
def Stmt.roles : Stmt → List (Role × Nat)
  | .init init => init.roles
  | .assign info targets _ values =>
    (.statement, info.id) :: exprsRoles targets ++ exprsRoles values
  | .ifElse info _ condition thenBlock elseifs elseBlock =>
    (.statement, info.id) :: (.value, condition.id) :: condition.roles ++ thenBlock.roles ++
      armsRoles elseifs ++ blockRoles elseBlock
  | .ret info values => (.statement, info.id) :: exprsRoles values
  | .case info whens elseBlock =>
    (.statement, info.id) :: armsRoles whens ++ blockRoles elseBlock
  | .switch info target whens elseBlock =>
    (.statement, info.id) :: (.value, target.id) :: target.roles ++ valueArmsRoles whens ++
      blockRoles elseBlock
  | .forIn info _ range body =>
    (.statement, info.id) :: (.value, range.id) :: range.roles ++ body.roles
  | .whileDo info condition body =>
    (.statement, info.id) :: (.value, condition.id) :: condition.roles ++ body.roles
  | .guarded info body _ condition =>
    (.statement, info.id) :: body.roles ++ (.value, condition.id) :: condition.roles
  | .letIn info inits child => (.statement, info.id) :: initsRoles inits ++ child.roles
  | .expr value => (.value, value.id) :: value.roles

/-- The roles of statements and their parts. -/
def stmtsRoles : List Stmt → List (Role × Nat)
  | [] => []
  | s :: rest => s.roles ++ stmtsRoles rest

/-- The roles of initialize statements and their values. -/
def initsRoles : List Init → List (Role × Nat)
  | [] => []
  | init :: rest => init.roles ++ initsRoles rest

/-- The roles of conditions and in the blocks they guard. -/
def armsRoles : List (Expr × Block) → List (Role × Nat)
  | [] => []
  | (condition, block) :: rest =>
    (.value, condition.id) :: condition.roles ++ block.roles ++ armsRoles rest

/-- The roles of values and in the blocks that are run for them. -/
def valueArmsRoles : List (List Expr × Block) → List (Role × Nat)
  | [] => []
  | (values, block) :: rest => exprsRoles values ++ block.roles ++ valueArmsRoles rest

end

/-- The roles in a definition. -/
def Definition.roles : Definition → List (Role × Nat)
  | .function d => d.roles
  | .constant d => exprsRoles d.values

/-! ### Roles and ids -/

/-- The nodes of some roles are, in order, among those with the given ids. -/
def Within (roles : List (Role × Nat)) (ids : List Nat) : Prop := (roles.map Prod.snd).Sublist ids

namespace Within

variable {roles roles' : List (Role × Nat)} {ids ids' : List Nat}

theorem nil : Within [] ids := List.nil_sublist ids

theorem append (h : Within roles ids) (h' : Within roles' ids') :
    Within (roles ++ roles') (ids ++ ids') := by
  rw [Within, List.map_append]
  exact List.Sublist.append h h'

theorem cons (role : Role) (node : Nat) (h : Within roles ids) :
    Within ((role, node) :: roles) (node :: ids) := by
  rw [Within, List.map_cons]
  exact List.Sublist.cons_cons node h

theorem skip (node : Nat) (h : Within roles ids) : Within roles (node :: ids) :=
  List.Sublist.cons node h

theorem behind (h : Within roles ids') (ids : List Nat) : Within roles (ids ++ ids') :=
  List.Sublist.trans h (List.sublist_append_right ids ids')

theorem before (h : Within roles ids) (ids' : List Nat) : Within roles (ids ++ ids') :=
  List.Sublist.trans h (List.sublist_append_left ids ids')

end Within

theorem Expr.ids_eq (e : Expr) : e.ids = e.id :: e.ids.tail := by
  cases e <;> simp only [ids, List.tail_cons, Expr.id, Expr.info]

/-- An expression whose parts have roles within its ids has a role as well. -/
theorem Expr.role_within {e : Expr} (role : Role) (h : Within e.roles e.ids.tail) :
    Within ((role, e.id) :: e.roles) e.ids := by
  rw [e.ids_eq]
  exact .cons role e.id h

mutual

theorem Expr.roles_within : ∀ e : Expr, Within e.roles e.ids.tail
  | .literal .. | .varRef .. => by
    rw [Expr.roles]
    exact .nil
  | .array _ elems | .tuple _ elems => by
    rw [Expr.roles, Expr.ids]
    exact exprsRoles_within elems
  | .dict _ entries => by
    rw [Expr.roles, Expr.ids]
    exact entriesRoles_within entries
  | .member _ receiver _ => by
    rw [Expr.roles, Expr.ids]
    exact receiver.role_within .value receiver.roles_within
  | .index _ receiver index => by
    rw [Expr.roles, Expr.ids]
    exact (receiver.role_within .value receiver.roles_within).append
      (index.role_within .value index.roles_within)
  | .call _ callee args => by
    rw [Expr.roles, Expr.ids]
    exact (callee.role_within .callee callee.roles_within).append (exprsRoles_within args)
  | .unary _ _ operand => by
    rw [Expr.roles, Expr.ids]
    exact operand.role_within .value operand.roles_within
  | .binary _ _ lhs rhs => by
    rw [Expr.roles, Expr.ids]
    exact (lhs.role_within .value lhs.roles_within).append
      (rhs.role_within .value rhs.roles_within)
  | .cast _ value type | .typed _ value type => by
    rw [Expr.roles, Expr.ids]
    exact (value.role_within .value value.roles_within).before type.ids
  | .ifElse _ _ condition thenValue elseValue => by
    rw [Expr.roles, Expr.ids]
    exact ((condition.role_within .value condition.roles_within).append
      (thenValue.role_within .value thenValue.roles_within)).append
        (elseValue.role_within .value elseValue.roles_within)
  | .range _ first last _ => by
    rw [Expr.roles, Expr.ids]
    exact (first.role_within .value first.roles_within).append
      (last.role_within .value last.roles_within)
  | .lambda _ d => by
    rw [Expr.roles, Expr.ids]
    exact d.roles_within

theorem exprsRoles_within : ∀ es : List Expr, Within (exprsRoles es) (exprIds es)
  | [] => by
    rw [exprsRoles]
    exact .nil
  | e :: rest => by
    rw [exprsRoles, exprIds]
    exact (e.role_within .value e.roles_within).append (exprsRoles_within rest)

theorem entriesRoles_within : ∀ es : List (Expr × Expr), Within (entriesRoles es) (entryIds es)
  | [] => by
    rw [entriesRoles]
    exact .nil
  | (key, value) :: rest => by
    rw [entriesRoles, entryIds]
    exact ((key.role_within .value key.roles_within).append
      (value.role_within .value value.roles_within)).append (entriesRoles_within rest)

theorem FuncDef.roles_within : ∀ d : FuncDef, Within d.roles d.ids
  | ⟨info, _, _, params, returnType, body, ensureBody⟩ => by
    rw [FuncDef.roles, FuncDef.ids, List.append_assoc]
    exact .skip info.id ((body.roles_within.append (blockRoles_within ensureBody)).behind
      (params.flatMap Param.ids ++ TypeExpr.idsOption returnType))

theorem Block.roles_within : ∀ b : Block, Within b.roles b.ids
  | ⟨info, stmts⟩ => by
    rw [Block.roles, Block.ids]
    exact .skip info.id (stmtsRoles_within stmts)

theorem blockRoles_within : ∀ b : Option Block, Within (blockRoles b) (blockIds b)
  | none => by
    rw [blockRoles]
    exact .nil
  | some b => by
    rw [blockRoles, blockIds]
    exact b.roles_within

theorem Init.roles_within : ∀ i : Init, Within i.roles i.ids
  | ⟨info, decls, values⟩ => by
    rw [Init.roles, Init.ids]
    exact .cons .statement info.id ((exprsRoles_within values).behind (decls.flatMap VarDecl.ids))

theorem Stmt.roles_within : ∀ s : Stmt, Within s.roles s.ids
  | .init init => by
    rw [Stmt.roles, Stmt.ids]
    exact init.roles_within
  | .assign info targets _ values => by
    rw [Stmt.roles, Stmt.ids]
    exact .cons .statement info.id ((exprsRoles_within targets).append (exprsRoles_within values))
  | .ifElse info _ condition thenBlock elseifs elseBlock => by
    rw [Stmt.roles, Stmt.ids]
    exact .cons .statement info.id ((((condition.role_within .value condition.roles_within).append
      thenBlock.roles_within).append (armsRoles_within elseifs)).append
        (blockRoles_within elseBlock))
  | .ret info values => by
    rw [Stmt.roles, Stmt.ids]
    exact .cons .statement info.id (exprsRoles_within values)
  | .case info whens elseBlock => by
    rw [Stmt.roles, Stmt.ids]
    exact .cons .statement info.id ((armsRoles_within whens).append (blockRoles_within elseBlock))
  | .switch info target whens elseBlock => by
    rw [Stmt.roles, Stmt.ids]
    exact .cons .statement info.id (((target.role_within .value target.roles_within).append
      (valueArmsRoles_within whens)).append (blockRoles_within elseBlock))
  | .forIn info vars range body => by
    rw [Stmt.roles, Stmt.ids, List.append_assoc]
    exact .cons .statement info.id (((range.role_within .value range.roles_within).append
      body.roles_within).behind (vars.flatMap Param.ids))
  | .whileDo info condition body => by
    rw [Stmt.roles, Stmt.ids]
    exact .cons .statement info.id ((condition.role_within .value condition.roles_within).append
      body.roles_within)
  | .guarded info body _ condition => by
    rw [Stmt.roles, Stmt.ids]
    exact .cons .statement info.id (body.roles_within.append
      (condition.role_within .value condition.roles_within))
  | .letIn info inits child => by
    rw [Stmt.roles, Stmt.ids]
    exact .cons .statement info.id ((initsRoles_within inits).append child.roles_within)
  | .expr value => by
    rw [Stmt.roles, Stmt.ids]
    exact value.role_within .value value.roles_within

theorem stmtsRoles_within : ∀ ss : List Stmt, Within (stmtsRoles ss) (stmtIds ss)
  | [] => by
    rw [stmtsRoles]
    exact .nil
  | s :: rest => by
    rw [stmtsRoles, stmtIds]
    exact s.roles_within.append (stmtsRoles_within rest)

theorem initsRoles_within : ∀ is : List Init, Within (initsRoles is) (initIds is)
  | [] => by
    rw [initsRoles]
    exact .nil
  | i :: rest => by
    rw [initsRoles, initIds]
    exact i.roles_within.append (initsRoles_within rest)

theorem armsRoles_within : ∀ whens : List (Expr × Block), Within (armsRoles whens) (armIds whens)
  | [] => by
    rw [armsRoles]
    exact .nil
  | (condition, block) :: rest => by
    rw [armsRoles, armIds]
    exact ((condition.role_within .value condition.roles_within).append
      block.roles_within).append (armsRoles_within rest)

theorem valueArmsRoles_within : ∀ whens : List (List Expr × Block),
    Within (valueArmsRoles whens) (valueArmIds whens)
  | [] => by
    rw [valueArmsRoles]
    exact .nil
  | (values, block) :: rest => by
    rw [valueArmsRoles, valueArmIds]
    exact ((exprsRoles_within values).append block.roles_within).append
      (valueArmsRoles_within rest)

end

theorem Definition.roles_within (d : Definition) : Within d.roles d.ids := by
  cases d with
  | function d => exact d.roles_within
  | constant d =>
    exact .skip d.info.id ((exprsRoles_within d.values).behind (d.decls.flatMap ConstDecl.ids))

/-- Nodes with a role in a definition are nodes of it. -/
theorem Definition.mem_ids_of_mem_roles {d : Definition} {role : Role} {node : Nat}
    (h : (role, node) ∈ d.roles) : node ∈ d.ids :=
  d.roles_within.subset (List.mem_map_of_mem h)

/-- Where ids differ, a node has one role. -/
theorem Definition.role_unique {d : Definition} (hd : d.ids.Nodup) {role role' : Role}
    {node : Nat} (h : (role, node) ∈ d.roles) (h' : (role', node) ∈ d.roles) : role = role' := by
  have hnodup : (d.roles.map Prod.snd).Nodup := d.roles_within.nodup hd
  exact congrArg Prod.fst (List.inj_on_of_nodup_map hnodup h h' rfl)

end Frontend
