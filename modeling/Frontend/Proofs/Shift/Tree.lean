import Std.Data.String.ToNat
import Frontend.Builtin
import Frontend.Tree.Basic

/-!
# Trees with later ids

`shiftId d` moves an id on by `d`, except for the ids of the placeholders of builtin functions. A
shifted tree has the same nodes under later ids. The name of a lambda has an id in it, which is
shifted as well, and so is the id of a placeholder inside a type.
-/

namespace Frontend

variable (d : Nat)

/-- An id when the counter of ids has been moved on by `d`. -/
def shiftId (id : Nat) : Nat := if Builtin.firstNodeId ≤ id then id + d else id

variable {d} in
theorem shiftId_injective : Function.Injective (shiftId d) := by
  intro a b h
  unfold shiftId at h
  split at h <;> split at h <;> omega

theorem shiftId_of_le {id : Nat} (h : Builtin.firstNodeId ≤ id) : shiftId d id = id + d := if_pos h

theorem shiftId_of_lt {id : Nat} (h : id < Builtin.firstNodeId) : shiftId d id = id :=
  if_neg (Nat.not_le.mpr h)

/-- The same location under the shifted id. -/
def NodeInfo.shift (info : NodeInfo) : NodeInfo := { info with id := shiftId d info.id }

/-! ### Types -/

mutual

/-- A type with its placeholders shifted. -/
@[simp] def Ty.shift : Ty → Ty
  | .builtin type => .builtin type
  | .template id => .template (shiftId d id)
  | .array elem => .array elem.shift
  | .tuple elems => .tuple (shiftTypes elems)
  | .dict key value => .dict key.shift value.shift
  | .func params none => .func (shiftTypes params) none
  | .func params (some ret) => .func (shiftTypes params) (some ret.shift)
  | .named name args => .named name (shiftTypes args)
  | .qualified qualifier inner => .qualified qualifier inner.shift

/-- Types with their placeholders shifted. -/
@[simp] def shiftTypes : List Ty → List Ty
  | [] => []
  | t :: rest => t.shift :: shiftTypes rest

end

mutual

/-- A type annotation with its ids shifted. -/
def TypeExpr.shift : TypeExpr → TypeExpr
  | .primary info name args => .primary (info.shift d) name (shiftAnnotations args)
  | .array info elem => .array (info.shift d) elem.shift
  | .dict info key value => .dict (info.shift d) key.shift value.shift
  | .tuple info elems => .tuple (info.shift d) (shiftAnnotations elems)
  | .func info kind params none => .func (info.shift d) kind (shiftAnnotations params) none
  | .func info kind params (some ret) =>
    .func (info.shift d) kind (shiftAnnotations params) (some ret.shift)
  | .qualified info qualifier inner => .qualified (info.shift d) qualifier inner.shift

/-- Type annotations with their ids shifted. -/
def shiftAnnotations : List TypeExpr → List TypeExpr
  | [] => []
  | t :: rest => t.shift :: shiftAnnotations rest

end

@[simp] theorem shiftTypes_eq (ts : List Ty) : shiftTypes d ts = ts.map (Ty.shift d) := by
  induction ts with
  | nil => rw [shiftTypes, List.map_nil]
  | cons t rest ih => rw [shiftTypes, ih, List.map_cons]

@[simp] theorem Ty.shift_func (params : List Ty) (ret : Option Ty) :
    (Ty.func params ret).shift d = .func (params.map (Ty.shift d)) (ret.map (Ty.shift d)) := by
  cases ret <;> simp

@[simp] theorem shiftAnnotations_eq (ts : List TypeExpr) :
    shiftAnnotations d ts = ts.map (TypeExpr.shift d) := by
  induction ts with
  | nil => rw [shiftAnnotations, List.map_nil]
  | cons t rest ih => rw [shiftAnnotations, ih, List.map_cons]

/-! ### Names of lambdas -/

/-- The id in the name of a lambda. -/
def lambdaId? (name : String) : Option Nat := (String.ofList (name.toList.drop 7)).toNat?

/-- The name of a function with the id in the name of a lambda shifted. -/
def shiftName (kind : FuncKind) (name : String) : String :=
  match kind, lambdaId? name with
  | .lambda, some id => "lambda." ++ (shiftId d id).repr
  | _, _ => name

theorem lambdaId?_eq (id : Nat) : lambdaId? ("lambda." ++ id.repr) = some id := by
  have hdrop : ("lambda." ++ id.repr).toList.drop 7 = id.repr.toList := by
    rw [String.toList_append]
    exact List.drop_left' rfl
  rw [lambdaId?, hdrop, String.ofList_toList, Nat.toNat?_repr]

theorem shiftName_lambda (id : Nat) :
    shiftName d .lambda ("lambda." ++ id.repr) = "lambda." ++ (shiftId d id).repr := by
  simp only [shiftName, lambdaId?_eq]

theorem shiftName_of_ne {kind : FuncKind} (h : kind ≠ .lambda) (name : String) :
    shiftName d kind name = name := by
  cases kind with
  | lambda => exact absurd rfl h
  | func => rfl
  | proc => rfl

/-! ### Trees -/

/-- A parameter with its ids shifted. -/
def Param.shift (p : Param) : Param :=
  { p with info := p.info.shift d, type := p.type.map (TypeExpr.shift d) }

/-- A declared name with its ids shifted. -/
def VarDecl.shift (v : VarDecl) : VarDecl :=
  { v with info := v.info.shift d, type := v.type.map (TypeExpr.shift d) }

/-- A declared constant with its ids shifted. -/
def ConstDecl.shift (c : ConstDecl) : ConstDecl :=
  { c with info := c.info.shift d, type := c.type.map (TypeExpr.shift d) }

mutual

/-- An expression with its ids shifted. -/
def Expr.shift : Expr → Expr
  | .literal info value => .literal (info.shift d) value
  | .array info elems => .array (info.shift d) (shiftExprs elems)
  | .tuple info elems => .tuple (info.shift d) (shiftExprs elems)
  | .dict info entries => .dict (info.shift d) (shiftEntries entries)
  | .varRef info name assigned => .varRef (info.shift d) name assigned
  | .member info receiver name => .member (info.shift d) receiver.shift name
  | .index info receiver index => .index (info.shift d) receiver.shift index.shift
  | .call info callee args => .call (info.shift d) callee.shift (shiftExprs args)
  | .unary info op operand => .unary (info.shift d) op operand.shift
  | .binary info op lhs rhs => .binary (info.shift d) op lhs.shift rhs.shift
  | .cast info value type => .cast (info.shift d) value.shift (type.shift d)
  | .typed info value type => .typed (info.shift d) value.shift (type.shift d)
  | .ifElse info kind condition thenValue elseValue =>
    .ifElse (info.shift d) kind condition.shift thenValue.shift elseValue.shift
  | .range info first last inclusive => .range (info.shift d) first.shift last.shift inclusive
  | .lambda info definition => .lambda (info.shift d) definition.shift

/-- Expressions with their ids shifted. -/
def shiftExprs : List Expr → List Expr
  | [] => []
  | e :: rest => e.shift :: shiftExprs rest

/-- The entries of a dictionary with their ids shifted. -/
def shiftEntries : List (Expr × Expr) → List (Expr × Expr)
  | [] => []
  | (key, value) :: rest => (key.shift, value.shift) :: shiftEntries rest

/-- A function with its ids shifted. -/
def FuncDef.shift : FuncDef → FuncDef
  | ⟨info, kind, name, params, returnType, body, ensureBody⟩ =>
    ⟨info.shift d, kind, shiftName d kind name, params.map (Param.shift d),
      returnType.map (TypeExpr.shift d), body.shift, shiftBlock ensureBody⟩

/-- A block with its ids shifted. -/
def Block.shift : Block → Block
  | ⟨info, stmts⟩ => ⟨info.shift d, shiftStmts stmts⟩

/-- An optional block with its ids shifted. -/
def shiftBlock : Option Block → Option Block
  | none => none
  | some b => some b.shift

/-- An initialize statement with its ids shifted. -/
def Init.shift : Init → Init
  | ⟨info, decls, values⟩ => ⟨info.shift d, decls.map (VarDecl.shift d), shiftExprs values⟩

/-- A statement with its ids shifted. -/
def Stmt.shift : Stmt → Stmt
  | .init init => .init init.shift
  | .assign info targets op values =>
    .assign (info.shift d) (shiftExprs targets) op (shiftExprs values)
  | .ifElse info kind condition thenBlock elseifs elseBlock =>
    .ifElse (info.shift d) kind condition.shift thenBlock.shift (shiftArms elseifs)
      (shiftBlock elseBlock)
  | .ret info values => .ret (info.shift d) (shiftExprs values)
  | .case info whens elseBlock => .case (info.shift d) (shiftArms whens) (shiftBlock elseBlock)
  | .switch info target whens elseBlock =>
    .switch (info.shift d) target.shift (shiftValueArms whens) (shiftBlock elseBlock)
  | .forIn info vars range body =>
    .forIn (info.shift d) (vars.map (Param.shift d)) range.shift body.shift
  | .whileDo info condition body => .whileDo (info.shift d) condition.shift body.shift
  | .guarded info body kind condition => .guarded (info.shift d) body.shift kind condition.shift
  | .letIn info inits child => .letIn (info.shift d) (shiftInits inits) child.shift
  | .expr value => .expr value.shift

/-- Statements with their ids shifted. -/
def shiftStmts : List Stmt → List Stmt
  | [] => []
  | s :: rest => s.shift :: shiftStmts rest

/-- Initialize statements with their ids shifted. -/
def shiftInits : List Init → List Init
  | [] => []
  | init :: rest => init.shift :: shiftInits rest

/-- Conditions and the blocks they guard, with their ids shifted. -/
def shiftArms : List (Expr × Block) → List (Expr × Block)
  | [] => []
  | (condition, block) :: rest => (condition.shift, block.shift) :: shiftArms rest

/-- Values and the blocks that are run for them, with their ids shifted. -/
def shiftValueArms : List (List Expr × Block) → List (List Expr × Block)
  | [] => []
  | (values, block) :: rest => (shiftExprs values, block.shift) :: shiftValueArms rest

end

/-- A constant definition with its ids shifted. -/
def ConstDef.shift (c : ConstDef) : ConstDef :=
  ⟨c.info.shift d, c.decls.map (ConstDecl.shift d), c.values.map (Expr.shift d)⟩

/-- A definition with its ids shifted. -/
def Definition.shift : Definition → Definition
  | .function f => .function (f.shift d)
  | .constant c => .constant (c.shift d)

/-- A program with its ids shifted. -/
def Program.shift (p : Program) : Program :=
  ⟨p.info.shift d, p.definitions.map (Definition.shift d)⟩

/-! ### Lists of parts -/

/-- An entry of a dictionary with its ids shifted. -/
abbrev shiftEntry (e : Expr × Expr) : Expr × Expr := (e.1.shift d, e.2.shift d)

/-- A condition and the block it guards, with their ids shifted. -/
abbrev shiftArm (a : Expr × Block) : Expr × Block := (a.1.shift d, a.2.shift d)

/-- Values and the block that is run for them, with their ids shifted. -/
abbrev shiftValueArm (a : List Expr × Block) : List Expr × Block :=
  (a.1.map (Expr.shift d), a.2.shift d)

@[simp] theorem shiftExprs_eq (es : List Expr) : shiftExprs d es = es.map (Expr.shift d) := by
  induction es with
  | nil => rw [shiftExprs, List.map_nil]
  | cons e rest ih => rw [shiftExprs, ih, List.map_cons]

@[simp] theorem shiftEntries_eq (es : List (Expr × Expr)) :
    shiftEntries d es = es.map (shiftEntry d) := by
  induction es with
  | nil => rw [shiftEntries, List.map_nil]
  | cons e rest ih => rw [shiftEntries, ih, List.map_cons]

@[simp] theorem shiftBlock_eq (b : Option Block) : shiftBlock d b = b.map (Block.shift d) := by
  cases b <;> rw [shiftBlock] <;> rfl

@[simp] theorem shiftStmts_eq (ss : List Stmt) : shiftStmts d ss = ss.map (Stmt.shift d) := by
  induction ss with
  | nil => rw [shiftStmts, List.map_nil]
  | cons s rest ih => rw [shiftStmts, ih, List.map_cons]

@[simp] theorem shiftInits_eq (is : List Init) : shiftInits d is = is.map (Init.shift d) := by
  induction is with
  | nil => rw [shiftInits, List.map_nil]
  | cons i rest ih => rw [shiftInits, ih, List.map_cons]

@[simp] theorem shiftArms_eq (whens : List (Expr × Block)) :
    shiftArms d whens = whens.map (shiftArm d) := by
  induction whens with
  | nil => rw [shiftArms, List.map_nil]
  | cons a rest ih => rw [shiftArms, ih, List.map_cons]

@[simp] theorem shiftValueArms_eq (whens : List (List Expr × Block)) :
    shiftValueArms d whens = whens.map (shiftValueArm d) := by
  induction whens with
  | nil => rw [shiftValueArms, List.map_nil]
  | cons a rest ih => rw [shiftValueArms, ih, shiftExprs_eq, List.map_cons]

/-! ### What a shift leaves as it is -/

@[simp] theorem TypeExpr.info_shift (t : TypeExpr) : (t.shift d).info = t.info.shift d := by
  rcases t with _ | _ | _ | _ | ⟨_, _, _, _ | _⟩ | _ <;> rfl

@[simp] theorem TypeExpr.position_shift (t : TypeExpr) : (t.shift d).position = t.position := by
  rw [position, info_shift]
  rfl

@[simp] theorem Expr.info_shift (e : Expr) : (e.shift d).info = e.info.shift d := by cases e <;> rfl

@[simp] theorem Expr.id_shift (e : Expr) : (e.shift d).id = shiftId d e.id := by
  rw [id, info_shift]
  rfl

@[simp] theorem Expr.position_shift (e : Expr) : (e.shift d).position = e.position := by
  rw [position, info_shift]
  rfl

theorem Expr.asTarget_shift (e : Expr) : (e.shift d).asTarget = e.asTarget.shift d := by
  cases e <;> rfl

@[simp] theorem Stmt.info_shift (s : Stmt) : (s.shift d).info = s.info.shift d := by
  cases s with
  | init i => cases i; rfl
  | expr value => exact value.info_shift d
  | _ => rfl

@[simp] theorem FuncDef.info_shift (f : FuncDef) : (f.shift d).info = f.info.shift d := by
  cases f
  rfl

@[simp] theorem FuncDef.kind_shift (f : FuncDef) : (f.shift d).kind = f.kind := by
  cases f
  rfl

@[simp] theorem FuncDef.name_shift (f : FuncDef) :
    (f.shift d).name = shiftName d f.kind f.name := by
  cases f
  rfl

@[simp] theorem FuncDef.params_shift (f : FuncDef) :
    (f.shift d).params = f.params.map (Param.shift d) := by
  cases f
  rfl

@[simp] theorem FuncDef.returnType_shift (f : FuncDef) :
    (f.shift d).returnType = f.returnType.map (TypeExpr.shift d) := by
  cases f
  rfl

theorem FuncDef.isTemplate_shift (f : FuncDef) : (f.shift d).isTemplate = f.isTemplate := by
  rw [isTemplate, params_shift, List.any_map]
  simp [isTemplate, Param.shift, Function.comp_def]

/-! ### The definitions of a program -/

theorem Program.functions_shift (p : Program) :
    (p.shift d).functions = p.functions.map (FuncDef.shift d) := by
  unfold functions shift
  rw [List.filterMap_map, List.map_filterMap]
  congr 1
  funext definition
  cases definition <;> rfl

theorem Program.constants_shift (p : Program) :
    (p.shift d).constants = p.constants.map (ConstDef.shift d) := by
  unfold constants shift
  rw [List.filterMap_map, List.map_filterMap]
  congr 1
  funext definition
  cases definition <;> rfl

/-! ### Causes -/

/-- Causes that describe no function and no type, so that there is no id in their texts. -/
def Cause.isPlain : Cause → Bool
  | .functionAlreadyDeclared _ | .noMatchingOverload _ _ | .typeMatch _ _ => false
  | _ => true

/-- Failures whose reports describe no function and no type. -/
def Failure.isPlain : Failure → Bool
  | .error e => e.cause.isPlain
  | .fault _ => true

end Frontend
