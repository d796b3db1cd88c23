import Frontend.Proofs.Tree.Shape
import Frontend.Proofs.Typing.Rule

/-!
# Targets of assignments

`Definition.targets` lists what the assignments in a definition assign to, wherever they stand: in
nested blocks, in lambdas, in lambdas in lambdas. `AnalysisState.Assignable` says that a target may
be assigned to: nothing but indexed values, members and variables that are declared as assignable,
and an underscore that stands for nothing.
-/

namespace Frontend

mutual

/-- The targets of the assignments in an expression, all of which stand in lambdas. -/
def Expr.targets : Expr → List Expr
  | .literal .. | .varRef .. => []
  | .array _ elems | .tuple _ elems => exprsTargets elems
  | .dict _ entries => entriesTargets entries
  | .member _ receiver _ => receiver.targets
  | .index _ receiver index => receiver.targets ++ index.targets
  | .call _ callee args => callee.targets ++ exprsTargets args
  | .unary _ _ operand => operand.targets
  | .binary _ _ lhs rhs => lhs.targets ++ rhs.targets
  | .cast _ value _ | .typed _ value _ => value.targets
  | .ifElse _ _ condition thenValue elseValue =>
    condition.targets ++ thenValue.targets ++ elseValue.targets
  | .range _ first last _ => first.targets ++ last.targets
  | .lambda _ d => d.targets

/-- The targets of the assignments in expressions. -/
def exprsTargets : List Expr → List Expr
  | [] => []
  | e :: rest => e.targets ++ exprsTargets rest

/-- The targets of the assignments in the entries of a dictionary. -/
def entriesTargets : List (Expr × Expr) → List Expr
  | [] => []
  | (key, value) :: rest => key.targets ++ value.targets ++ entriesTargets rest

/-- The targets of the assignments in a function. -/
def FuncDef.targets : FuncDef → List Expr
  | ⟨_, _, _, _, _, body, ensureBody⟩ => body.targets ++ optionalTargets ensureBody

/-- The targets of the assignments in a block. -/
def Block.targets : Block → List Expr
  | ⟨_, stmts⟩ => stmtsTargets stmts

/-- The targets of the assignments in an optional block. -/
def optionalTargets : Option Block → List Expr
  | none => []
  | some b => b.targets

/-- The targets of the assignments in an initialize statement. -/
def Init.targets : Init → List Expr
  | ⟨_, _, values⟩ => exprsTargets values

/-- The targets of the assignments in a statement; an assignment may have others inside of its
targets and values. -/
def Stmt.targets : Stmt → List Expr
  | .init init => init.targets
  | .assign _ targets _ values => targets ++ exprsTargets targets ++ exprsTargets values
  | .ifElse _ _ condition thenBlock elseifs elseBlock =>
    condition.targets ++ thenBlock.targets ++ armsTargets elseifs ++ optionalTargets elseBlock
  | .ret _ values => exprsTargets values
  | .case _ whens elseBlock => armsTargets whens ++ optionalTargets elseBlock
  | .switch _ target whens elseBlock =>
    target.targets ++ valueArmsTargets whens ++ optionalTargets elseBlock
  | .forIn _ _ range ⟨_, stmts⟩ => range.targets ++ stmtsTargets stmts
  | .whileDo _ condition body => condition.targets ++ body.targets
  | .guarded _ body _ condition => body.targets ++ condition.targets
  | .letIn _ inits child => initsTargets inits ++ child.targets
  | .expr value => value.targets

/-- The targets of the assignments in statements. -/
def stmtsTargets : List Stmt → List Expr
  | [] => []
  | s :: rest => s.targets ++ stmtsTargets rest

/-- The targets of the assignments in the bindings of a `let`. -/
def initsTargets : List Init → List Expr
  | [] => []
  | init :: rest => init.targets ++ initsTargets rest

/-- The targets of the assignments in conditions and the blocks they guard. -/
def armsTargets : List (Expr × Block) → List Expr
  | [] => []
  | (condition, block) :: rest => condition.targets ++ block.targets ++ armsTargets rest

/-- The targets of the assignments in values and the blocks that are run for them. -/
def valueArmsTargets : List (List Expr × Block) → List Expr
  | [] => []
  | (values, block) :: rest => exprsTargets values ++ block.targets ++ valueArmsTargets rest

end

/-- The targets of the assignments in a definition. -/
def Definition.targets : Definition → List Expr
  | .function d => d.targets
  | .constant d => exprsTargets d.values

theorem Expr.targets_varRef (info : NodeInfo) (name : String) (assigned : Bool) :
    (Expr.varRef info name assigned).targets = [] := by
  rw [targets]

theorem FuncDef.targets_eq (d : FuncDef) :
    d.targets = d.body.targets ++ optionalTargets d.ensureBody := by
  obtain ⟨info, kind, name, params, returnType, body, ensureBody⟩ := d
  rw [targets]

theorem Stmt.targets_init (i : Init) : (Stmt.init i).targets = i.targets := by
  rw [targets]

/-- Constants are never assignable. -/
def Store.Fixed (s : Store) : Prop :=
  ∀ (i : Nat) (v : VarSymbol), s.constants[i]? = some v → v.isVar = false

/-- What may be assigned to. -/
inductive AnalysisState.Assignable (s : AnalysisState) : Expr → Prop
  | index (info : NodeInfo) (receiver index : Expr) : Assignable s (.index info receiver index)
  | member (info : NodeInfo) (receiver : Expr) (name : String) :
    Assignable s (.member info receiver name)
  /-- A variable of a block, a loop or a `let` statement, or a parameter, that is declared with
  `var`. -/
  | ofVariable {info : NodeInfo} {name : String} {assigned : Bool} {handle : VarHandle}
    {v : VarSymbol} (hl : s.links[info.id]? = some (.var handle))
    (hlocal : ∀ i, handle ≠ .constant i) (hv : s.store.var? handle = some v)
    (hvar : v.isVar = true) : Assignable s (.varRef info name assigned)
  /-- An underscore that stands for nothing. -/
  | ignored {info : NodeInfo} {assigned : Bool} (hl : s.links[info.id]? = none) :
    Assignable s (.varRef info "_" assigned)

/-- Every target of an assignment in a definition may be assigned to. -/
def Assigned (s : AnalysisState) (d : Definition) : Prop :=
  ∀ e ∈ d.targets, e.id ∈ d.ids ∧ s.Assignable e

variable {s t : AnalysisState}

/-- A target whose own link has stayed the same may still be assigned to. -/
theorem AnalysisState.Assignable.grows {e : Expr} (h : s.Assignable e) (hg : s.Grows t)
    (hlinks : t.links[e.id]? = s.links[e.id]?) : t.Assignable e := by
  cases h with
  | index info receiver index => exact .index info receiver index
  | member info receiver name => exact .member info receiver name
  | ofVariable hl hlocal hv hvar =>
    obtain ⟨w, hw, hvw⟩ := hg.store.var? hv
    have hwvar : w.isVar = true := by rw [hvw.eq]; exact hvar
    exact .ofVariable (hg.link hl) hlocal hw hwvar
  | ignored hl => exact .ignored (hlinks.trans hl)

/-- Constants stay as they are as long as there are no more of them. -/
theorem Store.Fixed.grows {s t : Store} (h : s.Fixed) (hg : s.Grows t)
    (hsize : t.constants.size = s.constants.size) : t.Fixed := by
  intro i w hw
  have hi : i < s.constants.size := hsize ▸ (Array.getElem?_eq_some_iff.mp hw).1
  obtain ⟨w', hw', hvw⟩ := hg.constant (Array.getElem?_eq_getElem hi)
  cases hw.symm.trans hw'
  have hvar : w.isVar = s.constants[i].isVar := by rw [hvw.eq]
  exact hvar.trans (h i _ (Array.getElem?_eq_getElem hi))

/-- A name that is linked to a variable may be assigned to if the variable is assignable. -/
theorem Store.Fixed.assignable (h : s.store.Fixed) {info : NodeInfo} {name : String}
    {assigned : Bool} {handle : VarHandle} {v : VarSymbol}
    (hl : s.links[info.id]? = some (.var handle)) (hv : s.store.var? handle = some v)
    (hvar : v.isVar = true) : s.Assignable (.varRef info name assigned) := by
  refine .ofVariable hl (fun i hi => ?_) hv hvar
  subst hi
  rw [h i v hv] at hvar
  cases hvar

end Frontend
