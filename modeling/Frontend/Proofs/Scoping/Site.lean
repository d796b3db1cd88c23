import Frontend.Proofs.Scoping.Layer

/-!
# The sites of analysed code

`Definition.sites` lists every place of a definition at which analysis has something to find out:
the type of an expression, what a name stands for, the symbol of a declaration, the scope of a
block, the symbol of a lambda. A name comes with the layers around it, which are computed from the
tree alone: a layer for each function, block, loop body and `let`, and within a block only what the
statements in front declare.
-/

namespace Frontend

/-- A place at which analysis has something to find out. -/
inductive Site where
  | expr (e : Expr)
  /-- A member access in the place of the function in a call. -/
  | callee (e : Expr)
  /-- A name and the layers around it. -/
  | reference (env : Env) (info : NodeInfo) (name : String)
  | declaration (info : NodeInfo) (name : String)
  /-- A function, a block or a `let` statement. -/
  | scope (info : NodeInfo)
  | lambda (d : FuncDef)

/-- The id of the node at a site. -/
def Site.id : Site → Nat
  | .expr e | .callee e => e.id
  | .reference _ info _ | .declaration info _ | .scope info => info.id
  | .lambda d => d.info.id

/-- What a call asks of its function part. -/
def Expr.asCallee : Expr → Site
  | .member info receiver name => .callee (.member info receiver name)
  | e => .expr e

/-- The names that declarations introduce; an underscore declares nothing. -/
def introduced (names : List (String × Nat)) : List (String × Nat) := names.filter (·.1 != "_")

/-- The names that an initialize statement declares. -/
def Init.declares (i : Init) : List (String × Nat) :=
  introduced (i.decls.map fun d => (d.name, d.info.id))

/-- The names that a statement declares in the block around it. -/
def Stmt.declares : Stmt → List (String × Nat)
  | .init i => i.declares
  | .guarded _ body _ _ => body.declares
  | _ => []

/-- The names that a loop declares in its body. -/
def loopNames (vars : List Param) : List (String × Nat) :=
  introduced (vars.map fun p => (p.name, p.info.id))

/-- The sites of parameters. -/
def paramSites (params : List Param) : List Site := params.map fun p => .declaration p.info p.name

mutual

/-- The sites of an expression beside the expression itself. -/
def Expr.parts (env : Env) : Expr → List Site
  | .literal .. => []
  | .array _ elems | .tuple _ elems => exprsSites env elems
  | .dict _ entries => entriesSites env entries
  | .varRef info name _ => [.reference env info name]
  | .member _ receiver _ => .expr receiver :: receiver.parts env
  | .index _ receiver index =>
    .expr receiver :: receiver.parts env ++ .expr index :: index.parts env
  | .call _ callee args => callee.asCallee :: callee.parts env ++ exprsSites env args
  | .unary _ _ operand => .expr operand :: operand.parts env
  | .binary _ _ lhs rhs => .expr lhs :: lhs.parts env ++ .expr rhs :: rhs.parts env
  | .cast _ value _ | .typed _ value _ => .expr value :: value.parts env
  | .ifElse _ _ condition thenValue elseValue =>
    .expr condition :: condition.parts env ++ .expr thenValue :: thenValue.parts env ++
      .expr elseValue :: elseValue.parts env
  | .range _ first last _ => .expr first :: first.parts env ++ .expr last :: last.parts env
  | .lambda _ d => .lambda d :: d.sites env

/-- The sites of expressions. -/
def exprsSites (env : Env) : List Expr → List Site
  | [] => []
  | e :: rest => .expr e :: e.parts env ++ exprsSites env rest

/-- The sites of the entries of a dictionary. -/
def entriesSites (env : Env) : List (Expr × Expr) → List Site
  | [] => []
  | (key, value) :: rest =>
    .expr key :: key.parts env ++ .expr value :: value.parts env ++ entriesSites env rest

/-- The sites of a function. -/
def FuncDef.sites (env : Env) : FuncDef → List Site
  | ⟨info, _, _, params, _, body, ensureBody⟩ =>
    .scope info :: paramSites params ++
      body.sites (⟨some info.id, params.map fun p => (p.name, p.info.id)⟩ :: env) ++
      optionalSites (⟨some info.id, params.map fun p => (p.name, p.info.id)⟩ :: env) ensureBody

/-- The sites of a block. -/
def Block.sites (env : Env) : Block → List Site
  | ⟨info, stmts⟩ => .scope info :: stmtsSites (⟨some info.id, []⟩ :: env) stmts

/-- The sites of an optional block. -/
def optionalSites (env : Env) : Option Block → List Site
  | none => []
  | some b => b.sites env

/-- The sites of an initialize statement; its values do not see what it declares. -/
def Init.sites (env : Env) : Init → List Site
  | ⟨_, decls, values⟩ =>
    exprsSites env values ++ decls.map fun d => .declaration d.info d.name

/-- The sites of a statement. -/
def Stmt.sites (env : Env) : Stmt → List Site
  | .init init => init.sites env
  | .assign _ targets _ values => exprsSites env targets ++ exprsSites env values
  | .ifElse _ _ condition thenBlock elseifs elseBlock =>
    .expr condition :: condition.parts env ++ thenBlock.sites env ++ armsSites env elseifs ++
      optionalSites env elseBlock
  | .ret _ values => exprsSites env values
  | .case _ whens elseBlock => armsSites env whens ++ optionalSites env elseBlock
  | .switch _ target whens elseBlock =>
    .expr target :: target.parts env ++ valueArmsSites env whens ++ optionalSites env elseBlock
  | .forIn _ vars range ⟨info, stmts⟩ =>
    .expr range :: range.parts env ++ .scope info :: paramSites vars ++
      stmtsSites (⟨some info.id, loopNames vars⟩ :: env) stmts
  | .whileDo _ condition body => .expr condition :: condition.parts env ++ body.sites env
  | .guarded _ body _ condition =>
    body.sites env ++ .expr condition :: condition.parts (env.declare body.declares)
  | .letIn info inits child =>
    .scope info :: initsSites (⟨some info.id, []⟩ :: env) inits ++
      child.sites (⟨some info.id, inits.flatMap Init.declares⟩ :: env)
  | .expr value => .expr value :: value.parts env

/-- The sites of statements, each of which sees what those in front declare. -/
def stmtsSites (env : Env) : List Stmt → List Site
  | [] => []
  | s :: rest => s.sites env ++ stmtsSites (env.declare s.declares) rest

/-- The sites of the bindings of a `let`, each of which sees those in front. -/
def initsSites (env : Env) : List Init → List Site
  | [] => []
  | init :: rest => init.sites env ++ initsSites (env.declare init.declares) rest

/-- The sites of conditions and the blocks they guard. -/
def armsSites (env : Env) : List (Expr × Block) → List Site
  | [] => []
  | (condition, block) :: rest =>
    .expr condition :: condition.parts env ++ block.sites env ++ armsSites env rest

/-- The sites of values and the blocks that are run for them. -/
def valueArmsSites (env : Env) : List (List Expr × Block) → List Site
  | [] => []
  | (values, block) :: rest =>
    exprsSites env values ++ block.sites env ++ valueArmsSites env rest

end

/-- An expression and its parts. -/
def Expr.sites (env : Env) (e : Expr) : List Site := .expr e :: e.parts env

theorem Expr.parts_varRef (env : Env) (info : NodeInfo) (name : String) (assigned : Bool) :
    (Expr.varRef info name assigned).parts env = [.reference env info name] := by
  rw [parts]

theorem Stmt.sites_init (env : Env) (i : Init) : (Stmt.init i).sites env = i.sites env := by
  rw [sites]

/-- The sites of the bodies of a function, with the layer of its parameters at hand. -/
def FuncDef.bodySites (env : Env) (d : FuncDef) : List Site :=
  d.body.sites env ++ optionalSites env d.ensureBody

theorem FuncDef.sites_eq (env : Env) (d : FuncDef) :
    d.sites env = (.scope d.info :: paramSites d.params) ++ d.bodySites (d.layer :: env) := by
  obtain ⟨info, kind, name, params, returnType, body, ensureBody⟩ := d
  simp only [sites, bodySites, layer, List.append_assoc]

/-- The sites of a definition of a program. -/
def Definition.sites (p : Program) : Definition → List Site
  | .function d => d.sites [p.layer]
  | .constant d =>
    (d.decls.map fun c => .declaration c.info c.name) ++ exprsSites [p.layer] d.values

theorem Env.declare_nil (env : Env) : env.declare [] = env := by
  cases env with
  | nil => rfl
  | cons l outer => simp only [declare, List.append_nil]

theorem Env.declare_append (names names' : List (String × Nat)) (env : Env) :
    env.declare (names ++ names') = (env.declare names).declare names' := by
  cases env with
  | nil => rfl
  | cons l outer => simp only [declare, List.append_assoc]

end Frontend
