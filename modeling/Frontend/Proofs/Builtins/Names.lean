import Frontend.Builtin
import Frontend.Proofs.Tree.Copied
import Frontend.Proofs.Tree.Induction

/-!
# Names that code mentions

`Definition.names` lists the names of functions, references and members in a definition, wherever
they stand. Code is discreet if no builtin function has one of its names. The copy of a template
mentions what the template mentions.
-/

namespace Frontend

mutual

/-- The names of the references and members in an expression. -/
def Expr.names : Expr → List String
  | .literal .. => []
  | .array _ elems | .tuple _ elems => exprsNames elems
  | .dict _ entries => entriesNames entries
  | .varRef _ name _ => [name]
  | .member _ receiver name => name :: receiver.names
  | .index _ receiver index => receiver.names ++ index.names
  | .call _ callee args => callee.names ++ exprsNames args
  | .unary _ _ operand => operand.names
  | .binary _ _ lhs rhs => lhs.names ++ rhs.names
  | .cast _ value _ | .typed _ value _ => value.names
  | .ifElse _ _ condition thenValue elseValue =>
    condition.names ++ thenValue.names ++ elseValue.names
  | .range _ first last _ => first.names ++ last.names
  | .lambda _ d => d.names

/-- The names of the references and members in expressions. -/
def exprsNames : List Expr → List String
  | [] => []
  | e :: rest => e.names ++ exprsNames rest

/-- The names of the references and members in the entries of a dictionary. -/
def entriesNames : List (Expr × Expr) → List String
  | [] => []
  | (key, value) :: rest => key.names ++ value.names ++ entriesNames rest

/-- The names of the references and members in the bodies of a function. -/
def FuncDef.names : FuncDef → List String
  | ⟨_, _, _, _, _, body, ensureBody⟩ => body.names ++ optionalNames ensureBody

/-- The names of the references and members in a block. -/
def Block.names : Block → List String
  | ⟨_, stmts⟩ => stmtsNames stmts

/-- The names of the references and members in an optional block. -/
def optionalNames : Option Block → List String
  | none => []
  | some b => b.names

/-- The names of the references and members in an initialize statement. -/
def Init.names : Init → List String
  | ⟨_, _, values⟩ => exprsNames values

/-- The names of the references and members in a statement. -/
def Stmt.names : Stmt → List String
  | .init init => init.names
  | .assign _ targets _ values => exprsNames targets ++ exprsNames values
  | .ifElse _ _ condition thenBlock elseifs elseBlock =>
    condition.names ++ thenBlock.names ++ armsNames elseifs ++ optionalNames elseBlock
  | .ret _ values => exprsNames values
  | .case _ whens elseBlock => armsNames whens ++ optionalNames elseBlock
  | .switch _ target whens elseBlock =>
    target.names ++ valueArmsNames whens ++ optionalNames elseBlock
  | .forIn _ _ range body => range.names ++ body.names
  | .whileDo _ condition body => condition.names ++ body.names
  | .guarded _ body _ condition => body.names ++ condition.names
  | .letIn _ inits child => initsNames inits ++ child.names
  | .expr value => value.names

/-- The names of the references and members in statements. -/
def stmtsNames : List Stmt → List String
  | [] => []
  | s :: rest => s.names ++ stmtsNames rest

/-- The names of the references and members in the bindings of a `let`. -/
def initsNames : List Init → List String
  | [] => []
  | init :: rest => init.names ++ initsNames rest

/-- The names of the references and members in conditions and the blocks they guard. -/
def armsNames : List (Expr × Block) → List String
  | [] => []
  | (condition, block) :: rest => condition.names ++ block.names ++ armsNames rest

/-- The names of the references and members in values and the blocks that are run for them. -/
def valueArmsNames : List (List Expr × Block) → List String
  | [] => []
  | (values, block) :: rest => exprsNames values ++ block.names ++ valueArmsNames rest

end

/-- The names of the functions, references and members in a definition. A lambda has no name of its
own. -/
def Definition.names : Definition → List String
  | .function d => d.name :: d.names
  | .constant d => exprsNames d.values

/-- The names of the functions, references and members in a program. -/
def Program.names (p : Program) : List String := p.definitions.flatMap Definition.names

/-! ### Lists of parts -/

theorem exprsNames_eq (es : List Expr) : exprsNames es = es.flatMap Expr.names := by
  induction es with
  | nil => rw [exprsNames, List.flatMap_nil]
  | cons e rest ih => rw [exprsNames, ih, List.flatMap_cons]

theorem entriesNames_eq (entries : List (Expr × Expr)) :
    entriesNames entries = entries.flatMap fun e => e.1.names ++ e.2.names := by
  induction entries with
  | nil => rw [entriesNames, List.flatMap_nil]
  | cons e rest ih => rw [entriesNames, ih, List.flatMap_cons]

theorem stmtsNames_eq (ss : List Stmt) : stmtsNames ss = ss.flatMap Stmt.names := by
  induction ss with
  | nil => rw [stmtsNames, List.flatMap_nil]
  | cons s rest ih => rw [stmtsNames, ih, List.flatMap_cons]

theorem initsNames_eq (inits : List Init) : initsNames inits = inits.flatMap Init.names := by
  induction inits with
  | nil => rw [initsNames, List.flatMap_nil]
  | cons i rest ih => rw [initsNames, ih, List.flatMap_cons]

theorem armsNames_eq (whens : List (Expr × Block)) :
    armsNames whens = whens.flatMap fun a => a.1.names ++ a.2.names := by
  induction whens with
  | nil => rw [armsNames, List.flatMap_nil]
  | cons a rest ih => rw [armsNames, ih, List.flatMap_cons]

theorem valueArmsNames_eq (whens : List (List Expr × Block)) :
    valueArmsNames whens = whens.flatMap fun a => a.1.flatMap Expr.names ++ a.2.names := by
  induction whens with
  | nil => rw [valueArmsNames, List.flatMap_nil]
  | cons a rest ih => rw [valueArmsNames, ih, List.flatMap_cons, exprsNames_eq]

/-! ### Names of builtin functions -/

/-- The names of the builtin functions. -/
def Builtin.names : List String := Builtin.all.map FuncSymbol.name

/-- Names none of which is that of a builtin function. -/
def Discreet (names : List String) : Prop := ∀ name ∈ names, name ∉ Builtin.names

instance (names : List String) : Decidable (Discreet names) :=
  inferInstanceAs (Decidable (∀ name ∈ names, name ∉ Builtin.names))

theorem discreet_cons {name : String} {rest : List String} :
    Discreet (name :: rest) ↔ name ∉ Builtin.names ∧ Discreet rest := List.forall_mem_cons

theorem discreet_append {names rest : List String} :
    Discreet (names ++ rest) ↔ Discreet names ∧ Discreet rest := List.forall_mem_append

theorem discreet_flatMap {α : Type} {as : List α} {f : α → List String} :
    Discreet (as.flatMap f) ↔ ∀ a ∈ as, Discreet (f a) := by
  constructor
  · exact fun h a ha name hname => h name (List.mem_flatMap.mpr ⟨a, ha, hname⟩)
  · intro h name hname
    obtain ⟨a, ha, hin⟩ := List.mem_flatMap.mp hname
    exact h a ha name hin

theorem discreet_optional {b : Option Block} (h : Discreet (optionalNames b)) :
    ∀ c ∈ b, Discreet c.names := by
  rintro c ⟨⟩
  rw [optionalNames] at h
  exact h

/-! ### Copies -/

theorem NodeInfo.renew_builds (info : NodeInfo) : Builds info.renew fun _ => True :=
  fun _ => .renew trivial

theorem builds_any {α : Type} (act : StateM Nat α) : Builds act fun _ => True := fun _ => trivial

mutual

theorem Expr.names_copy : ∀ e : Expr, Builds e.copy fun e' => e'.names = e.names
  | .literal info value => by
    rw [Expr.copy]
    refine .bind info.renew_builds fun info' _ => .pure ?_
    simp only [Expr.names]
  | .array info elems => by
    rw [Expr.copy]
    refine .bind (exprsNames_copy elems) fun elems' helems => ?_
    refine .bind info.renew_builds fun info' _ => .pure ?_
    simp only [Expr.names, helems]
  | .tuple info elems => by
    rw [Expr.copy]
    refine .bind (exprsNames_copy elems) fun elems' helems => ?_
    refine .bind info.renew_builds fun info' _ => .pure ?_
    simp only [Expr.names, helems]
  | .dict info entries => by
    rw [Expr.copy]
    refine .bind (entriesNames_copy entries) fun entries' hentries => ?_
    refine .bind info.renew_builds fun info' _ => .pure ?_
    simp only [Expr.names, hentries]
  | .varRef info name assigned => by
    rw [Expr.copy]
    refine .bind info.renew_builds fun info' _ => .pure ?_
    simp only [Expr.names]
  | .member info receiver name => by
    rw [Expr.copy]
    refine .bind receiver.names_copy fun receiver' hreceiver => ?_
    refine .bind info.renew_builds fun info' _ => .pure ?_
    simp only [Expr.names, hreceiver]
  | .index info receiver index => by
    rw [Expr.copy]
    refine .bind receiver.names_copy fun receiver' hreceiver => ?_
    refine .bind index.names_copy fun index' hindex => ?_
    refine .bind info.renew_builds fun info' _ => .pure ?_
    simp only [Expr.names, hreceiver, hindex]
  | .call info callee args => by
    rw [Expr.copy]
    refine .bind callee.names_copy fun callee' hcallee => ?_
    refine .bind (exprsNames_copy args) fun args' hargs => ?_
    refine .bind info.renew_builds fun info' _ => .pure ?_
    simp only [Expr.names, hcallee, hargs]
  | .unary info op operand => by
    rw [Expr.copy]
    refine .bind operand.names_copy fun operand' hoperand => ?_
    refine .bind info.renew_builds fun info' _ => .pure ?_
    simp only [Expr.names, hoperand]
  | .binary info op lhs rhs => by
    rw [Expr.copy]
    refine .bind lhs.names_copy fun lhs' hlhs => ?_
    refine .bind rhs.names_copy fun rhs' hrhs => ?_
    refine .bind info.renew_builds fun info' _ => .pure ?_
    simp only [Expr.names, hlhs, hrhs]
  | .cast info value type => by
    rw [Expr.copy]
    refine .bind value.names_copy fun value' hvalue => ?_
    refine .bind (builds_any _) fun type' _ => ?_
    refine .bind info.renew_builds fun info' _ => .pure ?_
    simp only [Expr.names, hvalue]
  | .typed info value type => by
    rw [Expr.copy]
    refine .bind value.names_copy fun value' hvalue => ?_
    refine .bind (builds_any _) fun type' _ => ?_
    refine .bind info.renew_builds fun info' _ => .pure ?_
    simp only [Expr.names, hvalue]
  | .ifElse info kind condition thenValue elseValue => by
    rw [Expr.copy]
    refine .bind condition.names_copy fun condition' hcondition => ?_
    refine .bind thenValue.names_copy fun thenValue' hthen => ?_
    refine .bind elseValue.names_copy fun elseValue' helse => ?_
    refine .bind info.renew_builds fun info' _ => .pure ?_
    simp only [Expr.names, hcondition, hthen, helse]
  | .range info first last inclusive => by
    rw [Expr.copy]
    refine .bind first.names_copy fun first' hfirst => ?_
    refine .bind last.names_copy fun last' hlast => ?_
    refine .bind info.renew_builds fun info' _ => .pure ?_
    simp only [Expr.names, hfirst, hlast]
  | .lambda info definition => by
    rw [Expr.copy]
    refine .bind definition.names_copy fun definition' hdefinition => ?_
    refine .bind info.renew_builds fun info' _ => .pure ?_
    simp only [Expr.names, hdefinition]

theorem exprsNames_copy :
    ∀ es : List Expr, Builds (copyExprs es) fun es' => exprsNames es' = exprsNames es
  | [] => by
    rw [copyExprs]
    exact .pure rfl
  | e :: rest => by
    rw [copyExprs]
    refine .bind e.names_copy fun e' he => ?_
    refine .bind (exprsNames_copy rest) fun rest' hrest => .pure ?_
    simp only [exprsNames, he, hrest]

theorem entriesNames_copy :
    ∀ es : List (Expr × Expr), Builds (copyEntries es) fun es' => entriesNames es' = entriesNames es
  | [] => by
    rw [copyEntries]
    exact .pure rfl
  | (key, value) :: rest => by
    rw [copyEntries]
    refine .bind key.names_copy fun key' hkey => ?_
    refine .bind value.names_copy fun value' hvalue => ?_
    refine .bind (entriesNames_copy rest) fun rest' hrest => .pure ?_
    simp only [entriesNames, hkey, hvalue, hrest]

theorem FuncDef.names_copy : ∀ d : FuncDef, Builds d.copy fun d' => d'.names = d.names
  | ⟨info, kind, name, params, returnType, body, none⟩ => by
    rw [FuncDef.copy]
    refine .bind info.renew_builds fun info' _ => ?_
    refine .bind (builds_any _) fun params' _ => ?_
    refine .bind (builds_any _) fun returnType' _ => ?_
    refine .bind body.names_copy fun body' hbody => .pure ?_
    simp only [FuncDef.names, hbody]
  | ⟨info, kind, name, params, returnType, body, some ensureBody⟩ => by
    rw [FuncDef.copy]
    refine .bind info.renew_builds fun info' _ => ?_
    refine .bind (builds_any _) fun params' _ => ?_
    refine .bind (builds_any _) fun returnType' _ => ?_
    refine .bind body.names_copy fun body' hbody => ?_
    refine .bind ensureBody.names_copy fun ensureBody' hensure => .pure ?_
    simp only [FuncDef.names, optionalNames, hbody, hensure]

theorem Block.names_copy : ∀ b : Block, Builds b.copy fun b' => b'.names = b.names
  | ⟨info, stmts⟩ => by
    rw [Block.copy]
    refine .bind info.renew_builds fun info' _ => ?_
    refine .bind (stmtsNames_copy stmts) fun stmts' hstmts => .pure ?_
    simp only [Block.names, hstmts]

theorem Init.names_copy : ∀ i : Init, Builds i.copy fun i' => i'.names = i.names
  | ⟨info, decls, values⟩ => by
    rw [Init.copy]
    refine .bind info.renew_builds fun info' _ => ?_
    refine .bind (builds_any _) fun decls' _ => ?_
    refine .bind (exprsNames_copy values) fun values' hvalues => .pure ?_
    simp only [Init.names, hvalues]

theorem Stmt.names_copy : ∀ s : Stmt, Builds s.copy fun s' => s'.names = s.names
  | .init init => by
    rw [Stmt.copy]
    refine .bind init.names_copy fun init' hinit => .pure ?_
    simp only [Stmt.names, hinit]
  | .assign info targets op values => by
    rw [Stmt.copy]
    refine .bind info.renew_builds fun info' _ => ?_
    refine .bind (exprsNames_copy targets) fun targets' htargets => ?_
    refine .bind (exprsNames_copy values) fun values' hvalues => .pure ?_
    simp only [Stmt.names, htargets, hvalues]
  | .ifElse info kind condition thenBlock elseifs none => by
    rw [Stmt.copy]
    refine .bind info.renew_builds fun info' _ => ?_
    refine .bind condition.names_copy fun condition' hcondition => ?_
    refine .bind thenBlock.names_copy fun thenBlock' hthen => ?_
    refine .bind (armsNames_copy elseifs) fun elseifs' helseifs => .pure ?_
    simp only [Stmt.names, hcondition, hthen, helseifs]
  | .ifElse info kind condition thenBlock elseifs (some elseBlock) => by
    rw [Stmt.copy]
    refine .bind info.renew_builds fun info' _ => ?_
    refine .bind condition.names_copy fun condition' hcondition => ?_
    refine .bind thenBlock.names_copy fun thenBlock' hthen => ?_
    refine .bind (armsNames_copy elseifs) fun elseifs' helseifs => ?_
    refine .bind elseBlock.names_copy fun elseBlock' helse => .pure ?_
    simp only [Stmt.names, optionalNames, hcondition, hthen, helseifs, helse]
  | .ret info values => by
    rw [Stmt.copy]
    refine .bind info.renew_builds fun info' _ => ?_
    refine .bind (exprsNames_copy values) fun values' hvalues => .pure ?_
    simp only [Stmt.names, hvalues]
  | .case info whens none => by
    rw [Stmt.copy]
    refine .bind info.renew_builds fun info' _ => ?_
    refine .bind (armsNames_copy whens) fun whens' hwhens => .pure ?_
    simp only [Stmt.names, hwhens]
  | .case info whens (some elseBlock) => by
    rw [Stmt.copy]
    refine .bind info.renew_builds fun info' _ => ?_
    refine .bind (armsNames_copy whens) fun whens' hwhens => ?_
    refine .bind elseBlock.names_copy fun elseBlock' helse => .pure ?_
    simp only [Stmt.names, optionalNames, hwhens, helse]
  | .switch info target whens none => by
    rw [Stmt.copy]
    refine .bind info.renew_builds fun info' _ => ?_
    refine .bind target.names_copy fun target' htarget => ?_
    refine .bind (valueArmsNames_copy whens) fun whens' hwhens => .pure ?_
    simp only [Stmt.names, htarget, hwhens]
  | .switch info target whens (some elseBlock) => by
    rw [Stmt.copy]
    refine .bind info.renew_builds fun info' _ => ?_
    refine .bind target.names_copy fun target' htarget => ?_
    refine .bind (valueArmsNames_copy whens) fun whens' hwhens => ?_
    refine .bind elseBlock.names_copy fun elseBlock' helse => .pure ?_
    simp only [Stmt.names, optionalNames, htarget, hwhens, helse]
  | .forIn info vars range body => by
    rw [Stmt.copy]
    refine .bind info.renew_builds fun info' _ => ?_
    refine .bind (builds_any _) fun vars' _ => ?_
    refine .bind range.names_copy fun range' hrange => ?_
    refine .bind body.names_copy fun body' hbody => .pure ?_
    simp only [Stmt.names, hrange, hbody]
  | .whileDo info condition body => by
    rw [Stmt.copy]
    refine .bind info.renew_builds fun info' _ => ?_
    refine .bind condition.names_copy fun condition' hcondition => ?_
    refine .bind body.names_copy fun body' hbody => .pure ?_
    simp only [Stmt.names, hcondition, hbody]
  | .guarded info body kind condition => by
    rw [Stmt.copy]
    refine .bind info.renew_builds fun info' _ => ?_
    refine .bind body.names_copy fun body' hbody => ?_
    refine .bind condition.names_copy fun condition' hcondition => .pure ?_
    simp only [Stmt.names, hbody, hcondition]
  | .letIn info inits child => by
    rw [Stmt.copy]
    refine .bind info.renew_builds fun info' _ => ?_
    refine .bind (initsNames_copy inits) fun inits' hinits => ?_
    refine .bind child.names_copy fun child' hchild => .pure ?_
    simp only [Stmt.names, hinits, hchild]
  | .expr value => by
    rw [Stmt.copy]
    refine .bind value.names_copy fun value' hvalue => .pure ?_
    simp only [Stmt.names, hvalue]

theorem stmtsNames_copy :
    ∀ ss : List Stmt, Builds (copyStmts ss) fun ss' => stmtsNames ss' = stmtsNames ss
  | [] => by
    rw [copyStmts]
    exact .pure rfl
  | s :: rest => by
    rw [copyStmts]
    refine .bind s.names_copy fun s' hs => ?_
    refine .bind (stmtsNames_copy rest) fun rest' hrest => .pure ?_
    simp only [stmtsNames, hs, hrest]

theorem initsNames_copy :
    ∀ is : List Init, Builds (copyInits is) fun is' => initsNames is' = initsNames is
  | [] => by
    rw [copyInits]
    exact .pure rfl
  | i :: rest => by
    rw [copyInits]
    refine .bind i.names_copy fun i' hi => ?_
    refine .bind (initsNames_copy rest) fun rest' hrest => .pure ?_
    simp only [initsNames, hi, hrest]

theorem armsNames_copy : ∀ arms : List (Expr × Block),
    Builds (copyArms arms) fun arms' => armsNames arms' = armsNames arms
  | [] => by
    rw [copyArms]
    exact .pure rfl
  | (condition, block) :: rest => by
    rw [copyArms]
    refine .bind condition.names_copy fun condition' hcondition => ?_
    refine .bind block.names_copy fun block' hblock => ?_
    refine .bind (armsNames_copy rest) fun rest' hrest => .pure ?_
    simp only [armsNames, hcondition, hblock, hrest]

theorem valueArmsNames_copy : ∀ arms : List (List Expr × Block),
    Builds (copyValueArms arms) fun arms' => valueArmsNames arms' = valueArmsNames arms
  | [] => by
    rw [copyValueArms]
    exact .pure rfl
  | (values, block) :: rest => by
    rw [copyValueArms]
    refine .bind (exprsNames_copy values) fun values' hvalues => ?_
    refine .bind block.names_copy fun block' hblock => ?_
    refine .bind (valueArmsNames_copy rest) fun rest' hrest => .pure ?_
    simp only [valueArmsNames, hvalues, hblock, hrest]

end

end Frontend
