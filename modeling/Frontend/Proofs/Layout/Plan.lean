import Mathlib.Data.List.Nodup
import Frontend.Tree.Ids
import Frontend.Proofs.Scoping.Site

/-!
# Scopes as the text plans them

The text of a function says which scopes its analysis opens: one for the function, one for each
block and each `let` statement, each inside the one right around it. A `Shape` tells of one such
scope what lies directly in it, and a `Plan` tells of a piece of text what it adds to the scope
around it and which scopes there are inside. `Definition.shapes` lists all scopes of a definition,
those of lambdas included; a block belongs to what is right around it, a lambda to nothing.
-/

namespace Frontend

/-- What the text says about the scope of a function, a block or a `let` statement. -/
structure Shape where
  /-- The function, block or `let` statement. -/
  node : Nat
  isFunction : Bool
  /-- The construct whose scope is right around this one; without one it is the global scope. -/
  home : Option Nat
  /-- The blocks and `let` statements directly inside, in the order of the text. -/
  children : List Nat
  /-- The names of the variables declared directly inside, in the order of the text. -/
  names : List (String × Nat)

/-- What a piece of text adds to the scope around it, and the scopes inside. -/
structure Plan where
  /-- The blocks and `let` statements that lie in the scope around. -/
  children : List Nat
  /-- The names that are declared in the scope around. -/
  names : List (String × Nat)
  shapes : List Shape

namespace Plan

/-- One piece of text after another. -/
instance : Append Plan :=
  ⟨fun q r => ⟨q.children ++ r.children, q.names ++ r.names, q.shapes ++ r.shapes⟩⟩

/-- Text that adds nothing to the scope around it, such as an expression. -/
def of (shapes : List Shape) : Plan := ⟨[], [], shapes⟩

/-- A piece of text within a block or `let` statement of its own. -/
def enclose (q : Plan) (node : Nat) (home : Option Nat) : Plan :=
  ⟨[node], [], ⟨node, false, home, q.children, q.names⟩ :: q.shapes⟩

/-- The bodies of a function. -/
def function (q : Plan) (node : Nat) (home : Option Nat) : List Shape :=
  ⟨node, true, home, q.children, q.names⟩ :: q.shapes

theorem append_def (q r : Plan) :
    q ++ r = ⟨q.children ++ r.children, q.names ++ r.names, q.shapes ++ r.shapes⟩ := rfl

@[simp] theorem of_nil_append (q : Plan) : of [] ++ q = q := rfl

@[simp] theorem append_of_nil (q : Plan) : q ++ of [] = q := by
  simp only [append_def, of, List.append_nil]

@[simp] theorem of_append (shapes shapes' : List Shape) :
    of (shapes ++ shapes') = of shapes ++ of shapes' := rfl

end Plan

mutual

/-- The scopes in an expression, all of which are in lambdas. -/
def Expr.shapes (home : Option Nat) : Expr → List Shape
  | .literal .. | .varRef .. => []
  | .array _ elems | .tuple _ elems => exprsShapes home elems
  | .dict _ entries => entriesShapes home entries
  | .member _ receiver _ => receiver.shapes home
  | .index _ receiver index => receiver.shapes home ++ index.shapes home
  | .call _ callee args => callee.shapes home ++ exprsShapes home args
  | .unary _ _ operand => operand.shapes home
  | .binary _ _ lhs rhs => lhs.shapes home ++ rhs.shapes home
  | .cast _ value _ | .typed _ value _ => value.shapes home
  | .ifElse _ _ condition thenValue elseValue =>
    condition.shapes home ++ (thenValue.shapes home ++ elseValue.shapes home)
  | .range _ first last _ => first.shapes home ++ last.shapes home
  | .lambda _ d => d.shapes home

/-- The scopes in expressions. -/
def exprsShapes (home : Option Nat) : List Expr → List Shape
  | [] => []
  | e :: rest => e.shapes home ++ exprsShapes home rest

/-- The scopes in the entries of a dictionary. -/
def entriesShapes (home : Option Nat) : List (Expr × Expr) → List Shape
  | [] => []
  | (key, value) :: rest => key.shapes home ++ (value.shapes home ++ entriesShapes home rest)

/-- The scopes of a function: its own one, that of its body, that of its `ensure` block, and all
inside. -/
def FuncDef.shapes (home : Option Nat) : FuncDef → List Shape
  | ⟨info, _, _, _, _, body, ensureBody⟩ =>
    (body.plan (some info.id) ++ optionalPlan (some info.id) ensureBody).function info.id home

/-- A block is a scope with what its statements add. -/
def Block.plan (home : Option Nat) : Block → Plan
  | ⟨info, stmts⟩ => (stmtsPlan (some info.id) stmts).enclose info.id home

/-- What an optional block adds. -/
def optionalPlan (home : Option Nat) : Option Block → Plan
  | none => .of []
  | some b => b.plan home

/-- What an initialize statement adds. -/
def Init.plan (home : Option Nat) : Init → Plan
  | ⟨info, decls, values⟩ =>
    .of (exprsShapes home values) ++ ⟨[], Init.declares ⟨info, decls, values⟩, []⟩

/-- What a statement adds. A loop declares its variables in the block that is its body. -/
def Stmt.plan (home : Option Nat) : Stmt → Plan
  | .init init => init.plan home
  | .assign _ targets _ values => .of (exprsShapes home targets ++ exprsShapes home values)
  | .ifElse _ _ condition thenBlock elseifs elseBlock =>
    .of (condition.shapes home) ++
      (thenBlock.plan home ++ (armsPlan home elseifs ++ optionalPlan home elseBlock))
  | .ret _ values => .of (exprsShapes home values)
  | .case _ whens elseBlock => armsPlan home whens ++ optionalPlan home elseBlock
  | .switch _ target whens elseBlock =>
    .of (target.shapes home) ++ (valueArmsPlan home whens ++ optionalPlan home elseBlock)
  | .forIn _ vars range ⟨info, stmts⟩ =>
    .of (range.shapes home) ++
      (⟨[], loopNames vars, []⟩ ++ stmtsPlan (some info.id) stmts).enclose info.id home
  | .whileDo _ condition body => .of (condition.shapes home) ++ body.plan home
  | .guarded _ body _ condition => body.plan home ++ .of (condition.shapes home)
  | .letIn info inits child =>
    (initsPlan (some info.id) inits ++ child.plan (some info.id)).enclose info.id home
  | .expr value => .of (value.shapes home)

/-- What statements add. -/
def stmtsPlan (home : Option Nat) : List Stmt → Plan
  | [] => .of []
  | s :: rest => s.plan home ++ stmtsPlan home rest

/-- What the bindings of a `let` add. -/
def initsPlan (home : Option Nat) : List Init → Plan
  | [] => .of []
  | init :: rest => init.plan home ++ initsPlan home rest

/-- What conditions and the blocks they guard add. -/
def armsPlan (home : Option Nat) : List (Expr × Block) → Plan
  | [] => .of []
  | (condition, block) :: rest =>
    .of (condition.shapes home) ++ (block.plan home ++ armsPlan home rest)

/-- What values and the blocks that are run for them add. -/
def valueArmsPlan (home : Option Nat) : List (List Expr × Block) → Plan
  | [] => .of []
  | (values, block) :: rest =>
    .of (exprsShapes home values) ++ (block.plan home ++ valueArmsPlan home rest)

end

/-- The scopes of a definition of a program. -/
def Definition.shapes : Definition → List Shape
  | .function d => d.shapes none
  | .constant d => exprsShapes none d.values

/-- The plan of the bodies of a function. -/
def FuncDef.bodyPlan (d : FuncDef) : Plan :=
  d.body.plan (some d.info.id) ++ optionalPlan (some d.info.id) d.ensureBody

theorem FuncDef.shapes_eq (home : Option Nat) (d : FuncDef) :
    d.shapes home = d.bodyPlan.function d.info.id home := by
  obtain ⟨info, kind, name, params, returnType, body, ensureBody⟩ := d
  rw [shapes, bodyPlan]

/-- The scope of a function: its body lies in it, and then its `ensure` block if there is one. -/
def FuncDef.shape (d : FuncDef) (home : Option Nat) : Shape :=
  ⟨d.info.id, true, home, d.body.info.id :: (d.ensureBody.map (·.info.id)).toList, []⟩

theorem FuncDef.shapes_eq_cons (home : Option Nat) (d : FuncDef) :
    d.shapes home = d.shape home :: d.bodyPlan.shapes := by
  obtain ⟨info, kind, name, params, returnType, ⟨bodyInfo, stmts⟩, ensureBody⟩ := d
  rw [shapes_eq, Plan.function, shape, bodyPlan]
  cases ensureBody with
  | none => simp only [Block.plan, optionalPlan, Plan.append_of_nil, Plan.enclose, Option.map_none,
      Option.toList_none]
  | some b =>
    obtain ⟨ensureInfo, ensureStmts⟩ := b
    simp only [Block.plan, optionalPlan, Plan.append_def, Plan.enclose, Option.map_some,
      Option.toList_some, List.singleton_append, List.append_nil]

/-! ### Nodes of scopes -/

/-- The scopes of a plan stand for different nodes among the ids, as far as the ids differ, and
each but those of functions lies in another one or in the scope around. -/
structure Plan.Regular (q : Plan) (ids : List Nat) : Prop where
  nodes : (q.shapes.map Shape.node).Sublist ids
  nested : ∀ σ ∈ q.shapes, σ.isFunction = false →
    σ.node ∈ q.children ∨ ∃ τ ∈ q.shapes, σ.node ∈ τ.children

namespace Plan.Regular

variable {q r : Plan} {ids ids' : List Nat}

theorem nil : (Plan.of []).Regular ids := ⟨List.nil_sublist _, List.forall_mem_nil _⟩

theorem sublist (h : q.Regular ids) (hs : ids.Sublist ids') : q.Regular ids' :=
  ⟨h.nodes.trans hs, h.nested⟩

theorem skip (h : q.Regular ids) (node : Nat) : q.Regular (node :: ids) :=
  h.sublist (List.sublist_cons_self node ids)

theorem behind (h : q.Regular ids') (ids : List Nat) : q.Regular (ids ++ ids') :=
  h.sublist (List.sublist_append_right ids ids')

theorem before (h : q.Regular ids) (ids' : List Nat) : q.Regular (ids ++ ids') :=
  h.sublist (List.sublist_append_left ids ids')

theorem append (h : q.Regular ids) (h' : r.Regular ids') : (q ++ r).Regular (ids ++ ids') where
  nodes := by
    rw [append_def, List.map_append]
    exact h.nodes.append h'.nodes
  nested σ hm hσ := by
    rcases List.mem_append.mp hm with hm | hm
    · refine (h.nested σ hm hσ).imp (List.mem_append_left _) ?_
      rintro ⟨τ, hτ, hc⟩
      exact ⟨τ, List.mem_append_left _ hτ, hc⟩
    · refine (h'.nested σ hm hσ).imp (List.mem_append_right _) ?_
      rintro ⟨τ, hτ, hc⟩
      exact ⟨τ, List.mem_append_right _ hτ, hc⟩

/-- Everything in the scope of a construct lies in it. -/
private theorem nested_cons (h : q.Regular ids) {τ : Shape} (hτ : τ.children = q.children)
    {σ : Shape} (hm : σ ∈ q.shapes) (hσ : σ.isFunction = false) :
    ∃ υ ∈ τ :: q.shapes, σ.node ∈ υ.children := by
  rcases h.nested σ hm hσ with hc | ⟨υ, hυ, hc⟩
  · exact ⟨τ, List.mem_cons_self, hτ ▸ hc⟩
  · exact ⟨υ, List.mem_cons_of_mem _ hυ, hc⟩

theorem enclose (h : q.Regular ids) (node : Nat) (home : Option Nat) :
    (q.enclose node home).Regular (node :: ids) where
  nodes := h.nodes.cons_cons node
  nested σ hm hσ := by
    rcases List.mem_cons.mp hm with rfl | hm
    · exact .inl (List.mem_singleton_self node)
    · exact .inr (h.nested_cons rfl hm hσ)

theorem function (h : q.Regular ids) (node : Nat) (home : Option Nat) :
    (Plan.of (q.function node home)).Regular (node :: ids) where
  nodes := h.nodes.cons_cons node
  nested σ hm hσ := by
    rcases List.mem_cons.mp hm with rfl | hm
    · cases hσ
    · exact .inr (h.nested_cons rfl hm hσ)

/-- Names do not concern the scopes. -/
theorem declares (names : List (String × Nat)) : (⟨[], names, []⟩ : Plan).Regular ids :=
  ⟨List.nil_sublist _, List.forall_mem_nil _⟩

end Plan.Regular

mutual

theorem Expr.shapes_regular (home : Option Nat) :
    ∀ e : Expr, (Plan.of (e.shapes home)).Regular e.ids
  | .literal .. => by
    rw [Expr.shapes]
    exact .nil
  | .varRef .. => by
    rw [Expr.shapes]
    exact .nil
  | .array info elems => by
    rw [Expr.shapes, Expr.ids]
    exact (exprsShapes_regular home elems).skip info.id
  | .tuple info elems => by
    rw [Expr.shapes, Expr.ids]
    exact (exprsShapes_regular home elems).skip info.id
  | .dict info entries => by
    rw [Expr.shapes, Expr.ids]
    exact (entriesShapes_regular home entries).skip info.id
  | .member info receiver _ => by
    rw [Expr.shapes, Expr.ids]
    exact (receiver.shapes_regular home).skip info.id
  | .index info receiver index => by
    rw [Expr.shapes, Expr.ids, Plan.of_append]
    exact ((receiver.shapes_regular home).append (index.shapes_regular home)).skip info.id
  | .call info callee args => by
    rw [Expr.shapes, Expr.ids, Plan.of_append]
    exact ((callee.shapes_regular home).append (exprsShapes_regular home args)).skip info.id
  | .unary info _ operand => by
    rw [Expr.shapes, Expr.ids]
    exact (operand.shapes_regular home).skip info.id
  | .binary info _ lhs rhs => by
    rw [Expr.shapes, Expr.ids, Plan.of_append]
    exact ((lhs.shapes_regular home).append (rhs.shapes_regular home)).skip info.id
  | .cast info value type => by
    rw [Expr.shapes, Expr.ids]
    exact ((value.shapes_regular home).before type.ids).skip info.id
  | .typed info value type => by
    rw [Expr.shapes, Expr.ids]
    exact ((value.shapes_regular home).before type.ids).skip info.id
  | .ifElse info _ condition thenValue elseValue => by
    rw [Expr.shapes, Expr.ids, Plan.of_append, Plan.of_append, List.append_assoc]
    exact ((condition.shapes_regular home).append ((thenValue.shapes_regular home).append
      (elseValue.shapes_regular home))).skip info.id
  | .range info first last _ => by
    rw [Expr.shapes, Expr.ids, Plan.of_append]
    exact ((first.shapes_regular home).append (last.shapes_regular home)).skip info.id
  | .lambda info d => by
    rw [Expr.shapes, Expr.ids]
    exact (d.shapes_regular home).skip info.id

theorem exprsShapes_regular (home : Option Nat) :
    ∀ es : List Expr, (Plan.of (exprsShapes home es)).Regular (exprIds es)
  | [] => by
    rw [exprsShapes]
    exact .nil
  | e :: rest => by
    rw [exprsShapes, exprIds, Plan.of_append]
    exact (e.shapes_regular home).append (exprsShapes_regular home rest)

theorem entriesShapes_regular (home : Option Nat) :
    ∀ es : List (Expr × Expr), (Plan.of (entriesShapes home es)).Regular (entryIds es)
  | [] => by
    rw [entriesShapes]
    exact .nil
  | (key, value) :: rest => by
    rw [entriesShapes, entryIds, Plan.of_append, Plan.of_append, List.append_assoc]
    exact (key.shapes_regular home).append ((value.shapes_regular home).append
      (entriesShapes_regular home rest))

theorem FuncDef.shapes_regular (home : Option Nat) :
    ∀ d : FuncDef, (Plan.of (d.shapes home)).Regular d.ids
  | ⟨info, _, _, params, returnType, body, ensureBody⟩ => by
    rw [FuncDef.shapes, FuncDef.ids, List.append_assoc]
    exact (((body.plan_regular _).append (optionalPlan_regular _ ensureBody)).behind _).function _ _

theorem Block.plan_regular (home : Option Nat) : ∀ b : Block, (b.plan home).Regular b.ids
  | ⟨info, stmts⟩ => by
    rw [Block.plan, Block.ids]
    exact (stmtsPlan_regular _ stmts).enclose _ _

theorem optionalPlan_regular (home : Option Nat) :
    ∀ b : Option Block, (optionalPlan home b).Regular (blockIds b)
  | none => by
    rw [optionalPlan]
    exact .nil
  | some b => by
    rw [optionalPlan, blockIds]
    exact b.plan_regular home

theorem Init.plan_regular (home : Option Nat) : ∀ i : Init, (i.plan home).Regular i.ids
  | ⟨info, decls, values⟩ => by
    rw [Init.plan, Init.ids]
    have hnames : (⟨[], Init.declares ⟨info, decls, values⟩, []⟩ : Plan).Regular [] := .declares _
    have h := (exprsShapes_regular home values).append hnames
    rw [List.append_nil] at h
    exact (h.behind _).skip info.id

theorem Stmt.plan_regular (home : Option Nat) : ∀ s : Stmt, (s.plan home).Regular s.ids
  | .init init => by
    rw [Stmt.plan, Stmt.ids]
    exact init.plan_regular home
  | .assign info targets _ values => by
    rw [Stmt.plan, Stmt.ids, Plan.of_append]
    exact ((exprsShapes_regular home targets).append (exprsShapes_regular home values)).skip info.id
  | .ifElse info _ condition thenBlock elseifs elseBlock => by
    rw [Stmt.plan, Stmt.ids, List.append_assoc, List.append_assoc]
    exact ((condition.shapes_regular home).append ((thenBlock.plan_regular home).append
      ((armsPlan_regular home elseifs).append (optionalPlan_regular home elseBlock)))).skip info.id
  | .ret info values => by
    rw [Stmt.plan, Stmt.ids]
    exact (exprsShapes_regular home values).skip info.id
  | .case info whens elseBlock => by
    rw [Stmt.plan, Stmt.ids]
    exact ((armsPlan_regular home whens).append (optionalPlan_regular home elseBlock)).skip info.id
  | .switch info target whens elseBlock => by
    rw [Stmt.plan, Stmt.ids, List.append_assoc]
    exact ((target.shapes_regular home).append ((valueArmsPlan_regular home whens).append
      (optionalPlan_regular home elseBlock))).skip info.id
  | .forIn info vars range ⟨bodyInfo, stmts⟩ => by
    rw [Stmt.plan, Stmt.ids, Block.ids, List.append_assoc]
    have hnames : (⟨[], loopNames vars, []⟩ : Plan).Regular [] := .declares _
    have hbody : (⟨[], loopNames vars, []⟩ ++ stmtsPlan (some bodyInfo.id) stmts : Plan).Regular
        (stmtIds stmts) := hnames.append (stmtsPlan_regular _ stmts)
    exact (((range.shapes_regular home).append (hbody.enclose _ _)).behind _).skip info.id
  | .whileDo info condition body => by
    rw [Stmt.plan, Stmt.ids]
    exact ((condition.shapes_regular home).append (body.plan_regular home)).skip info.id
  | .guarded info body _ condition => by
    rw [Stmt.plan, Stmt.ids]
    exact ((body.plan_regular home).append (condition.shapes_regular home)).skip info.id
  | .letIn info inits child => by
    rw [Stmt.plan, Stmt.ids]
    exact ((initsPlan_regular _ inits).append (child.plan_regular _)).enclose _ _
  | .expr value => by
    rw [Stmt.plan, Stmt.ids]
    exact value.shapes_regular home

theorem stmtsPlan_regular (home : Option Nat) :
    ∀ ss : List Stmt, (stmtsPlan home ss).Regular (stmtIds ss)
  | [] => by
    rw [stmtsPlan]
    exact .nil
  | s :: rest => by
    rw [stmtsPlan, stmtIds]
    exact (s.plan_regular home).append (stmtsPlan_regular home rest)

theorem initsPlan_regular (home : Option Nat) :
    ∀ is : List Init, (initsPlan home is).Regular (initIds is)
  | [] => by
    rw [initsPlan]
    exact .nil
  | i :: rest => by
    rw [initsPlan, initIds]
    exact (i.plan_regular home).append (initsPlan_regular home rest)

theorem armsPlan_regular (home : Option Nat) :
    ∀ whens : List (Expr × Block), (armsPlan home whens).Regular (armIds whens)
  | [] => by
    rw [armsPlan]
    exact .nil
  | (condition, block) :: rest => by
    rw [armsPlan, armIds, List.append_assoc]
    exact (condition.shapes_regular home).append ((block.plan_regular home).append
      (armsPlan_regular home rest))

theorem valueArmsPlan_regular (home : Option Nat) :
    ∀ whens : List (List Expr × Block), (valueArmsPlan home whens).Regular (valueArmIds whens)
  | [] => by
    rw [valueArmsPlan]
    exact .nil
  | (values, block) :: rest => by
    rw [valueArmsPlan, valueArmIds, List.append_assoc]
    exact (exprsShapes_regular home values).append ((block.plan_regular home).append
      (valueArmsPlan_regular home rest))

end

namespace Definition

variable {d : Definition}

theorem shapes_regular (d : Definition) : (Plan.of d.shapes).Regular d.ids := by
  cases d with
  | function d => exact d.shapes_regular none
  | constant d => exact ((exprsShapes_regular none d.values).behind _).skip _

end Definition

end Frontend
