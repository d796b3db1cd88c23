import Frontend.Proofs.Tree.Fresh
import Frontend.Proofs.Typing.Rule

/-!
# Coherent return types

`FuncDef.returns` lists the return statements of a function as they stand in its text, and
`FuncDef.Coherent` says how its result type and their values fit together. `Coherence` is what the
analysis keeps between any two of its steps: a result type that is known is one that the text
admits, and the functions that are done are coherent.
-/

namespace Frontend

mutual

/-- The values of the return statements of a block, in the order of the text; a lambda keeps its own
ones. -/
@[simp] def Block.returns : Block → List (List Expr)
  | ⟨_, stmts⟩ => stmtsReturns stmts

/-- The values of the return statements of an optional block. -/
@[simp] def optionalReturns : Option Block → List (List Expr)
  | none => []
  | some b => b.returns

/-- The values of the return statements in a statement. -/
@[simp] def Stmt.returns : Stmt → List (List Expr)
  | .ret _ values => [values]
  | .ifElse _ _ _ thenBlock elseifs elseBlock =>
    thenBlock.returns ++ armsReturns elseifs ++ optionalReturns elseBlock
  | .case _ whens elseBlock => armsReturns whens ++ optionalReturns elseBlock
  | .switch _ _ whens elseBlock => valueArmsReturns whens ++ optionalReturns elseBlock
  | .forIn _ _ _ ⟨_, stmts⟩ => stmtsReturns stmts
  | .whileDo _ _ body => body.returns
  | .guarded _ body _ _ => body.returns
  | .letIn _ _ child => child.returns
  | .init _ | .assign .. | .expr _ => []

/-- The values of the return statements in a list of statements. -/
@[simp] def stmtsReturns : List Stmt → List (List Expr)
  | [] => []
  | s :: rest => s.returns ++ stmtsReturns rest

/-- The values of the return statements in guarded blocks. -/
@[simp] def armsReturns : List (Expr × Block) → List (List Expr)
  | [] => []
  | (_, body) :: rest => body.returns ++ armsReturns rest

/-- The values of the return statements in the blocks of a `switch`. -/
@[simp] def valueArmsReturns : List (List Expr × Block) → List (List Expr)
  | [] => []
  | (_, body) :: rest => body.returns ++ valueArmsReturns rest

end

/-- The values of the return statements that belong to a function: those of its body, then those of
its `ensure` block. -/
def FuncDef.returns (d : FuncDef) : List (List Expr) :=
  d.body.returns ++ optionalReturns d.ensureBody

/-- The type of several values taken together, once the type of each is known. -/
def AnalysisState.typeOfValues? (s : AnalysisState) (values : List Expr) : Option Ty :=
  (values.mapM fun e => s.types[e.id]?).map joinTypes

/-- The result type of a function that returns a value, by its text: the declared one, or else the
type of its first return statement, or else unit. -/
def FuncDef.resultType? (d : FuncDef) (s : AnalysisState) : Option Ty :=
  match d.returnType, d.returns with
  | some annotation, _ => annotation.resolve.toOption
  | none, [] => some .unit
  | none, values :: _ => s.typeOfValues? values

/-- The symbol of a function has the result type that the text asks for, and each of its return
statements returns a value of that type; a procedure has none and returns unit. -/
structure FuncDef.Coherent (s : AnalysisState) (d : FuncDef) (f : FuncSymbol) : Prop where
  kind : f.kind = d.kind
  procedure : d.kind = .proc →
    f.ret = none ∧ ∀ values ∈ d.returns, s.typeOfValues? values = some .unit
  value : d.kind ≠ .proc → ∃ type, f.ret = some type ∧ d.resultType? s = some type ∧
    ∀ values ∈ d.returns, s.typeOfValues? values = some type

/-- A result type that the text of a function admits at some moment: a procedure never has one, a
declared one is there from the start, and without a return statement it can only be unit. -/
structure FuncDef.Admits (d : FuncDef) (ret : Option Ty) : Prop where
  procedure : d.kind = .proc → ret = none
  declared : d.kind ≠ .proc → ∀ annotation, d.returnType = some annotation →
    ∃ type, annotation.resolve = .ok type ∧ ret = some type
  unit : d.returnType = none → d.returns = [] → ∀ type, ret = some type → type = .unit

namespace AnalysisState

/-- A definition has a symbol. -/
def Declared (s : AnalysisState) (d : FuncDef) : Prop :=
  ∃ id f, s.store.func? id = some f ∧ f.decl = some d

/-- A definition has a symbol that is coherent with it. -/
def Concluded (s : AnalysisState) (d : FuncDef) : Prop :=
  ∃ id f, s.store.func? id = some f ∧ f.decl = some d ∧ d.Coherent s f

/-- The lambdas at some sites have coherent symbols. -/
def Made (s : AnalysisState) (sites : List Site) : Prop :=
  ∀ d, .lambda d ∈ sites → s.Concluded d

end AnalysisState

/-- Whether an id is that of a constant definition. -/
def Program.HasConstant (p : Program) (node : Nat) : Prop := ∃ c ∈ p.constants, c.info.id = node

/-- No node of a function is a constant definition. -/
def FuncDef.Apart (p : Program) (d : FuncDef) : Prop := ∀ node ∈ d.ids, ¬ p.HasConstant node

/-- No node of the lambdas at some sites is a constant definition. -/
def Program.Apart (p : Program) (sites : List Site) : Prop := ∀ d, .lambda d ∈ sites → d.Apart p

/-- What the analysis keeps between any two steps. A definition has one symbol, which its scope
leads to; what is marked is a constant definition or has a scope; and of what is done, the functions
and the lambdas in it are coherent. -/
structure Coherence (p : Program) (s : AnalysisState) : Prop where
  linked : ∀ {id f d}, s.store.func? id = some f → f.decl = some d →
    ∃ scope, s.scopes[d.info.id]? = some scope ∧ s.store.scopeFuncId? scope = some id
  kind : ∀ {id f d}, s.store.func? id = some f → f.decl = some d → f.kind = d.kind
  admits : ∀ {id f d}, s.store.func? id = some f → f.decl = some d → d.Admits f.ret
  apart : ∀ {id f d}, s.store.func? id = some f → f.decl = some d → d.Apart p
  bounded : ∀ {node}, p.HasConstant node → node < s.nextId
  marked : ∀ {node}, s.progress[node]? ≠ none → p.HasConstant node ∨ s.scopes[node]? ≠ none
  functions : ∀ {id f d}, s.store.func? id = some f → f.decl = some d →
    s.progress[d.info.id]? = some .done → d.Coherent s f ∧ ∀ env, s.Made (d.sites env)
  constants : ∀ c ∈ p.constants, s.progress[c.info.id]? = some .done →
    ∀ env, s.Made (exprsSites env c.values)

/-- What any stretch of analysis keeps, whatever it meets: what is known stays known, and a slot
that was to be written a second time is not forgotten. -/
structure Growth (s t : AnalysisState) : Prop where
  store : s.store.Grows t.store
  type : ∀ {node : Nat} {type : Ty}, s.types[node]? = some type → t.types[node]? = some type
  scope : ∀ {node : Nat} {id : ScopeId}, s.scopes[node]? = some id → t.scopes[node]? = some id
  refused : t.refused = [] → s.refused = []
  nextId : s.nextId ≤ t.nextId

namespace Growth

variable {s t u : AnalysisState}

theorem refl (s : AnalysisState) : Growth s s := ⟨.refl _, id, id, id, Nat.le_refl _⟩

theorem trans (hst : Growth s t) (htu : Growth t u) : Growth s u where
  store := hst.store.trans htu.store
  type h := htu.type (hst.type h)
  scope h := htu.scope (hst.scope h)
  refused h := hst.refused (htu.refused h)
  nextId := Nat.le_trans hst.nextId htu.nextId

/-- Nothing but the symbols and scopes has changed. -/
theorem of_store {st : Store} (h : s.store.Grows st) : Growth s { s with store := st } :=
  ⟨h, id, id, id, Nat.le_refl _⟩

theorem declared (h : Growth s t) {d : FuncDef} (hd : s.Declared d) : t.Declared d := by
  obtain ⟨id, f, hf, hdecl⟩ := hd
  obtain ⟨g, hg, hfg⟩ := h.store.func hf
  exact ⟨id, g, hg, hfg.decl.trans hdecl⟩

theorem haveTypes (h : Growth s t) {es : List Expr} {types : List Ty} (hes : s.HaveTypes es types) :
    t.HaveTypes es types := hes.imp fun _ _ => h.type

end Growth

/-! ### Types of values -/

theorem AnalysisState.HaveTypes.typeOfValues? {s : AnalysisState} {es : List Expr} {types : List Ty}
    (h : s.HaveTypes es types) : s.typeOfValues? es = some (joinTypes types) := by
  have hmapM : (es.mapM fun e => s.types[e.id]?) = some types := by
    induction h with
    | nil => rfl
    | cons he _ ih => simp only [List.mapM_cons, he, ih, Option.bind_eq_bind, Option.bind_some,
        Option.pure_def]
  rw [AnalysisState.typeOfValues?, hmapM]
  rfl

theorem AnalysisState.haveTypes_of_typeOfValues? {s : AnalysisState} {es : List Expr} {type : Ty}
    (h : s.typeOfValues? es = some type) :
    ∃ types, s.HaveTypes es types ∧ joinTypes types = type := by
  obtain ⟨types, htypes, rfl⟩ := Option.map_eq_some_iff.mp h
  refine ⟨types, ?_, rfl⟩
  clear h
  induction es generalizing types with
  | nil =>
    cases htypes
    exact .nil
  | cons e rest ih =>
    simp only [List.mapM_cons, Option.bind_eq_bind, Option.pure_def,
      Option.bind_eq_some_iff] at htypes
    obtain ⟨type, he, types', hrest, heq⟩ := htypes
    cases heq
    exact .cons he (ih types' hrest)

variable {p : Program} {s t : AnalysisState} {d : FuncDef} {f g : FuncSymbol}

theorem Growth.typeOfValues? (h : Growth s t) {es : List Expr} {type : Ty}
    (hes : s.typeOfValues? es = some type) : t.typeOfValues? es = some type := by
  obtain ⟨types, htypes, rfl⟩ := AnalysisState.haveTypes_of_typeOfValues? hes
  exact (h.haveTypes htypes).typeOfValues?

theorem Growth.resultType? (h : Growth s t) {type : Ty} (hd : d.resultType? s = some type) :
    d.resultType? t = some type := by
  unfold FuncDef.resultType? at hd ⊢
  split at hd
  · exact hd
  · exact hd
  · exact h.typeOfValues? hd

/-! ### Coherent functions -/

/-- A function stays coherent as long as its text admits its result type. -/
theorem FuncDef.Coherent.grows (h : d.Coherent s f) (hst : Growth s t) (hfg : f.Grows g)
    (hadmits : d.Admits g.ret) : d.Coherent t g where
  kind := hfg.kind.trans h.kind
  procedure hk :=
    ⟨hadmits.procedure hk, fun values hm => hst.typeOfValues? ((h.procedure hk).2 values hm)⟩
  value hk := by
    obtain ⟨type, hret, hresult, hreturns⟩ := h.value hk
    exact ⟨type, hfg.ret hret, hst.resultType? hresult,
      fun values hm => hst.typeOfValues? (hreturns values hm)⟩

theorem AnalysisState.Concluded.grows (h : s.Concluded d) (hst : Growth s t)
    (hadmits : ∀ {id g d}, t.store.func? id = some g → g.decl = some d → d.Admits g.ret) :
    t.Concluded d := by
  obtain ⟨id, f, hf, hd, hcoh⟩ := h
  obtain ⟨g, hg, hfg⟩ := hst.store.func hf
  have hgd := hfg.decl.trans hd
  exact ⟨id, g, hg, hgd, hcoh.grows hst hfg (hadmits hg hgd)⟩

theorem AnalysisState.Made.grows {sites : List Site} (h : s.Made sites) (hst : Growth s t)
    (hadmits : ∀ {id g d}, t.store.func? id = some g → g.decl = some d → d.Admits g.ret) :
    t.Made sites := fun d hm => (h d hm).grows hst hadmits

/-- What is known of the values of all return statements decides the result type. -/
theorem FuncDef.Coherent.of_returns (hkind : f.kind = d.kind) (hadmits : d.Admits f.ret)
    (hsettled : f.kind.returnsValue = true → f.ret.isSome)
    (hreturns : ∀ values ∈ d.returns, ∃ type, s.typeOfValues? values = some type ∧
      f.result? = some type) : d.Coherent s f where
  kind := hkind
  procedure hk := by
    refine ⟨hadmits.procedure hk, fun values hm => ?_⟩
    obtain ⟨type, hvalues, hresult⟩ := hreturns values hm
    rw [FuncSymbol.result?, if_pos (hkind.trans hk)] at hresult
    rw [hvalues, hresult]
  value hk := by
    have hk' : f.kind ≠ .proc := fun h => hk (hkind.symm.trans h)
    have hresult : f.result? = f.ret := if_neg hk'
    rw [hresult] at hreturns
    have hvalue : f.kind.returnsValue = true := by
      cases hfk : f.kind <;> first | rfl | exact absurd hfk hk'
    obtain ⟨type, hret⟩ := Option.isSome_iff_exists.mp (hsettled hvalue)
    have hall : ∀ values ∈ d.returns, s.typeOfValues? values = some type := by
      intro values hm
      obtain ⟨type', hvalues, hret'⟩ := hreturns values hm
      rw [hvalues, ← hret', hret]
    refine ⟨type, hret, ?_, hall⟩
    unfold FuncDef.resultType?
    cases hann : d.returnType with
    | some annotation =>
      obtain ⟨type', hresolve, hret'⟩ := hadmits.declared hk annotation hann
      rw [hret] at hret'
      cases hret'
      exact congrArg Except.toOption hresolve
    | none =>
      cases hcons : d.returns with
      | nil => exact congrArg some (hadmits.unit hann hcons type hret).symm
      | cons values rest => exact hall values (hcons ▸ List.mem_cons_self)

end Frontend
