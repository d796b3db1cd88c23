import Frontend.Proofs.Analysis.Registration
import Frontend.Proofs.Dump.Legible
import Frontend.Proofs.Types.Declare

/-!
# Declaring legible symbols

Each operation of the analysis that writes to the store keeps it legible if what it writes is: the
names come from a legible definition, the types from annotations, hints or other symbols. A function
that is declared has a scope of its own, which is entered in one of the lists of the store.
-/

namespace Frontend

namespace Store.Legible

variable {s : Store}

/-- The lists may be replaced by others that hold scopes of functions. -/
theorem relist (h : s.Legible) (functions instances lambdas : Array FuncId)
    {functionScopes instanceScopes lambdaScopes : Array ScopeId}
    (hfunctions : ∀ id ∈ functionScopes, s.IsScopeOf (· ≠ .lambda) id)
    (hinstances : ∀ id ∈ instanceScopes, s.IsScopeOf (fun _ => True) id)
    (hlambdas : ∀ id ∈ lambdaScopes, s.IsScopeOf (· = .lambda) id) :
    Legible { s with
      functions, functionScopes, instances, instanceScopes, lambdas, lambdaScopes } where
  func := h.func
  constant := h.constant
  block := h.block
  functions := hfunctions
  instances := hinstances
  lambdas := hlambdas

/-- A constant is added. -/
theorem addConstant (h : s.Legible) {v : VarSymbol} (hv : v.Legible) :
    Legible { s with constants := s.constants.push v } where
  func := h.func
  constant {i w} hw := by
    rw [Array.getElem?_push] at hw
    split at hw
    · cases hw
      exact hv
    · exact h.constant hw
  block := h.block
  functions := h.functions
  instances := h.instances
  lambdas := h.lambdas

end Store.Legible

variable {s : AnalysisState} {position : Position}

namespace Check

/-! ### Slots -/

theorem setType_legible (node : Nat) (type : Ty) :
    StaysLegible (setType node type) fun _ => True := by
  intro s hs
  refine .bind (.get ?_)
  unfold Resolution.setType
  split
  · next r hr =>
    split at hr
    · cases hr
    · cases hr
      exact .set ⟨hs, trivial⟩
  · exact .fault trivial

theorem link_legible (node : Nat) (target : Link) :
    StaysLegible (link node target) fun _ => True :=
  .modify fun s => by
    unfold Resolution.link
    split <;> rfl

theorem setScope_legible (node : Nat) (scope : ScopeId) :
    StaysLegible (setScope node scope) fun _ => True :=
  .modify fun s => by
    unfold Resolution.setScope
    split <;> rfl

theorem setProgress_legible (node : Nat) (progress : Progress) :
    StaysLegible (setProgress node progress) fun _ => True := .modify fun _ => rfl

theorem progress?_legible (node : Nat) : StaysLegible (progress? node) fun _ => True :=
  .bind .get fun _ _ => .pure trivial

theorem func_legible (id : FuncId) : StaysLegible (func id) FuncSymbol.Legible := by
  refine .bind .store fun st hst => ?_
  split
  · next f hf => exact .pure (hst.func hf)
  · exact .fault

/-! ### Checks -/

theorem expectType_legible (expected received : Ty) :
    StaysLegible (expectType expected received position) fun _ => True :=
  .yields ((expectType_yields trivial expected received).imp fun _ _ => trivial)

theorem expectTypeIf_legible (expected : Option Ty) (received : Ty) :
    StaysLegible (expectTypeIf expected received position) fun _ => True :=
  .yields (expectTypeIf_yields trivial expected received)

theorem denoted_legible (written : TypeExpr) : StaysLegible (denoted written) Ty.Inline :=
  .yields ⟨_, rfl, .of_answers written.resolve_inline⟩

theorem denoted?_legible (written : Option TypeExpr) :
    StaysLegible (denoted? written) HintInline := by
  cases written with
  | none => exact .pure hintInline_none
  | some written =>
    exact .bind (denoted_legible written) fun _ ht => .pure (hintInline_some.mpr ht)

/-! ### Scopes and variables -/

theorem openBlock_legible (parent : ScopeId) (node : Nat) :
    StaysLegible (openBlock parent node) fun _ => True := by
  refine .bind .store fun st hst => ?_
  split
  · next id st' hopen =>
    refine .bind (.setStore (hst.openBlock hopen)) fun _ _ => ?_
    exact .bind (setScope_legible _ _) fun _ _ => .pure trivial
  · exact .fault

theorem defineLocal_legible (scope : ScopeId) {name : String} {type : Ty} (hname : IsPlain name)
    (ht : type.Inline) (isVar : Bool) :
    StaysLegible (defineLocal scope name type isVar position) fun _ => True := by
  refine .bind .store fun st hst => ?_
  split
  · exact .fault
  · next hblock =>
    rw [Bool.not_eq_true, Bool.not_eq_false'] at hblock
    split
    · next hdefine =>
      exact .bind (.setStore (hst.defineVar ⟨hname, hintInline_some.mpr ht⟩ hblock hdefine))
        fun _ _ => .pure trivial
    · exact .fail

theorem declareVar_legible (scope : ScopeId) (info : NodeInfo) {name : String} {type : Ty}
    (hname : IsPlain name) (ht : type.Inline) (isVar : Bool) :
    StaysLegible (declareVar scope info name type isVar) fun _ => True := by
  unfold declareVar
  split
  · exact .pure trivial
  · exact .bind (defineLocal_legible scope hname ht isVar) fun _ _ => link_legible _ _

/-! ### Result types and types of constants -/

theorem setRet_legible (id : FuncId) {type : Ty} (ht : type.Inline) :
    StaysLegible (setRet id type) fun _ => True := by
  refine .bind .store fun st hst => ?_
  split
  · next hset => exact .setStore (hst.setRet? ht hset)
  · exact .pure trivial

theorem returnType_legible (id : FuncId) {type : Ty} (ht : type.Inline) :
    StaysLegible (returnType id type position) fun _ => True := by
  refine .bind (func_legible id) fun f _ => ?_
  split
  · split
    · exact .pure trivial
    · exact .fail
  · split
    · exact expectType_legible _ _
    · exact setRet_legible id ht

theorem settleReturn_legible (id : FuncId) : StaysLegible (settleReturn id) fun _ => True := by
  refine .bind (func_legible id) fun f _ => ?_
  split
  · exact setRet_legible id Ty.inline_unit
  · exact .pure trivial

theorem typeOf?_legible (handle : VarHandle) : StaysLegible (typeOf? handle) HintInline := by
  refine .bind .store fun st hst => .pure fun type htype => ?_
  obtain ⟨v, hv, htype⟩ := Option.bind_eq_some_iff.mp htype
  exact (hst.var? hv).type type htype

theorem assignConstant_legible (handle : VarHandle) {type : Ty} (ht : type.Inline) :
    StaysLegible (assignConstant handle type position) fun _ => True := by
  refine .bind (typeOf?_legible handle) fun _ _ => ?_
  split
  · exact expectType_legible _ _
  · next index _ =>
    intro s hs
    refine .modify ⟨?_, trivial⟩
    cases hset : s.store.setConstantType? index type with
    | none => exact hs
    | some st => exact hs.setConstantType? ht hset
  · exact .pure trivial

/-! ### Functions -/

theorem lambdaParams_legible (params : List Param) {hints : List Ty} (hh : TypesInline hints) :
    StaysLegible (lambdaParams params hints) TypesInline := by
  induction params generalizing hints with
  | nil => exact .pure (List.forall_mem_nil _)
  | cons q rest ih =>
    have hfirst : StaysLegible (lambdaParam q hints) Ty.Inline := by
      unfold lambdaParam
      split
      · exact denoted_legible _
      · split
        · exact .fail
        · exact .pure (List.forall_mem_cons.mp hh).1
      · exact .fail
    refine .bind hfirst fun type htype => ?_
    refine .bind (ih fun t ht => hh t (List.mem_of_mem_tail ht)) fun types htypes => ?_
    exact .pure (List.forall_mem_cons.mpr ⟨htype, htypes⟩)

/-- The symbols of parameters have their names, and the types that are given or annotated. -/
theorem paramSymbols_legible {params : List Param} (hp : ∀ q ∈ params, IsPlain q.name)
    {concrete : Option (List Ty)} (hc : ∀ types ∈ concrete, TypesInline types)
    (used : List String) {symbols : List VarSymbol}
    (h : paramSymbols used concrete params = .ok symbols) : ∀ v ∈ symbols, v.Legible := by
  induction params generalizing concrete used symbols with
  | nil =>
    cases h
    exact List.forall_mem_nil _
  | cons q rest ih =>
    rw [List.forall_mem_cons] at hp
    unfold paramSymbols at h
    split at h
    · cases h
    · obtain ⟨type, htype, h⟩ := bind_eq_ok.mp h
      obtain ⟨symbols, hsymbols, h⟩ := bind_eq_ok.mp h
      cases h
      have hinline : type.Inline := by
        unfold paramType at htype
        split at htype
        · cases htype
          exact hc _ rfl _ List.mem_cons_self
        · cases htype
        · next written _ _ =>
          exact (Results.of_answers written.resolve_inline).ok type htype
        · cases htype
          exact Ty.inline_template _
      have htail : ∀ types ∈ concrete.map List.tail, TypesInline types := by
        intro types hm
        obtain ⟨types', hm', rfl⟩ := Option.map_eq_some_iff.mp hm
        exact fun t ht => hc types' hm' t (List.mem_of_mem_tail ht)
      exact List.forall_mem_cons.mpr
        ⟨⟨hp.1, hintInline_some.mpr hinline⟩, ih hp.2 htail _ hsymbols⟩

theorem linkParams_keepsStore (scope : ScopeId) (index : Nat) (params : List Param) :
    Ensures (fun _ _ => True) (linkParams scope index params) s fun _ t => t.store = s.store := by
  induction params generalizing index s with
  | nil => exact .pure rfl
  | cons q rest ih =>
    refine .bind (.modify ((ih (index + 1)).imp fun _ t _ ht => ht.trans ?_))
    unfold Resolution.link
    split <;> rfl

/-- The links of a function that has been declared are no concern of the store. -/
theorem enterFunction_legible {kinds : FuncKind → Prop} {st : Store} {scope : ScopeId}
    (hst : st.Legible) (hscope : st.IsScopeOf kinds scope) (d : FuncDef) (func : FuncId) :
    Ensures (fun _ _ => True) (do
        setStore st
        linkParams scope 0 d.params
        Check.setScope d.info.id scope
        return (scope, func)) s fun r t => t.store.Legible ∧ t.store.IsScopeOf kinds r.1 := by
  refine .bind (.setStore (.bind ((linkParams_keepsStore scope 0 d.params).imp fun _ t _ ht => ?_)))
  have hstore : (t.toResolution.setScope d.info.id scope).store = st := by
    unfold Resolution.setScope
    split <;> exact ht
  refine .bind (.modify (.pure ?_))
  exact ⟨hstore.symm ▸ hst, hstore.symm ▸ hscope⟩

/-- A function gets a legible symbol and a scope. -/
theorem declareFunction_legible {d : FuncDef} (hd : d.Legible) (enclosing : ScopeId)
    {concrete : Option (List Ty)} (hc : ∀ types ∈ concrete, TypesInline types)
    (hs : s.store.Legible) :
    Ensures (fun _ _ => True) (declareFunction d enclosing concrete) s fun r t =>
      t.store.Legible ∧ t.store.IsScopeOf (· = d.kind) r.1 := by
  have hparts : IsPlain d.name ∧ ∀ q ∈ d.params, IsPlain q.name := by
    cases d
    rw [FuncDef.Legible] at hd
    exact ⟨hd.1, hd.2.1⟩
  refine .bind (.ofResult (fun _ _ => trivial) fun params hparams => ?_)
  refine .bind ((denoted?_legible _ s hs).imp fun ret t _ ht => .bind (.store ?_))
  have hsymbol : FuncSymbol.Legible ⟨d.name, params, ret, d.kind, false, some d⟩ :=
    { name := hparts.1
      params := paramSymbols_legible hparts.2 hc [] hparams
      ret := ht.2
      decl := by
        rintro _ ⟨⟩
        exact hd }
  obtain ⟨hst, hscope⟩ := ht.1.openFunction hsymbol enclosing
  have hof : Store.IsScopeOf _ (· = d.kind) _ := ⟨_, hscope, rfl, rfl⟩
  exact enterFunction_legible hst hof d t.store.funcs.size

/-- A lambda takes parameters of inline types. -/
theorem declareLambda_legible (scope : ScopeId) {d : FuncDef} (hkind : d.kind = .lambda)
    (hd : d.Legible) {hints : List Ty} (hh : TypesInline hints) :
    StaysLegible (declareLambda scope d hints) fun r => TypesInline r.1 := by
  refine .bind (lambdaParams_legible d.params hh) fun params hparams => fun s hs => ?_
  have hgiven : ∀ types ∈ some params, TypesInline types := by
    rintro _ ⟨⟩
    exact hparams
  refine .bind ((declareFunction_legible hd scope hgiven hs).imp fun r t _ ht =>
    .bind (.modify (.pure ⟨?_, hparams⟩)))
  rw [hkind] at ht
  exact ht.1.relist _ _ _ ht.1.functions ht.1.instances
    (Array.forall_mem_push.mpr ⟨ht.2, ht.1.lambdas⟩)

/-- The copy that an instance is made of is legible like its template. -/
theorem makeInstance_legible {d : FuncDef} (hd : d.Legible) {args : List Ty}
    (hargs : TypesInline args) (depth : Nat) :
    StaysLegible (makeInstance d args depth) fun r => r.1.Legible := by
  intro s hs
  have hcopy := hd.copy s.nextId
  refine .bind (.modifyGet ?_)
  generalize d.copy.run s.nextId = made at hcopy ⊢
  obtain ⟨copy, next⟩ := made
  change Ensures _ (declareFunction copy Store.globalScope (some args) >>= _)
    (copied s d copy next) _
  have hs' : (copied s d copy next).store.Legible := hs
  have hgiven : ∀ types ∈ some args, TypesInline types := by
    rintro _ ⟨⟩
    exact hargs
  refine .bind ((declareFunction_legible hcopy Store.globalScope hgiven hs').imp fun r t _ ht =>
    .bind (.modify (.pure ⟨?_, hcopy⟩)))
  obtain ⟨f, hf, hbuiltin, -⟩ := ht.2
  exact ht.1.relist _ _ _ ht.1.functions
    (Array.forall_mem_push.mpr ⟨⟨f, hf, hbuiltin, trivial⟩, ht.1.instances⟩) ht.1.lambdas

/-! ### The first pass -/

theorem registerFunction_legible {d : FuncDef} (hkind : d.kind ≠ .lambda) (hd : d.Legible) :
    StaysLegible (registerFunction d) fun _ => True := by
  intro s hs
  have hgiven : ∀ types ∈ (none : Option (List Ty)), TypesInline types := nofun
  refine .bind ((declareFunction_legible hd Store.globalScope hgiven hs).imp fun r t _ ht =>
    .bind (.store ?_))
  obtain ⟨f, hf, hbuiltin, hfkind⟩ := ht.2
  split
  · next st hst =>
    rw [definedFunction hst]
    exact .setStore ⟨ht.1.relist _ _ _
      (Array.forall_mem_push.mpr ⟨⟨f, hf, hbuiltin, fun h => hkind (hfkind ▸ h)⟩, ht.1.functions⟩)
      ht.1.instances ht.1.lambdas, trivial⟩
  · exact (StaysLegible.bind (func_legible _) fun _ _ => .fail) t ht.1

theorem registerConstant_legible {d : ConstDecl} (hname : IsPlain d.name) :
    StaysLegible (registerConstant d) fun _ => True := by
  refine .bind (denoted?_legible d.type) fun type htype => .bind .store fun st hst => ?_
  unfold Store.defineConstant
  split
  · next handle st' hst' =>
    split at hst'
    · cases hst'
    · cases hst'
      exact .bind (.setStore (hst.addConstant ⟨hname, htype⟩)) fun _ _ => link_legible _ _
  · exact .fail

theorem forM_legible {α : Type} {as : List α} {f : α → Check Unit}
    (h : ∀ a ∈ as, StaysLegible (f a) fun _ => True) :
    StaysLegible (as.forM f) fun _ => True := by
  induction as with
  | nil => exact .pure trivial
  | cons a rest ih =>
    rw [List.forall_mem_cons] at h
    exact .bind h.1 fun _ _ => ih h.2

theorem registerDefinition_legible {d : Definition} (hd : d.Legible) :
    StaysLegible (registerDefinition d) fun _ => True := by
  cases d with
  | function d => exact registerFunction_legible hd.1 hd.2
  | constant d => exact forM_legible fun c hc => registerConstant_legible (hd.1 c hc)

end Check

end Frontend
