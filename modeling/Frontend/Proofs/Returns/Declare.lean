import Frontend.Proofs.Analysis.Observation
import Frontend.Proofs.Returns.Leaves
import Frontend.Proofs.Scoping.Lambda

/-!
# Declarations and result types

A new symbol starts with the result type that its text declares, and the only places that write one
later are a return statement and the end of a body.
-/

namespace Frontend

variable {p : Program} {scope : ScopeId} {s t : AnalysisState} {d : FuncDef}

/-- An action keeps coherence and declares a definition, whose text must be apart from the constant
definitions. -/
structure Introduces (p : Program) (d : FuncDef) (s t : AnalysisState) : Prop where
  growth : Growth s t
  coherent : t.refused = [] → Coherence p s → d.Apart p → Coherence p t ∧ t.Declared d

/-- Further bookkeeping leaves function symbols and marks alone. -/
theorem Introduces.andThen {u : AnalysisState} (h : Introduces p d s t)
    (h' : Leaves p scope [] [] t u) : Introduces p d s u where
  growth := h.growth.trans h'.growth
  coherent hr hc hapart := by
    obtain ⟨hc', hd⟩ := h.coherent (h'.growth.refused hr) hc hapart
    exact ⟨(h'.coherent hr hc' Program.apart_nil 0 fun hne => absurd rfl hne).1,
      h'.growth.declared hd⟩

/-- The lists of instances and lambdas are no concern of coherence. -/
theorem Leaves.listed (scope : ScopeId) (s : AnalysisState) (instances : Array FuncId)
    (instanceScopes : Array ScopeId) (lambdas : Array FuncId) (lambdaScopes : Array ScopeId)
    (known : List Instance) (active : Std.TreeMap Nat Nat) :
    Leaves p scope [] [] s { s with
      store := { s.store with instances, instanceScopes, lambdas, lambdaScopes }, known, active } :=
  .of_funcs ⟨⟨fun hf => ⟨_, hf, .refl _⟩, fun ha => ⟨_, ha, .refl _⟩,
    fun hv => ⟨_, hv, .refl _⟩⟩, id, id, id, Nat.le_refl _⟩ rfl fun _ => rfl

/-! ### Result types that a text admits -/

/-- The result type that a symbol starts with. -/
theorem FuncDef.admits_declared {ret : Option Ty}
    (hnone : (if d.kind.returnsValue then d.returnType else none) = none → ret = none)
    (hsome : ∀ annotation, (if d.kind.returnsValue then d.returnType else none) = some annotation →
      ∃ type, annotation.resolve = .ok type ∧ ret = some type) : d.Admits ret where
  procedure hk := hnone (by rw [hk]; rfl)
  declared hk annotation hann := by
    have hvalue : d.kind.returnsValue = true := by
      cases hfk : d.kind <;> first | rfl | exact absurd hfk hk
    exact hsome annotation (by rw [if_pos hvalue]; exact hann)
  unit hann _ type hret := by
    rw [hnone (by rw [hann, ite_self])] at hret
    cases hret

/-- A text with a return statement and no declared result type admits any that is found. -/
theorem FuncDef.Admits.inferred {type : Ty} (h : d.Admits none) (hkind : d.kind ≠ .proc)
    (hreturns : d.returns ≠ []) : d.Admits (some type) where
  procedure hk := absurd hk hkind
  declared hk annotation hann := by
    obtain ⟨_, -, hnone⟩ := h.declared hk annotation hann
    cases hnone
  unit _ hnil := absurd hnil hreturns

/-- A text without a declared result type admits unit. -/
theorem FuncDef.Admits.settled (h : d.Admits none) (hkind : d.kind ≠ .proc) :
    d.Admits (some .unit) where
  procedure hk := absurd hk hkind
  declared hk annotation hann := by
    obtain ⟨_, -, hnone⟩ := h.declared hk annotation hann
    cases hnone
  unit _ _ type hunit := (Option.some.inj hunit).symm

namespace Check

theorem declareVar_goes (block : ScopeId) (info : NodeInfo) (name : String) (type : Ty)
    (isVar : Bool) : Goes p scope [] [] (declareVar block info name type isVar) := by
  unfold declareVar
  split
  · exact .pure ()
  · exact (defineLocal_goes block name type isVar _).bind fun _ => link_goes _ _

/-! ### Symbols of functions -/

theorem linkParams_ensures_store (inside : ScopeId) (params : List Param) (index : Nat) :
    Ensures (fun _ _ => True) (linkParams inside index params) s fun _ t =>
      Growth s t ∧ t.store = s.store ∧ t.scopes = s.scopes ∧ t.progress = s.progress := by
  induction params generalizing index s with
  | nil => exact .pure ⟨.refl s, rfl, rfl, rfl⟩
  | cons q rest ih =>
    refine .bind (.modify ((ih (index + 1)).imp fun _ t _ h => ?_))
    obtain ⟨hg, hstore, hscopes, hprogress⟩ := h
    refine ⟨(Growth.link q.info.id _).trans hg, hstore.trans ?_, hscopes.trans ?_, hprogress⟩
    all_goals
      unfold Resolution.link
      split <;> rfl

/-- A declared result type is what the annotation denotes. -/
theorem denoted?_ensures_resolved (written : Option TypeExpr) :
    Ensures (fun _ _ => True) (denoted? written) s fun ret t => t = s ∧
      (written = none → ret = none) ∧
      ∀ annotation, written = some annotation → ∃ type, annotation.resolve = .ok type ∧
        ret = some type := by
  cases written with
  | none => exact .pure ⟨rfl, fun _ => rfl, nofun⟩
  | some annotation =>
    refine .bind (.ofResult (fun _ _ => trivial) fun type h => .pure ⟨rfl, nofun, ?_⟩)
    rintro _ ⟨⟩
    cases hresolve : annotation.resolve with
    | error e => rw [hresolve] at h; cases h
    | ok type' =>
      rw [hresolve] at h
      cases h
      exact ⟨type, rfl, rfl⟩

/-- The symbol that is declared has the name and the kind of the function. -/
theorem declareFunction_ensures_symbol (d : FuncDef) (enclosing : ScopeId)
    (concrete : Option (List Ty)) (s : AnalysisState) :
    Ensures (fun _ _ => True) (declareFunction d enclosing concrete) s fun a t =>
      ∃ f, t.store.func? a.2 = some f ∧ f.name = d.name ∧ f.kind = d.kind := by
  refine .bind (.ofResult (fun _ _ => trivial) fun params _ => ?_)
  refine .bind ((denoted?_ensures_resolved _).imp fun ret t _ h => ?_)
  refine .bind (.store (.bind (.setStore (.bind ?_))))
  obtain ⟨st, hst, -, -, hfunc, -⟩ :=
    t.store.addFunc_openFunction ⟨d.name, params, ret, d.kind, false, some d⟩ enclosing
  change Ensures _ (linkParams t.store.scopes.size 0 d.params) { t with
    store := ((t.store.addFunc _).2.openFunction (some t.store.funcs.size) enclosing).2 } _
  rw [hst]
  refine Ensures.imp (linkParams_ensures_store _ d.params 0) fun _ u _ h => ?_
  refine .bind (.modify (.pure ⟨⟨d.name, params, ret, d.kind, false, some d⟩, ?_, rfl, rfl⟩))
  rw [setScope_store, h.2.1]
  exact hfunc

theorem declareFunction_introduces (d : FuncDef) (enclosing : ScopeId)
    (concrete : Option (List Ty)) :
    Ensures (fun _ _ => True) (declareFunction d enclosing concrete) s fun _ t =>
      Introduces p d s t := by
  refine .bind (.ofResult (fun _ _ => trivial) fun params _ => ?_)
  refine .bind ((denoted?_ensures_resolved _).imp fun ret t _ h => ?_)
  obtain ⟨rfl, hnone, hsome⟩ := h
  have hadmits := FuncDef.admits_declared hnone hsome
  refine .bind (.store (.bind (.setStore (.bind ?_))))
  obtain ⟨st, hst, hopens, hnew, hfunc, hold, hconstants, -⟩ :=
    t.store.addFunc_openFunction ⟨d.name, params, ret, d.kind, false, some d⟩ enclosing
  change Ensures _ (linkParams t.store.scopes.size 0 d.params) { t with
    store := ((t.store.addFunc _).2.openFunction (some t.store.funcs.size) enclosing).2 } _
  rw [hst]
  have hgrows : t.store.Grows st := by
    refine hopens.grows (fun {i g} hg => ?_) hconstants
    rw [hold fun heq => by rw [heq, hnew] at hg; cases hg]
    exact hg
  refine Ensures.imp (linkParams_ensures_store _ d.params 0) fun _ u _ h => ?_
  obtain ⟨hlinks, hstore, hscopes, hprogress⟩ := h
  refine .bind (.modify (.pure ?_))
  have hg : Growth t { u with
      toResolution := u.toResolution.setScope d.info.id t.store.scopes.size } :=
    ((Growth.of_store hgrows).trans hlinks).trans (Growth.setScope _ _)
  have hstore' : (u.toResolution.setScope d.info.id t.store.scopes.size).store = st :=
    (setScope_store _ _).trans hstore
  refine ⟨hg, fun hr hc hapart => ?_⟩
  obtain ⟨hunscoped, hscope⟩ := setScope_of_refused hr
  rw [hscopes] at hunscoped
  have hunmarked : t.progress[d.info.id]? = none := by
    by_contra hmarked
    exact (hc.marked hmarked).elim (hapart _ (Definition.function d).info_mem_ids)
      fun h => h hunscoped
  -- A symbol is the new one or has not changed.
  have hcases : ∀ {i g e}, (u.toResolution.setScope d.info.id t.store.scopes.size).store.func? i =
      some g → g.decl = some e → (i = t.store.funcs.size ∧
        g = ⟨d.name, params, ret, d.kind, false, some d⟩ ∧ e = d) ∨ t.store.func? i = some g := by
    intro i g e hgf he
    rw [hstore'] at hgf
    by_cases heq : i = t.store.funcs.size
    · subst heq
      rw [hfunc] at hgf
      cases hgf
      cases he
      exact .inl ⟨rfl, rfl, rfl⟩
    · exact .inr ((hold heq).symm.trans hgf)
  have hadmits' : ∀ {i g e}, (u.toResolution.setScope d.info.id t.store.scopes.size).store.func? i =
      some g → g.decl = some e → e.Admits g.ret := by
    intro i g e hgf he
    obtain ⟨-, rfl, rfl⟩ | hgf := hcases hgf he
    · exact hadmits
    · exact hc.admits hgf he
  refine ⟨⟨fun hgf he => ?_, fun hgf he => ?_, hadmits', fun hgf he => ?_,
    fun hn => Nat.lt_of_lt_of_le (hc.bounded hn) hg.nextId, fun {node} hn => ?_,
    fun hgf he hdone => ?_, fun c hm hdone env => ?_⟩, _, _, hstore' ▸ hfunc, rfl⟩
  · obtain ⟨rfl, -, rfl⟩ | hgf := hcases hgf he
    · refine ⟨_, hscope, ?_⟩
      rw [hstore']
      simp only [Store.scopeFuncId?, hopens.opened]
    · obtain ⟨scope, hs, hi⟩ := hc.linked hgf he
      exact ⟨scope, hg.scope hs, hg.store.scopeFuncId? hi⟩
  · obtain ⟨-, rfl, rfl⟩ | hgf := hcases hgf he
    · rfl
    · exact hc.kind hgf he
  · obtain ⟨-, -, rfl⟩ | hgf := hcases hgf he
    · exact hapart
    · exact hc.apart hgf he
  · rw [show u.progress = t.progress from hprogress] at hn
    refine (hc.marked hn).imp_right fun hs => ?_
    obtain ⟨i, hi⟩ := Option.ne_none_iff_exists'.mp hs
    rw [hg.scope hi]
    exact Option.some_ne_none i
  · rw [show u.progress = t.progress from hprogress] at hdone
    obtain ⟨-, -, rfl⟩ | hgf := hcases hgf he
    · rw [hunmarked] at hdone
      cases hdone
    · obtain ⟨hcoh, hmade⟩ := hc.functions hgf he hdone
      exact ⟨hcoh.grows hg (.refl _) (hc.admits hgf he), fun env => (hmade env).grows hg hadmits'⟩
  · rw [show u.progress = t.progress from hprogress] at hdone
    exact (hc.constants c hm hdone env).grows hg hadmits'

theorem declareLambda_introduces (d : FuncDef) (hints : List Ty) :
    Ensures (fun _ _ => True) (declareLambda scope d hints) s fun _ t => Introduces p d s t := by
  have hparams := (lambdaParams_stateless d.params hints).readsOnly
  refine .bind ((hparams s).imp_both (fun _ _ _ => trivial) fun params t heq => ?_)
  subst heq
  refine .bind ((declareFunction_introduces (p := p) d scope (some params)).imp fun r u _ h =>
    .bind (.modify (.pure ?_)))
  exact h.andThen (Leaves.listed scope u _ _ _ _ _ _)

/-- The copy of a template has ids of its own, so it is apart from the constant definitions. -/
theorem makeInstance_introduces (d : FuncDef) (args : List Ty) (depth : Nat) :
    Ensures (fun _ _ => True) (makeInstance d args depth) s fun r t => Growth s t ∧
      (t.refused = [] → Coherence p s → Coherence p t ∧ t.Declared r.1) := by
  have hcopy := d.copy_fresh s.nextId
  refine .bind (.modifyGet ?_)
  unfold Minting at hcopy
  generalize d.copy.run s.nextId = made at hcopy ⊢
  obtain ⟨copy, next⟩ := made
  obtain ⟨hfresh, -⟩ := hcopy
  have hg : Growth s (copied s d copy next) := ⟨.refl _, id, id, id, hfresh.le⟩
  refine .bind ((declareFunction_introduces (p := p) (s := copied s d copy next) copy
    Store.globalScope (some args)).imp fun r t _ h => .bind (.modify (.pure ?_)))
  have h' := h.andThen (Leaves.listed Store.globalScope t (t.store.instances.push r.2)
    (t.store.instanceScopes.push r.1) t.store.lambdas t.store.lambdaScopes
    (⟨d.info.id, args, r.2⟩ :: t.known) (t.active.insert d.info.id (depth + 1)))
  refine ⟨hg.trans h'.growth, fun hr hc => ?_⟩
  exact h'.coherent hr
    (hc.carry hg rfl fun {id g _} hgf hd => ⟨g, hgf, .refl g, hc.admits hgf hd⟩)
    fun node hm hconstant =>
      absurd (hc.bounded hconstant) (Nat.not_lt.mpr (hfresh.bounds node hm).1)

/-! ### Result types -/

/-- A function without a result type gets one. -/
theorem setRet_ensures_set {id : FuncId} {f : FuncSymbol} (hf : s.store.func? id = some f)
    (hnone : f.ret = none) (type : Ty) :
    Ensures (fun _ _ => True) (setRet id type) s fun _ t => Growth s t ∧
      t.store.func? id = some { f with ret := some type } ∧
      (Coherence p s → (∀ d, f.decl = some d → d.Admits (some type)) → Coherence p t) := by
  refine .bind (.store ?_)
  split
  · next st hst =>
    obtain ⟨f', hf', -, rfl⟩ := Store.setRet?_eq_some hst
    rw [hf] at hf'
    cases hf'
    have hset := fun a => s.store.func?_set id a { f with ret := some type } (by rw [hf]; rfl)
    have hfg : f.Grows { f with ret := some type } := ⟨rfl, fun h => by rw [hnone] at h; cases h⟩
    have hg := Growth.of_store (Store.grows_setFunc hf hfg)
    refine .setStore ⟨hg, (hset id).trans (if_pos rfl), fun hc hadmits => ?_⟩
    refine hc.carry hg rfl fun {a g e} hgf he => ?_
    change Store.func? _ a = some g at hgf
    rw [hset] at hgf
    split at hgf
    · next heq =>
      subst heq
      cases hgf
      exact ⟨f, hf, hfg, hadmits e he⟩
    · exact ⟨g, hgf, .refl g, hc.admits hgf he⟩
  · next hst =>
    have hsome := Store.setRet?_eq_none hst hf
    rw [hnone] at hsome
    cases hsome

/-- Returning values of a type from a function decides its result type or agrees with it. -/
theorem returnType_ensures_returned {id : FuncId} {values : List Expr} {types : List Ty}
    {position : Position} (htypes : s.HaveTypes values types) :
    Ensures (fun _ _ => True) (returnType id (joinTypes types) position) s fun _ t =>
      Growth s t ∧ (t.refused = [] → Coherence p s → s.MayReturn id →
        Coherence p t ∧ t.Returned id values) := by
  refine .bind (.bind (.store ?_))
  split
  · next f hf =>
    refine .pure ?_
    have hvalues := htypes.typeOfValues?
    -- Values of the known result type leave everything as it is.
    have hsame : ∀ {ret : Ty}, f.result? = some ret → ret = joinTypes types → Growth s s ∧
        (s.refused = [] → Coherence p s → s.MayReturn id →
          Coherence p s ∧ s.Returned id values) := fun hret heq =>
      ⟨.refl s, fun _ hc _ => ⟨hc, f, _, hf, hvalues, heq ▸ hret⟩⟩
    split
    · next hk =>
      split
      · next hunit => exact .pure (hsame (if_pos hk) (Ty.eq_unit_of_isUnit hunit).symm)
      · exact .fail trivial
    · next hk =>
      split
      · next ret hret =>
        unfold expectType
        split
        · next heq => exact .pure (hsame ((if_neg hk).trans hret) heq)
        · exact .fail trivial
      · next hnone =>
        refine (setRet_ensures_set (p := p) hf hnone _).imp fun _ t _ h => ?_
        obtain ⟨hg, hset, hcoherence⟩ := h
        refine ⟨hg, fun _ hc hmay => ⟨hcoherence hc fun d hd => ?_, _, _, hset,
          hg.typeOfValues? hvalues, if_neg hk⟩⟩
        obtain ⟨f', d', hf', hd', hreturns⟩ := hmay
        rw [hf] at hf'
        cases hf'
        rw [hd] at hd'
        cases hd'
        have hadmits := hc.admits hf hd
        rw [hnone] at hadmits
        exact hadmits.inferred (fun hproc => hk ((hc.kind hf hd).trans hproc)) hreturns
  · exact .fault trivial

/-- At the end of its body, a function that returns a value has a result type. -/
theorem settleReturn_ensures_settled (id : FuncId) :
    Ensures (fun _ _ => True) (settleReturn id) s fun _ t => Growth s t ∧
      (∀ f, t.store.func? id = some f → f.kind.returnsValue = true → f.ret.isSome) ∧
      (Coherence p s → Coherence p t) := by
  refine .bind (.bind (.store ?_))
  split
  · next f hf =>
    refine .pure ?_
    split
    · next hopen =>
      rw [Bool.and_eq_true, Option.isNone_iff_eq_none] at hopen
      refine (setRet_ensures_set (p := p) hf hopen.2 .unit).imp fun _ t _ h => ?_
      obtain ⟨hg, hset, hcoherence⟩ := h
      refine ⟨hg, fun g hgf _ => ?_, fun hc => hcoherence hc fun d hd => ?_⟩
      · rw [hset] at hgf
        cases hgf
        rfl
      · have hadmits := hc.admits hf hd
        rw [hopen.2] at hadmits
        refine hadmits.settled fun hproc => ?_
        rw [hc.kind hf hd, hproc] at hopen
        exact absurd hopen.1 nofun
    · next hclosed =>
      refine .pure ⟨.refl s, fun g hgf hvalue => ?_, fun hc => hc⟩
      rw [hf] at hgf
      cases hgf
      cases hret : f.ret with
      | some type => rfl
      | none => simp [hvalue, hret] at hclosed
  · exact .fault trivial

end Check

end Frontend
