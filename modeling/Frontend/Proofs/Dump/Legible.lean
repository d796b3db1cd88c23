import Frontend.Proofs.Dump.Names
import Frontend.Proofs.Dump.Types
import Frontend.Proofs.Types.Slots

/-!
# Symbols that can be told apart from their surroundings

In a legible store the names of all symbols are plain and their types are printed within a line;
the scopes in its lists belong to functions that are not builtin, those of lambdas to lambdas and
those of global functions to none. `StaysLegible` says of an action that its runs keep the store
legible; there is a rule for each way to build an action, and one for each operation that writes to
the store.
-/

namespace Frontend

/-- A variable with a plain name, whose type is printed within a line. -/
structure VarSymbol.Legible (v : VarSymbol) : Prop where
  name : IsPlain v.name
  type : HintInline v.type

/-- A function with plain names, whose types are printed within a line. -/
structure FuncSymbol.Legible (f : FuncSymbol) : Prop where
  name : IsPlain f.name
  params : ∀ v ∈ f.params, v.Legible
  ret : HintInline f.ret
  decl : ∀ d ∈ f.decl, d.Legible

namespace Store

/-- The scope of a function that is not builtin and whose kind is one of some. -/
def IsScopeOf (s : Store) (kinds : FuncKind → Prop) (id : ScopeId) : Prop :=
  ∃ f, s.scopeFunc? id = some f ∧ f.isBuiltin = false ∧ kinds f.kind

/-- All symbols of a store are legible, and its lists hold scopes of functions. -/
structure Legible (s : Store) : Prop where
  func : ∀ {id f}, s.func? id = some f → f.Legible
  constant : ∀ {i : Nat} {v}, s.constants[i]? = some v → v.Legible
  block : ∀ {v}, s.HasLocal v → v.Legible
  functions : ∀ id ∈ s.functionScopes, s.IsScopeOf (· ≠ .lambda) id
  instances : ∀ id ∈ s.instanceScopes, s.IsScopeOf (fun _ => True) id
  lambdas : ∀ id ∈ s.lambdaScopes, s.IsScopeOf (· = .lambda) id

variable {s t : Store}

theorem IsScopeOf.grows {kinds : FuncKind → Prop} {id : ScopeId} (h : s.IsScopeOf kinds id)
    (hg : s.Grows t) : t.IsScopeOf kinds id := by
  obtain ⟨f, hf, hbuiltin, hkind⟩ := h
  obtain ⟨g, hgf, hfg⟩ := hg.scopeFunc? hf
  exact ⟨g, hgf, hfg.isBuiltin.trans hbuiltin, hfg.kind ▸ hkind⟩

namespace Legible

/-- Symbols that are new must be legible, the lists stay. -/
theorem carry (h : s.Legible) (hg : s.Grows t)
    (hfunc : ∀ {id f}, t.func? id = some f → s.func? id = some f ∨ f.Legible)
    (hconstant : ∀ {i : Nat} {v}, t.constants[i]? = some v →
      s.constants[i]? = some v ∨ v.Legible)
    (hblock : ∀ {v}, t.HasLocal v → s.HasLocal v ∨ v.Legible)
    (hlists : t.functionScopes = s.functionScopes ∧ t.instanceScopes = s.instanceScopes ∧
      t.lambdaScopes = s.lambdaScopes) : t.Legible where
  func hf := (hfunc hf).elim (fun hf => h.func hf) id
  constant hv := (hconstant hv).elim (fun hv => h.constant hv) id
  block hv := (hblock hv).elim (fun hv => h.block hv) id
  functions id hm := (h.functions id (hlists.1 ▸ hm)).grows hg
  instances id hm := (h.instances id (hlists.2.1 ▸ hm)).grows hg
  lambdas id hm := (h.lambdas id (hlists.2.2 ▸ hm)).grows hg

/-- The variable under a handle is legible. -/
theorem var? (h : s.Legible) {handle : VarHandle} {v : VarSymbol}
    (hv : s.var? handle = some v) : v.Legible := by
  cases handle with
  | constant i => exact h.constant hv
  | param scope i =>
    obtain ⟨f, hf, hparam⟩ := Option.bind_eq_some_iff.mp hv
    obtain ⟨id, -, hf⟩ := Option.bind_eq_some_iff.mp hf
    exact (h.func hf).params v (List.mem_of_getElem? hparam)
  | inner scope i =>
    simp only [Store.var?] at hv
    split at hv
    · next heq => exact h.block ⟨_, _, _, _, heq, Array.mem_of_getElem? hv⟩
    · cases hv

/-- A function and its scope are added. -/
theorem openFunction (h : s.Legible) {f : FuncSymbol} (hf : f.Legible) (enclosing : ScopeId) :
    ((s.addFunc f).2.openFunction (some (s.addFunc f).1) enclosing).2.Legible ∧
      (((s.addFunc f).2.openFunction (some (s.addFunc f).1) enclosing).2).scopeFunc?
        ((s.addFunc f).2.openFunction (some (s.addFunc f).1) enclosing).1 = some f := by
  obtain ⟨t, ht, hopens, hnew, hfunc, hold, hconstants, -⟩ := s.addFunc_openFunction f enclosing
  change ((s.addFunc f).2.openFunction (some s.funcs.size) enclosing).2.Legible ∧
    (((s.addFunc f).2.openFunction (some s.funcs.size) enclosing).2).scopeFunc?
      ((s.addFunc f).2.openFunction (some s.funcs.size) enclosing).1 = some f
  have hlists : t.functionScopes = s.functionScopes ∧ t.instanceScopes = s.instanceScopes ∧
      t.lambdaScopes = s.lambdaScopes := by
    cases ht
    exact ⟨rfl, rfl, rfl⟩
  rw [ht]
  refine ⟨h.carry (hopens.grows (fun {i g} hg => ?_) hconstants) (fun {i g} hg => ?_)
    (fun hv => .inl (hconstants ▸ hv)) (fun hv => ?_) hlists, ?_⟩
  · rw [hold fun heq => by rw [heq, hnew] at hg; cases hg]
    exact hg
  · by_cases heq : i = s.funcs.size
    · rw [heq, hfunc] at hg
      cases hg
      exact .inr hf
    · exact .inl ((hold heq).symm.trans hg)
  · rcases hopens.hasLocal hv with hv | ⟨_, hvars, -⟩
    · exact .inl hv
    · cases hvars
  · have hid : t.scopeFuncId? s.scopes.size = some s.funcs.size := by
      simp only [Store.scopeFuncId?, hopens.opened]
    simp only [Store.scopeFunc?, hid, Option.bind_some, hfunc]

theorem openBlock (h : s.Legible) {parent id : ScopeId}
    (ht : s.openBlock parent = .ok (id, t)) : t.Legible := by
  obtain ⟨hopens, hfuncs, hconstants, -⟩ := Store.openBlock_eq_ok ht
  have hfunc : ∀ id, t.func? id = s.func? id := fun id => by
    rw [Store.func?, Store.func?, hfuncs]
  have hlists : t.functionScopes = s.functionScopes ∧ t.instanceScopes = s.instanceScopes ∧
      t.lambdaScopes = s.lambdaScopes := by
    unfold Store.openBlock at ht
    split at ht <;> cases ht <;> exact ⟨rfl, rfl, rfl⟩
  refine h.carry (hopens.grows (fun hf => by rw [hfunc]; exact hf) hconstants)
    (fun hf => .inl ((hfunc _).symm.trans hf)) (fun hv => .inl (hconstants ▸ hv)) (fun hv => ?_)
    hlists
  rcases hopens.hasLocal hv with hv | ⟨vars, hvars, hm⟩
  · exact .inl hv
  · cases hvars
    exact absurd hm (Array.not_mem_empty _)

theorem defineVar (h : s.Legible) {id : ScopeId} {v : VarSymbol} (hv : v.Legible)
    {handle : VarHandle} (hblock : s.isBlock id = true)
    (ht : s.defineVar id v = .ok (handle, t)) : t.Legible := by
  obtain ⟨vars, outer, blocks, hbefore, -, hafter, hother, hfuncs, hconstants, -⟩ :=
    Store.defineVar_eq_ok hblock ht
  have hfunc : ∀ id, t.func? id = s.func? id := fun id => by
    rw [Store.func?, Store.func?, hfuncs]
  have hlists : t.functionScopes = s.functionScopes ∧ t.instanceScopes = s.instanceScopes ∧
      t.lambdaScopes = s.lambdaScopes := by
    unfold Store.defineVar at ht
    split at ht <;> cases ht
    exact ⟨rfl, rfl, rfl⟩
  refine h.carry (Store.grows_defineVar hbefore hafter hother hfunc hconstants)
    (fun hf => .inl ((hfunc _).symm.trans hf)) (fun hc => .inl (hconstants ▸ hc))
    (fun {w} hw => ?_) hlists
  obtain ⟨i, vars', outer', blocks', hi, hm⟩ := hw
  by_cases heq : i = id
  · rw [heq, hafter] at hi
    cases hi
    rcases Array.mem_push.mp hm with hm | rfl
    · exact .inl ⟨id, vars, outer, blocks, hbefore, hm⟩
    · exact .inr hv
  · rw [hother i heq] at hi
    exact .inl ⟨i, vars', outer', blocks', hi, hm⟩

theorem setRet? (h : s.Legible) {id : FuncId} {type : Ty} (htype : type.Inline)
    (ht : s.setRet? id type = some t) : t.Legible := by
  obtain ⟨f, hf, hnone, rfl⟩ := Store.setRet?_eq_some ht
  have hset := fun a => s.func?_set id a { f with ret := some type } (by rw [hf]; rfl)
  have hfg : f.Grows { f with ret := some type } := ⟨rfl, fun h => by rw [hnone] at h; cases h⟩
  refine h.carry (Store.grows_setFunc hf hfg) (fun {a g} hg => ?_) .inl .inl ⟨rfl, rfl, rfl⟩
  rw [hset] at hg
  split at hg
  · cases hg
    have hlegible := h.func hf
    exact .inr ⟨hlegible.name, hlegible.params, hintInline_some.mpr htype, hlegible.decl⟩
  · exact .inl hg

theorem setConstantType? (h : s.Legible) {index : Nat} {type : Ty} (htype : type.Inline)
    (ht : s.setConstantType? index type = some t) : t.Legible := by
  obtain ⟨v, hv, hnone, rfl⟩ := Store.setConstantType?_eq_some ht
  have hvw : v.Grows { v with type := some type } := ⟨rfl, fun h => by rw [hnone] at h; cases h⟩
  refine h.carry (Store.grows_setConstant hv hvw) .inl (fun {i w} hw => ?_) .inl ⟨rfl, rfl, rfl⟩
  rw [Array.getElem?_setIfInBounds] at hw
  split at hw
  · split at hw <;> cases hw
    exact .inr ⟨(h.constant hv).name, hintInline_some.mpr htype⟩
  · exact .inl hw

end Legible

end Store

/-! ### Ways to build an action -/

/-- Runs of an action keep the store legible, and a result is as it should be. -/
def StaysLegible {α : Type} (act : Check α) (good : α → Prop) : Prop :=
  ∀ s, s.store.Legible → Ensures (fun _ _ => True) act s fun a t => t.store.Legible ∧ good a

namespace StaysLegible

variable {α β : Type} {act : Check α} {good good' : α → Prop}

theorem imp (h : StaysLegible act good) (hg : ∀ a, good a → good' a) : StaysLegible act good' :=
  fun s hs => (h s hs).imp fun a _ _ ht => ⟨ht.1, hg a ht.2⟩

theorem pure {a : α} (h : good a) : StaysLegible (pure a) good := fun _ hs => .pure ⟨hs, h⟩

theorem bind {f : α → Check β} {good' : β → Prop} (h : StaysLegible act good)
    (hf : ∀ a, good a → StaysLegible (f a) good') : StaysLegible (act >>= f) good' :=
  fun s hs => .bind ((h s hs).imp fun a t _ ht => hf a ht.2 t ht.1)

theorem map {f : α → β} {good : β → Prop} (h : StaysLegible act fun a => good (f a)) :
    StaysLegible (f <$> act) good := fun s hs => .map (h s hs)

theorem get : StaysLegible (MonadState.get : Check AnalysisState) fun s => s.store.Legible :=
  fun _ hs => .get ⟨hs, hs⟩

theorem store : StaysLegible Check.store Store.Legible := fun _ hs => .store ⟨hs, hs⟩

theorem setStore {st : Store} (h : st.Legible) :
    StaysLegible (Check.setStore st) fun _ => True := fun _ _ => .setStore ⟨h, trivial⟩

theorem fail {cause : Cause} {position : Position} :
    StaysLegible (Check.fail cause position : Check α) good := fun _ _ => .fail trivial

theorem fault {f : Fault} : StaysLegible (Check.fault f : Check α) good :=
  fun _ _ => .fault trivial

theorem ofResult {r : Except Failure α} (h : ∀ a, r = .ok a → good a) :
    StaysLegible (Check.ofResult r) good :=
  fun _ hs => .ofResult (fun _ _ => trivial) fun a ha => ⟨hs, h a ha⟩

/-- A check that does not look at the state. -/
theorem yields (h : Yields (fun _ => True) act good) : StaysLegible act good := by
  obtain ⟨r, rfl, hr⟩ := h
  exact .ofResult hr.ok

/-- The store is not written to. -/
theorem modify {f : AnalysisState → AnalysisState} (h : ∀ s, (f s).store = s.store) :
    StaysLegible (modify f : Check PUnit) fun _ => True :=
  fun s hs => .modify ⟨h s ▸ hs, trivial⟩

theorem andFinally {after : AnalysisState → AnalysisState} (h : StaysLegible act good)
    (hafter : ∀ s, (after s).store = s.store) :
    StaysLegible (Check.andFinally act after) good :=
  fun s hs => .andFinally ((h s hs).imp fun _ t _ ht => ⟨hafter t ▸ ht.1, ht.2⟩)

end StaysLegible

end Frontend
