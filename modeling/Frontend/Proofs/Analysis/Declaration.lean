import Frontend.Proofs.Analysis.Opening
import Frontend.Proofs.Tree.Denotation

/-!
# Declaring functions

The symbol of a function has the names and, for an instance or a lambda, the types that it is
declared with, and its scope matches the layer of its parameters.
-/

namespace Frontend

/-! ### Symbols of parameters -/

/-- No annotation denotes a placeholder. -/
theorem TypeExpr.not_isTemplate_of_resolve {written : TypeExpr} {type : Ty}
    (h : written.resolve = .ok type) : type.isTemplate = false := by
  unfold resolve at h
  split at h
  · split at h
    · cases h
      rfl
    · split at h
      · obtain ⟨elem, -, hr⟩ := bind_eq_ok.mp h
        cases hr
        rfl
      · cases h
    · cases h
  · obtain ⟨elem, -, hr⟩ := bind_eq_ok.mp h
    cases hr
    rfl
  · obtain ⟨key, -, h⟩ := bind_eq_ok.mp h
    obtain ⟨value, -, hr⟩ := bind_eq_ok.mp h
    cases hr
    rfl
  · obtain ⟨elems, -, hr⟩ := bind_eq_ok.mp h
    cases hr
    rfl
  · obtain ⟨params, -, hr⟩ := bind_eq_ok.mp h
    cases hr
    rfl
  · obtain ⟨params, -, hr⟩ := bind_eq_ok.mp h
    cases hr
    rfl
  · obtain ⟨params, -, h⟩ := bind_eq_ok.mp h
    obtain ⟨ret, -, hr⟩ := bind_eq_ok.mp h
    cases hr
    rfl
  · obtain ⟨inner, -, hr⟩ := bind_eq_ok.mp h
    cases hr
    rfl

theorem paramSymbols_cons {used : List String} {concrete : Option (List Ty)} {param : Param}
    {rest : List Param} {symbols : List VarSymbol}
    (h : paramSymbols used concrete (param :: rest) = .ok symbols) :
    ∃ type symbols', paramType concrete param = .ok type ∧
      paramSymbols (param.name :: used) (concrete.map List.tail) rest = .ok symbols' ∧
      symbols = ⟨param.name, some type, param.isVar⟩ :: symbols' := by
  rw [paramSymbols] at h
  split at h
  · cases h
  · obtain ⟨type, ht, h⟩ := bind_eq_ok.mp h
    obtain ⟨symbols', hs, h⟩ := bind_eq_ok.mp h
    cases h
    exact ⟨type, symbols', ht, hs, rfl⟩

theorem paramSymbols_names {params : List Param} {used : List String}
    {concrete : Option (List Ty)} {symbols : List VarSymbol}
    (h : paramSymbols used concrete params = .ok symbols) :
    symbols.map (·.name) = params.map (·.name) := by
  induction params generalizing used concrete symbols with
  | nil =>
    cases h
    rfl
  | cons param rest ih =>
    obtain ⟨type, symbols', -, hs, rfl⟩ := paramSymbols_cons h
    rw [List.map_cons, List.map_cons, ih hs]

/-- With given types, the parameters have these. -/
theorem paramSymbols_types {params : List Param} {used : List String} {types : List Ty}
    {symbols : List VarSymbol} (h : paramSymbols used (some types) params = .ok symbols)
    (hlen : types.length = params.length) :
    symbols.map (fun v => v.type.getD .unit) = types := by
  induction params generalizing used types symbols with
  | nil =>
    cases h
    exact (List.length_eq_zero_iff.mp hlen).symm
  | cons param rest ih =>
    obtain ⟨type, symbols', ht, hs, rfl⟩ := paramSymbols_cons h
    cases types with
    | nil => cases hlen
    | cons type' types =>
      cases ht
      rw [List.map_cons, ih hs (Nat.succ.inj hlen)]
      rfl

/-- Without given types, the placeholders are the parameters without an annotation. -/
theorem paramSymbols_isTemplate {params : List Param} {used : List String}
    {symbols : List VarSymbol} (h : paramSymbols used none params = .ok symbols) :
    symbols.any VarSymbol.isTemplate = params.any (·.type.isNone) := by
  induction params generalizing used symbols with
  | nil =>
    cases h
    rfl
  | cons param rest ih =>
    obtain ⟨type, symbols', ht, hs, rfl⟩ := paramSymbols_cons h
    rw [List.any_cons, List.any_cons, ih hs]
    congr 1
    unfold paramType at ht
    cases hwritten : param.type with
    | none =>
      rw [hwritten] at ht
      cases ht
      rfl
    | some written =>
      rw [hwritten] at ht
      change (written.resolve.mapError Failure.error) = .ok type at ht
      cases hresolve : written.resolve with
      | error e =>
        rw [hresolve] at ht
        cases ht
      | ok type' =>
        rw [hresolve] at ht
        cases ht
        exact TypeExpr.not_isTemplate_of_resolve hresolve

/-- Given types, if there are any, are one for each parameter. -/
def FitParams (concrete : Option (List Ty)) (params : List Param) : Prop :=
  ∀ types, concrete = some types → types.length = params.length

theorem FitParams.tail {concrete : Option (List Ty)} {param : Param} {rest : List Param}
    (h : FitParams concrete (param :: rest)) : FitParams (concrete.map List.tail) rest := by
  rintro _ htail
  obtain ⟨types, rfl, rfl⟩ := Option.map_eq_some_iff.mp htail
  rw [List.length_tail, h types rfl, List.length_cons, Nat.add_sub_cancel]

/-- A refused annotation is not reported as a return statement. -/
theorem TypeExpr.not_isStrayReturn {written : TypeExpr} {e : Error}
    (h : written.resolve = .error e) : ¬ e.IsStrayReturn := by
  intro hstray
  have hcause : e.cause.isUnknownType = true := written.resolve_failsOnly e h
  rw [hstray] at hcause
  cases hcause

theorem paramType_error {concrete : Option (List Ty)} {param : Param} {rest : List Param}
    {e : Failure} (hfit : FitParams concrete (param :: rest))
    (h : paramType concrete param = .error e) :
    ∃ error : Error, e = .error error ∧ ¬ error.IsStrayReturn := by
  unfold paramType at h
  split at h
  · cases h
  · exact absurd (hfit [] rfl) nofun
  · next written _ =>
    cases hresolve : written.resolve <;> rw [hresolve] at h <;> cases h
    exact ⟨_, rfl, written.not_isStrayReturn hresolve⟩
  · cases h

theorem paramSymbols_error {params : List Param} {used : List String}
    {concrete : Option (List Ty)} {e : Failure} (hfit : FitParams concrete params)
    (h : paramSymbols used concrete params = .error e) :
    ∃ error : Error, e = .error error ∧ ¬ error.IsStrayReturn := by
  induction params generalizing used concrete with
  | nil => cases h
  | cons param rest ih =>
    rw [paramSymbols] at h
    split at h
    · cases h
      exact ⟨_, rfl, nofun⟩
    · cases htype : paramType concrete param with
      | error e' =>
        rw [htype] at h
        cases h
        exact paramType_error hfit htype
      | ok type =>
        rw [htype] at h
        cases hrest : paramSymbols (param.name :: used) (concrete.map List.tail) rest with
        | error e' =>
          change (paramSymbols (param.name :: used) (concrete.map List.tail) rest >>= _) = _ at h
          rw [hrest] at h
          cases h
          exact ih hfit.tail hrest
        | ok symbols =>
          change (paramSymbols (param.name :: used) (concrete.map List.tail) rest >>= _) = _ at h
          rw [hrest] at h
          cases h

/-! ### The symbol and the scope of a function -/

/-- The ids of the nodes that the declaration of a function writes to. -/
def FuncDef.headIds (d : FuncDef) : List Nat := d.info.id :: d.params.map (·.info.id)

theorem FuncDef.headIds_append_bodyIds (d : FuncDef) :
    (d.headIds ++ (Definition.function d).bodyIds).Sublist d.ids := by
  obtain ⟨info, kind, name, params, returnType, body, ensureBody⟩ := d
  simp only [headIds, Definition.bodyIds, FuncDef.ids, List.cons_append, List.append_assoc]
  exact ((heads_sublist Param.head_sublist params).append
    (List.sublist_append_right _ _)).cons_cons info.id

/-- What the declaration of a function changes. -/
structure Announced (s t : AnalysisState) (d : FuncDef) (enclosing scope : ScopeId)
    (id : FuncId) (f : FuncSymbol) : Prop where
  opens : s.store.Opens t.store scope ⟨.function (some id), s.store.chain enclosing, #[]⟩
  id_new : s.store.func? id = none
  func : t.store.func? id = some f
  func_old : ∀ {i}, i ≠ id → t.store.func? i = s.store.func? i
  constants : t.store.constants = s.store.constants
  functions : t.store.functions = s.store.functions
  frame : ∀ {node}, node ∉ d.headIds → t.slots node = s.slots node
  type : ∀ node : Nat, t.types[node]? = s.types[node]?
  progress : ∀ node : Nat, t.progress[node]? = s.progress[node]?
  link : ∀ {node : Nat} {target}, s.links[node]? = some target → t.links[node]? = some target
  scope_old : ∀ {node : Nat} {i}, s.scopes[node]? = some i → t.scopes[node]? = some i
  copies : t.copies = s.copies
  known : t.known = s.known
  active : t.active = s.active
  nextId : t.nextId = s.nextId
  refused : t.refused = s.refused
  decl : f.decl = some d
  declares : Declares t id f d scope

/-- A function symbol and its scope are added behind all others. -/
theorem Store.addFunc_openFunction (s : Store) (f : FuncSymbol) (enclosing : ScopeId) :
    ∃ t, (s.addFunc f).2.openFunction (some s.funcs.size) enclosing = (s.scopes.size, t) ∧
      s.Opens t s.scopes.size ⟨.function (some s.funcs.size), s.chain enclosing, #[]⟩ ∧
      s.func? s.funcs.size = none ∧ t.func? s.funcs.size = some f ∧
      (∀ {i}, i ≠ s.funcs.size → t.func? i = s.func? i) ∧ t.constants = s.constants ∧
      t.functions = s.functions := by
  refine ⟨_, rfl, ⟨rfl, ?_, fun {i b} hb => ⟨b, ?_, rfl, rfl⟩, fun {i c} hc => ?_⟩, ?_, ?_,
    fun {i} hi => ?_, rfl, rfl⟩
  · exact Array.getElem?_push_size
  · have hlt : i < s.scopes.size := (Array.getElem?_eq_some_iff.mp hb).1
    change (s.scopes.push _)[i]? = some b
    rw [Array.getElem?_push, if_neg (by omega)]
    exact hb
  · have hlt : i < (s.scopes.push _).size := (Array.getElem?_eq_some_iff.mp hc).1
    rw [Array.size_push] at hlt
    by_cases heq : i = s.scopes.size
    · exact .inl heq
    · exact .inr ⟨_, Array.getElem?_eq_getElem (by omega)⟩
  · exact Array.getElem?_eq_none (Nat.le_refl _)
  · exact Array.getElem?_push_size
  · change (s.funcs.push f)[i]? = s.funcs[i]?
    rw [Array.getElem?_push, if_neg hi]

namespace Check

variable {s : AnalysisState} {refuse : Failure → AnalysisState → Prop}

/-- What is written has a type, if it is not refused. -/
theorem denoted?_ensures {written : Option TypeExpr}
    (hrefuse : ∀ e : Error, ¬ e.IsStrayReturn → refuse (.error e) s) :
    Ensures refuse (denoted? written) s fun type t => t = s ∧ type.isSome = written.isSome := by
  cases written with
  | none => exact .pure ⟨rfl, rfl⟩
  | some written =>
    refine .bind (.ofResult (fun e he => ?_) fun _ _ => .pure ⟨rfl, rfl⟩)
    cases hresolve : written.resolve <;> rw [hresolve] at he <;> cases he
    exact hrefuse _ (written.not_isStrayReturn hresolve)

theorem linkParams_ensures {scope : ScopeId} {params : List Param} {index : Nat}
    (hnodup : (params.map (·.info.id)).Nodup)
    (hnone : ∀ q ∈ params, s.links[q.info.id]? = none) :
    Ensures refuse (linkParams scope index params) s fun _ t =>
      ∃ links : Std.TreeMap Nat Link, t = { s with links } ∧
        (∀ node, node ∉ params.map (·.info.id) → links[node]? = s.links[node]?) ∧
        ∀ (i : Nat) (q : Param), params[i]? = some q →
          links[q.info.id]? = some (.var (.param scope (index + i))) := by
  induction params generalizing s index with
  | nil => exact .pure ⟨s.links, rfl, fun _ _ => rfl, nofun⟩
  | cons q rest ih =>
    rw [List.map_cons, List.nodup_cons] at hnodup
    have hq := hnone q List.mem_cons_self
    have hcontains : s.links.contains q.info.id = false := by
      rw [Std.TreeMap.contains_eq_isSome_getElem?, hq]
      rfl
    refine .bind (.modify ?_)
    simp only [Resolution.link, hcontains, Bool.false_eq_true, if_false]
    refine (ih hnodup.2 fun r hr => ?_).imp fun _ t _ h => ?_
    · have hne : q.info.id ≠ r.info.id := fun heq =>
        hnodup.1 (heq ▸ List.mem_map_of_mem hr)
      rw [getElem?_insert, if_neg hne]
      exact hnone r (List.mem_cons_of_mem _ hr)
    · obtain ⟨links, rfl, hframe, hlinks⟩ := h
      refine ⟨links, rfl, fun node hm => ?_, fun i r hi => ?_⟩
      · rw [List.map_cons, List.mem_cons, not_or] at hm
        rw [hframe node hm.2, getElem?_insert, if_neg (Ne.symm hm.1)]
      · cases i with
        | zero =>
          cases hi
          rw [hframe q.info.id hnodup.1, getElem?_insert, if_pos rfl, Nat.add_zero]
        | succ i =>
          rw [hlinks i r hi, Nat.add_assoc, Nat.add_comm 1 i]

/-- The declaration of a function makes its symbol and its scope. -/
theorem declareFunction_ensures {d : FuncDef} {enclosing : ScopeId} {concrete : Option (List Ty)}
    (hrefuse : ∀ e : Error, ¬ e.IsStrayReturn → refuse (.error e) s) (hfit : FitParams concrete d.params)
    (hnodup : d.headIds.Nodup) (hscope : s.scopes[d.info.id]? = none)
    (hlink : ∀ q ∈ d.params, s.links[q.info.id]? = none) :
    Ensures refuse (declareFunction d enclosing concrete) s fun r t => ∃ f,
      Announced s t d enclosing r.1 r.2 f ∧
        (∀ {types}, concrete = some types → types.length = d.params.length →
          f.paramTypes = types) ∧ (concrete = none → f.isTemplate = d.isTemplate) := by
  unfold FuncDef.headIds at hnodup
  rw [List.nodup_cons] at hnodup
  refine .bind (.ofResult (fun e he => ?_) fun params hparams => ?_)
  · obtain ⟨error, rfl, hstray⟩ := paramSymbols_error hfit he
    exact hrefuse error hstray
  refine .bind ((denoted?_ensures hrefuse).imp fun ret t _ h => ?_)
  obtain ⟨rfl, -⟩ := h
  refine .bind (.store (.bind (.setStore (.bind ?_))))
  obtain ⟨st, hst, hopens, hnew, hfunc, hold, hconstants, hfunctions⟩ :=
    t.store.addFunc_openFunction ⟨d.name, params, ret, d.kind, false, some d⟩ enclosing
  change Ensures refuse (linkParams t.store.scopes.size 0 d.params) { t with
    store := ((t.store.addFunc _).2.openFunction (some t.store.funcs.size) enclosing).2 } _
  rw [hst]
  refine Ensures.imp (linkParams_ensures hnodup.2 hlink) fun _ u _ h => ?_
  obtain ⟨links, rfl, hframe, hlinks⟩ := h
  have hcontains : t.scopes.contains d.info.id = false := by
    rw [Std.TreeMap.contains_eq_isSome_getElem?, hscope]
    rfl
  refine .bind (.modify (.pure ?_))
  simp only [Resolution.setScope, hcontains, Bool.false_eq_true, if_false]
  have hid : st.scopeFuncId? t.store.scopes.size = some t.store.funcs.size := by
    simp only [Store.scopeFuncId?, hopens.opened]
  have hnames : params.map (·.name) = d.params.map (·.name) := paramSymbols_names hparams
  refine ⟨_, ⟨hopens, hnew, hfunc, hold, hconstants, hfunctions, fun {node} hn => ?_, fun _ => rfl,
    fun _ => rfl, fun {node target} hl => ?_, fun {node i} hs => ?_, rfl, rfl, rfl, rfl, rfl, rfl,
    hid, rfl, rfl, rfl, ?_⟩, ?_, ?_⟩
  · rw [FuncDef.headIds, List.mem_cons, not_or] at hn
    simp only [AnalysisState.slots, getElem?_insert, if_neg (Ne.symm hn.1), hframe node hn.2]
  · by_cases hm : node ∈ d.params.map (·.info.id)
    · obtain ⟨q, hq, rfl⟩ := List.mem_map.mp hm
      rw [hlink q hq] at hl
      cases hl
    · exact (hframe node hm).trans hl
  · exact getElem?_insert_of_some hscope hs
  · have hhandle : ∀ i, st.handleIn t.store.scopes.size i = .param t.store.scopes.size i :=
      fun i => by simp only [Store.handleIn, hopens.opened]
    refine ⟨?_, (by simp [FuncDef.layer]), fun i => by rw [hhandle]; rfl, ?_,
      fun {i name node} hi => ?_⟩
    · rintro node ⟨⟩
      simp only [getElem?_insert, if_true]
    · have hscopeFunc : st.scopeFunc? t.store.scopes.size =
          some ⟨d.name, params, ret, d.kind, false, some d⟩ := by
        rw [Store.scopeFunc?, hid]
        exact hfunc
      simp only [Store.namesIn, hopens.opened, hscopeFunc, Option.map_some, Option.getD_some,
        hnames, FuncDef.layer, List.map_map]
      rfl
    · simp only [FuncDef.layer, List.getElem?_map, Option.map_eq_some_iff, Prod.mk.injEq] at hi
      obtain ⟨q, hq, -, rfl⟩ := hi
      rw [hhandle]
      exact (hlinks i q hq).trans (by rw [Nat.zero_add])
  · rintro types rfl hlen
    exact paramSymbols_types hparams hlen
  · rintro rfl
    exact paramSymbols_isTemplate hparams

end Check

namespace Announced

variable {s t : AnalysisState} {d : FuncDef} {enclosing scope : ScopeId} {id : FuncId}
  {f : FuncSymbol}

theorem func_of_some (h : Announced s t d enclosing scope id f) {i : FuncId} {g : FuncSymbol}
    (hg : s.store.func? i = some g) : t.store.func? i = some g := by
  have hne : i ≠ id := by
    rintro rfl
    rw [h.id_new] at hg
    cases hg
  rw [h.func_old hne]
  exact hg

theorem grows (h : Announced s t d enclosing scope id f) : s.Grows t where
  store := h.opens.grows h.func_of_some h.constants
  type {node _} ht := (h.type node).trans ht
  link := h.link
  scope := h.scope_old
  done {node} hp := (h.progress node).trans hp
  begun {node} hp := by rw [h.progress]; exact hp
  copies hm := by rw [h.copies]; exact hm
  known hm := by rw [h.known]; exact hm

theorem linked (h : Announced s t d enclosing scope id f)
    (hs : ∀ {scope id}, s.store.scopeFuncId? scope = some id → (s.store.func? id).isSome)
    {i : ScopeId} {j : FuncId} (hi : t.store.scopeFuncId? i = some j) :
    (t.store.func? j).isSome := by
  rcases h.opens.scopeFuncId? hi with ⟨-, hbody⟩ | hi
  · cases hbody
    rw [h.func]
    rfl
  · obtain ⟨g, hg⟩ := Option.isSome_iff_exists.mp (hs hi)
    rw [h.func_of_some hg]
    rfl

/-- The new symbol is the only one that was not there. -/
theorem eq_of_new (h : Announced s t d enclosing scope id f) {i : FuncId} {g : FuncSymbol}
    (hg : t.store.func? i = some g) (hn : s.store.func? i = none) : i = id ∧ g = f := by
  by_cases heq : i = id
  · subst heq
    rw [h.func] at hg
    exact ⟨rfl, (Option.some.inj hg).symm⟩
  · rw [h.func_old heq, hn] at hg
    cases hg

/-- The lists at the end of the store do not matter. -/
theorem listed (h : Announced s t d enclosing scope id f) (functionScopes : Array ScopeId)
    (instances : Array FuncId) (instanceScopes : Array ScopeId) (lambdas : Array FuncId)
    (lambdaScopes : Array ScopeId) :
    Announced s { t with store := { t.store with
      functionScopes, instances, instanceScopes, lambdas, lambdaScopes } } d enclosing scope id f :=
  ⟨⟨h.opens.id_eq, h.opens.opened, h.opens.old, h.opens.back⟩, h.id_new, h.func, h.func_old,
    h.constants, h.functions, h.frame, h.type, h.progress, h.link, h.scope_old, h.copies, h.known,
    h.active, h.nextId, h.refused, h.decl,
    ⟨h.declares.func, h.declares.isBuiltin, h.declares.kind, h.declares.name,
      ⟨h.declares.layer.owner, h.declares.layer.root, h.declares.layer.home,
        h.declares.layer.names, h.declares.layer.links⟩⟩⟩

/-- A function that is declared while its nodes are at hand. -/
theorem step {p : Program} (h : Announced s t d enclosing scope id f) (hi : Inv p s)
    (hw : Writable p s d.headIds) : Step p none d.headIds s t := by
  refine Step.owned hi h.grows hw.owned h.copies h.known h.active h.nextId h.refused
    h.functions (by rw [h.constants]) h.frame (h.linked hi.linked) ?_ ?_ (fun n hn htype => ?_)
    (h.opens.outer rfl hi.outer) ?_
  · intro i g e hg hd hn
    obtain ⟨rfl, rfl⟩ := h.eq_of_new hg hn
    rw [h.decl] at hd
    cases hd
    exact ⟨scope, h.declares⟩
  · intro i g e hdef hg hd hdone hret
    rw [h.progress] at hdone
    by_cases heq : i = id
    · subst heq
      rw [h.func] at hg
      cases hg
      rw [h.decl] at hd
      cases hd
      have hnone : s.progress[d.info.id]? = none :=
        congrArg Slots.progress (hw.empty d.info.id List.mem_cons_self)
      rw [hnone] at hdone
      cases hdone
    · rw [h.func_old heq] at hg
      exact hi.settled hdef hg hd hdone hret
  · rw [h.type, show s.types[n]? = none from congrArg Slots.type (hw.empty n hn)] at htype
    cases htype
  · intro i a b ha hb _
    obtain ⟨c, hc, hbody, -⟩ := h.opens.old ha
    rw [hb] at hc
    cases hc
    exact hbody

/-- The scope of a function sees its parameters and what is around it. -/
theorem matches_env {p : Program} {env : Env} (h : Announced s t d enclosing scope id f)
    (hi : Inv p s) (hs : Step p none d.headIds s t) (he : env.Matches s enclosing) :
    Env.Matches t (d.layer :: env) scope := by
  refine ⟨⟨_, h.opens.opened⟩, ?_⟩
  rw [h.opens.chain]
  exact .cons h.declares.layer (hs.toAdvance.matches_layers hi he.layers
    (fun i => hi.scope_of_mem_chain) nofun)

end Announced

/-- The sites in the head of a declared function are resolved. -/
theorem Declares.resolved {s : AnalysisState} {d : FuncDef} {id : FuncId} {f : FuncSymbol}
    {scope : ScopeId} (h : Declares s id f d scope) :
    ∀ site ∈ Site.scope d.info :: paramSites d.params, site.id ∈ d.headIds ∧ site.Resolved s := by
  intro site hm
  rcases List.mem_cons.mp hm with rfl | hm
  · exact ⟨List.mem_cons_self, Option.isSome_iff_exists.mpr ⟨scope, h.layer.owner rfl⟩⟩
  · obtain ⟨q, hq, rfl⟩ := List.mem_map.mp hm
    refine ⟨List.mem_cons_of_mem _ (List.mem_map_of_mem hq), fun _ => ?_⟩
    obtain ⟨i, hi⟩ := List.mem_iff_getElem?.mp hq
    have hname : d.layer.names[i]? = some (q.name, q.info.id) := by
      simp only [FuncDef.layer, List.getElem?_map, hi, Option.map_some]
    obtain ⟨hl, ⟨v, hv, hn⟩, -, -⟩ := h.layer.denotes hname
    exact ⟨_, v, hl, hv, hn⟩

/-! ### Lambdas -/

namespace Check

variable {p : Program} {stack : List Nat} {s : AnalysisState} {env : Env}

theorem denoted_ensures (hi : Inv p s) (written : TypeExpr) :
    Ensures (Rejected p) (denoted written) s fun type t =>
      t = s ∧ written.resolve = .ok type := by
  refine .ofResult (fun e he => ?_) fun type ht => ?_
  · cases hresolve : written.resolve <;> rw [hresolve] at he <;> cases he
    exact hi.rejected _ (written.not_isStrayReturn hresolve)
  · cases hresolve : written.resolve <;> rw [hresolve] at ht <;> cases ht
    exact ⟨rfl, rfl⟩

theorem lambdaParam_ensures (hi : Inv p s) (q : Param) (hints : List Ty) :
    Ensures (Rejected p) (lambdaParam q hints) s fun _ t => t = s := by
  unfold lambdaParam
  split
  · exact (denoted_ensures hi _).imp fun _ _ _ h => h.1
  · split
    · exact .fail (hi.rejected _ (by rintro ⟨⟩))
    · exact .pure rfl
  · exact .fail (hi.rejected _ (by rintro ⟨⟩))

theorem lambdaParams_ensures (hi : Inv p s) (params : List Param) (hints : List Ty) :
    Ensures (Rejected p) (lambdaParams params hints) s fun types t =>
      t = s ∧ types.length = params.length := by
  induction params generalizing hints with
  | nil => exact .pure ⟨rfl, rfl⟩
  | cons q rest ih =>
    refine .bind ((lambdaParam_ensures hi q hints).imp fun type t _ h => ?_)
    subst h
    refine .bind ((ih hints.tail).imp fun types t _ h => .pure ?_)
    exact ⟨h.1, congrArg Nat.succ h.2⟩

/-- A lambda is declared in the scope that it is written in. -/
theorem declareLambda_ensures {scope : ScopeId} {d : FuncDef}
    (hr : Ready p stack s env scope d.headIds) (hints : List Ty) :
    Ensures (Rejected p) (declareLambda scope d hints) s fun r t => ∃ inner f,
      Step p none d.headIds s t ∧ t.progress[d.info.id]? = none ∧ t.store.func? r.2 = some f ∧
        f.decl = some d ∧ Declares t r.2 f d inner ∧ f.paramTypes = r.1 ∧
        Env.Matches t (d.layer :: env) inner := by
  have hempty := hr.writable.empty
  refine .bind ((lambdaParams_ensures hr.inv d.params hints).imp fun types t _ h => ?_)
  obtain ⟨rfl, hlen⟩ := h
  refine .bind ((declareFunction_ensures (hr.inv.rejected · ·) (by rintro _ ⟨⟩; exact hlen)
    hr.writable.nodup (congrArg Slots.scope (hempty d.info.id List.mem_cons_self))
    fun q hq => ?_).imp fun r u _ h => ?_)
  · exact congrArg Slots.link
      (hempty q.info.id (List.mem_cons_of_mem _ (List.mem_map_of_mem hq)))
  · obtain ⟨f, h, htypes, -⟩ := h
    refine .bind (.modify (.pure ?_))
    have h' := h.listed u.store.functionScopes u.store.instances u.store.instanceScopes
      (u.store.lambdas.push r.2) (u.store.lambdaScopes.push r.1)
    have hs := h'.step hr.inv hr.writable
    have hnone := congrArg Slots.progress (hempty d.info.id List.mem_cons_self)
    exact ⟨r.1, f, hs, (h'.progress _).trans hnone, h'.func, h'.decl, h'.declares,
      htypes rfl hlen, h'.matches_env hr.inv hs hr.env⟩

end Check

end Frontend
