import Frontend.Proofs.Analysis.Binding
import Frontend.Proofs.Calls.Instance
import Frontend.Proofs.Layout.Carried
import Frontend.Proofs.Returns.Leaves

/-!
# Scopes that are opened and names that are declared

The operations of the analysis that touch scopes: a block is opened around a piece of text, a
variable is declared, and a function gets its symbol and its scope. All others carry out nothing.
-/

namespace Frontend

variable {p : Program} {home : Option Nat} {cur : ScopeId} {q : Plan} {s t u : AnalysisState}
  {d : FuncDef}

/-- A node is linked, or the attempt is noted. -/
theorem Continues.linking (node : Nat) (target : Link) :
    Continues s { s with toResolution := s.toResolution.link node target } := by
  unfold Resolution.link
  split
  · exact ⟨.refl _, id, id, id, id, nofun⟩
  · next hnone =>
    have hnone' : s.links[node]? = none := by
      rwa [Bool.not_eq_true, Std.TreeMap.contains_eq_isSome_getElem?,
        Option.isSome_eq_false_iff, Option.isNone_iff_eq_none] at hnone
    exact ⟨.refl _, fun h => h, getElem?_insert_of_some hnone', fun h => h, fun h => h,
      fun h => h⟩

/-- A node gets a scope, or the attempt is noted. -/
theorem Continues.scoping (node : Nat) (id : ScopeId) :
    Continues s { s with toResolution := s.toResolution.setScope node id } := by
  unfold Resolution.setScope
  split
  · exact ⟨.refl _, fun h => h, fun h => h, fun h => h, fun h => h, nofun⟩
  · next hnone =>
    have hnone' : s.scopes[node]? = none := by
      rwa [Bool.not_eq_true, Std.TreeMap.contains_eq_isSome_getElem?,
        Option.isSome_eq_false_iff, Option.isNone_iff_eq_none] at hnone
    exact ⟨.refl _, getElem?_insert_of_some hnone', fun h => h, fun h => h, fun h => h, fun h => h⟩

theorem Still.linking (node : Nat) (target : Link) :
    Still s { s with toResolution := s.toResolution.link node target } := by
  refine .of_eq (.linking node target) ?_ ?_ ?_ rfl ?_
  all_goals
    unfold Resolution.link
    split <;> rfl

/-- The lists of instances and lambdas do not concern the scopes. -/
theorem Still.listed (s : AnalysisState) (instances : Array FuncId)
    (instanceScopes : Array ScopeId) (lambdas : Array FuncId) (lambdaScopes : Array ScopeId)
    (known : List Instance) (active : Std.TreeMap Nat Nat) :
    Still s { s with
      store := { s.store with instances, instanceScopes, lambdas, lambdaScopes }, known, active } :=
  .of_eq ⟨⟨fun hf => ⟨_, hf, .refl _⟩, fun ha => ⟨_, ha, .refl _⟩, fun hv => ⟨_, hv, .refl _⟩⟩,
    fun h => h, fun h => h, fun h => h, fun h => h, fun h => h⟩ rfl rfl rfl rfl rfl

/-- Without a refusal, a node that is linked leads to its target. -/
theorem Check.link_of_refused {node : Nat} {target : Link}
    (h : (s.toResolution.link node target).refused = []) :
    (s.toResolution.link node target).links[node]? = some target := by
  unfold Resolution.link at h ⊢
  split at h
  · cases h
  · next hnone =>
    rw [if_neg hnone]
    simp only [getElem?_insert, if_true]

/-- Without a refusal, the node that gets a scope is the only one that is concerned. -/
theorem Check.scopes_setScope {node n : Nat} {id : ScopeId}
    (h : (s.toResolution.setScope node id).refused = []) :
    (s.toResolution.setScope node id).scopes[n]? = if n = node then some id else s.scopes[n]? := by
  unfold Resolution.setScope at h ⊢
  split at h
  · cases h
  · next hnone =>
    rw [if_neg hnone]
    simp only [getElem?_insert, eq_comm]

namespace Check

/-! ### Operations that leave the scopes alone -/

theorem link_follows (node : Nat) (target : Link) :
    Follows p home cur (.of []) (link node target) := .still fun _ => .modify (.linking node target)

theorem setType_follows (node : Nat) (type : Ty) :
    Follows p home cur (.of []) (setType node type) := by
  refine .still fun s => .bind (.get ?_)
  unfold Resolution.setType
  split
  · next r hr =>
    split at hr
    · cases hr
    · cases hr
      exact .set (.of_eq ⟨.refl _, id, id, id, id, id⟩ rfl rfl rfl rfl rfl)
  · exact .fault trivial

theorem setRet_still (id : FuncId) (type : Ty) :
    Ensures (fun _ _ => True) (setRet id type) s fun _ t => Still s t := by
  refine .bind (.store ?_)
  split
  · next st hst =>
    obtain ⟨f, hf, hnone, rfl⟩ := Store.setRet?_eq_some hst
    have hfg : f.Grows { f with ret := some type } := ⟨rfl, fun h => by rw [hnone] at h; cases h⟩
    refine .setStore { Continues.of_store (Store.grows_setFunc hf hfg) with
      scopes := rfl, nodes := rfl, marks := rfl, copied := rfl, symbols := fun {a g} hg => ?_ }
    change Store.func? _ a = some g at hg
    rw [Store.func?_set _ _ _ _ (by rw [hf]; rfl)] at hg
    split at hg
    · next heq =>
      subst heq
      cases hg
      exact ⟨f, hf, rfl⟩
    · exact ⟨g, hg, rfl⟩
  · exact .pure (.of_eq (.refl s) rfl rfl rfl rfl rfl)

theorem setRet_follows (id : FuncId) (type : Ty) :
    Follows p home cur (.of []) (setRet id type) := .still fun _ => setRet_still id type

theorem returnType_follows (id : FuncId) (type : Ty) (position : Position) :
    Follows p home cur (.of []) (returnType id type position) := by
  refine .func fun f => ?_
  split
  · split
    · exact .pure ()
    · exact .fail
  · split
    · exact .stateless (expectType_stateless _ _)
    · exact setRet_follows _ _

theorem settleReturn_follows (id : FuncId) :
    Follows p home cur (.of []) (settleReturn id) := by
  refine .func fun f => ?_
  split
  · exact setRet_follows _ _
  · exact .pure ()

theorem assignConstant_follows (handle : VarHandle) (type : Ty) (position : Position) :
    Follows p home cur (.of []) (assignConstant handle type position) := by
  refine .after (.readsOnly (typeOf?_readsOnly handle)) fun known => ?_
  cases known with
  | some expected => exact .stateless (expectType_stateless _ _)
  | none =>
    cases handle with
    | constant index =>
      refine .still fun s => .modify ?_
      cases hst : s.store.setConstantType? index type with
      | none => exact .of_eq (.refl s) rfl rfl rfl rfl rfl
      | some st =>
        obtain ⟨v, hv, hnone, rfl⟩ := Store.setConstantType?_eq_some hst
        have hvw : v.Grows { v with type := some type } :=
          ⟨rfl, fun h => by rw [hnone] at h; cases h⟩
        exact .of_eq (.of_store (Store.grows_setConstant hv hvw)) rfl rfl rfl rfl rfl
    | _ => exact .pure ()

theorem assignConstants_follows (decls : List ConstDecl) (handles : List VarHandle)
    (types : List Ty) : Follows p home cur (.of []) (assignConstants decls handles types) := by
  induction decls generalizing handles types with
  | nil => exact .pure ()
  | cons d rest ih =>
    match handles, types with
    | [], _ => exact .pure ()
    | _ :: _, [] => exact .pure ()
    | handle :: handles, type :: types =>
      exact .after (assignConstant_follows handle type _) fun _ => ih handles types

theorem assignTargets_follows (targets : List Expr) (hints : List (Option Ty)) (types : List Ty) :
    Follows p home cur (.of []) (assignTargets targets hints types) := by
  induction targets generalizing hints types with
  | nil => exact .pure ()
  | cons target rest ih =>
    cases hints with
    | nil => exact .pure ()
    | cons hint hints =>
      cases types with
      | nil => exact .pure ()
      | cons type types =>
        refine .after ?_ fun _ => ih hints types
        cases hint with
        | none => exact setType_follows _ _
        | some expected =>
          exact .after (.stateless (expectType_stateless _ _)) fun _ =>
            .readsOnly (checkAssignable_readsOnly _)

/-! ### Blocks -/

/-- A block that has been opened: the scopes stay arranged, and it is the only new one. -/
structure Opened (p : Program) (cur : ScopeId) (node : Nat) (inner : ScopeId)
    (s t : AnalysisState) : Prop where
  arranged : Arranged p t
  nests : t.Nests cur node inner
  new : inner = s.store.scopes.size
  blocks : ∀ c, t.store.isBlock c = true → s.store.isBlock c = true ∨ c = inner
  vars : ∀ c, t.store.varCount c ≤ s.store.varCount c
  marks : t.progress = s.progress

theorem Opened.of_opensIn {node : Nat} (ha : Arranged p s) (h : Continues s t)
    (hin : s.store.OpensIn t.store cur (.block #[]))
    (hscopes : ∀ n : Nat, t.scopes[n]? =
      if n = node then some s.store.scopes.size else s.scopes[n]?)
    (hfuncs : t.store.funcs = s.store.funcs) (hcopied : t.copies = s.copies)
    (hmarks : t.progress = s.progress) : Opened p cur node s.store.scopes.size s t := by
  have hvars : ∀ vars, ScopeBody.block #[] = .block vars → vars = #[] := fun _ h =>
    (ScopeBody.block.inj h).symm
  refine ⟨ha.opens h hin hvars hscopes (fun {id g d} hg hd hnone => ?_) (fun {d} hd => .inl ?_),
    ⟨by rw [hscopes, if_pos rfl], ?_, hin.encloses⟩, rfl,
    fun c hc => ((hin.isBlock c).mp hc).imp_right And.left, hin.varCount hvars, hmarks⟩
  · rw [Store.func?, hfuncs] at hg
    exact ha.waits h hg hd hnone
  · cases hd with
    | program hm => exact .program hm
    | copy hm =>
      rw [hcopied] at hm
      exact .copy hm
  · exact (hin.isBlock _).mpr (.inr ⟨rfl, rfl⟩)

theorem openBlock_ensures_opened (node : Nat) :
    Ensures (fun _ _ => True) (openBlock cur node) s fun inner t => Continues s t ∧
      (t.refused = [] → Arranged p s → Opened p cur node inner s t) := by
  refine .bind (.store ?_)
  split
  · next inner st hst =>
    obtain ⟨hopens, hfuncs, hconstants, -⟩ := Store.openBlock_eq_ok hst
    obtain ⟨rfl, hin⟩ := Store.openBlock_opensIn hst
    have hgrows : s.store.Grows st := hopens.grows (fun hf => by
      rw [Store.func?, hfuncs]
      exact hf) hconstants
    have hc := (Continues.of_store hgrows).trans
      (.scoping (s := { s with store := st }) node s.store.scopes.size)
    have hstore := setScope_store (s := { s with store := st }) node s.store.scopes.size
    refine .bind (.setStore (.bind (.modify (.pure ⟨hc, fun hr ha => ?_⟩))))
    refine .of_opensIn ha hc ?_ (fun n => scopes_setScope hr) ?_ ?_ rfl
    · rw [hstore]
      exact hin
    · rw [hstore]
      exact hfuncs
    · unfold Resolution.setScope
      split <;> rfl
  · exact .fault trivial

/-- What follows in a block that has just been opened is enclosed in it. -/
theorem openBlock_bind_follows {α : Type} (node : Nat) {f : ScopeId → Check α}
    (hf : ∀ inner, Follows p (some node) inner q (f inner)) :
    Follows p home cur (q.enclose node home) (openBlock cur node >>= f) := by
  refine fun s => .bind ((openBlock_ensures_opened (p := p) node).imp fun inner t _ hopened =>
    (hf inner t).imp fun _ u _ hrest => ⟨hopened.1.trans hrest.continues, fun hr ha ho => ?_⟩)
  have hfirst := hopened.2 (hrest.continues.refused hr) ha
  obtain ⟨ha', es, hcarried⟩ := hrest.carried hr hfirst.arranged hfirst.nests.owner
  have hnests := hrest.continues.nests hfirst.nests
  have hinside : (Plan.of (⟨node, false, home, q.children, q.names⟩ :: q.shapes)).Carried p cur es
      s u := hcarried.within hnests.owner nofun (fun _ => hnests.block)
    ⟨cur, (hopened.1.trans hrest.continues).owns ho, hnests.encloses⟩
    (fun c hc => (hfirst.blocks c hc).imp_right fun heq => ⟨rfl, heq⟩) hfirst.vars
    fun n hn => .inl (by rwa [hfirst.marks] at hn)
  exact ⟨ha', es, { hinside with children := .singleton hnests (Nat.le_of_eq hfirst.new.symm) }⟩

/-! ### Variables -/

/-- A variable is added to a block, and the node that declares it is linked. -/
theorem realised_of_defineVar {v : VarSymbol} {node : Nat} {handle : VarHandle} {st : Store}
    (hblock : s.store.isBlock cur = true) (hdef : s.store.defineVar cur v = .ok (handle, st))
    (hstill : Still { s with store := st } t)
    (hlink : t.refused = [] → t.links[node]? = some (.var handle)) :
    (⟨[], [(v.name, node)], []⟩ : Plan).Realised p home cur s t := by
  obtain ⟨vars, outer, blocks, hs, rfl, ht, hother, hfuncs, hconstants, -⟩ :=
    Store.defineVar_eq_ok hblock hdef
  have hfunc : ∀ id, st.func? id = s.store.func? id := fun id => by
    rw [Store.func?, Store.func?, hfuncs]
  have hscopes : t.store.scopes = st.scopes := hstill.scopes
  have hdeclared := Continues.of_store (Store.grows_defineVar hs ht hother hfunc hconstants)
  refine ⟨hdeclared.trans hstill.toContinues, fun hr ha _ => ?_⟩
  have harranged : Arranged p { s with store := st } :=
    ha.carry hdeclared (ha.tidy.defineVar hblock hdef) rfl rfl
      fun {id g} hg => ⟨g, (hfunc id).symm.trans hg, rfl⟩
  have hbinds : t.Binds cur (v.name, node) vars.size := by
    refine ⟨hlink hr, v, ?_, rfl⟩
    simp only [Store.var?, hscopes, ht, Array.getElem?_push_size]
  have hcount : s.store.varCount cur = vars.size := by simp only [Store.varCount, hs]
  have hcount' : t.store.varCount cur = vars.size + 1 := by
    simp only [Store.varCount, hscopes, ht, Array.size_push]
  have hsame : ∀ c, c ≠ cur → t.store.scopes[c]? = s.store.scopes[c]? := fun c hc => by
    rw [hscopes, hother c hc]
  refine ⟨hstill.arranged harranged, [],
    { defined := List.forall_mem_nil _
      laid := List.forall_mem_nil _
      children := .nil
      names := .singleton hbinds (Nat.le_of_eq hcount)
      blocks := fun {c} hc => .inl ?_
      vars := fun {c i} hi => ?_
      begun := fun {n} hn => .inl (by rwa [hstill.marks] at hn) }⟩
  · by_cases heq : c = cur
    · exact heq ▸ hblock
    · simpa only [Store.isBlock, hsame c heq] using hc
  · by_cases heq : c = cur
    · subst heq
      rw [hcount'] at hi
      rcases Nat.lt_succ_iff_lt_or_eq.mp hi with hi | rfl
      · exact .inl (hcount ▸ hi)
      · exact .inr (.inl ⟨rfl, _, List.mem_singleton_self _, hbinds⟩)
    · refine .inl ?_
      simpa only [Store.varCount, hsame c heq] using hi

/-- A variable that is declared in a block stands behind those that are there; an underscore
declares nothing. -/
theorem declareVar_follows (info : NodeInfo) (name : String) (type : Ty) (isVar : Bool) :
    Follows p home cur ⟨[], introduced [(name, info.id)], []⟩
      (declareVar cur info name type isVar) := by
  unfold declareVar
  split
  · next hname =>
    have hnil : introduced [(name, info.id)] = [] := by simp [introduced, hname]
    rw [hnil]
    exact .pure ()
  · next hname =>
    rw [introduced_singleton hname]
    refine fun s => .bind (.bind (.store ?_))
    split
    · exact .fault trivial
    · next hblock =>
      have hblock' : s.store.isBlock cur = true := by simpa using hblock
      split
      · next handle st hst =>
        exact .bind (.setStore (.pure (.modify
          (realised_of_defineVar hblock' hst (.linking _ _) link_of_refused))))
      · exact .fail trivial

theorem declareVars_follows {decls : List VarDecl} {explicit : List (Option Ty)} {types : List Ty}
    (hexplicit : explicit.length = decls.length) (htypes : types.length = decls.length) :
    Follows p home cur ⟨[], introduced (decls.map fun d => (d.name, d.info.id)), []⟩
      (declareVars cur decls explicit types) := by
  induction decls generalizing explicit types with
  | nil => exact .pure ()
  | cons d rest ih =>
    obtain ⟨expected, explicit, rfl⟩ := List.exists_cons_of_length_eq_add_one hexplicit
    obtain ⟨type, types, rfl⟩ := List.exists_cons_of_length_eq_add_one htypes
    rw [List.map_cons, introduced_cons]
    exact .after (.stateless (expectTypeIf_stateless _ _)) fun _ =>
      (declareVar_follows d.info d.name type d.isVar).bind fun _ =>
        ih (Nat.succ.inj hexplicit) (Nat.succ.inj htypes)

theorem declareLoopVars_follows {vars : List Param} {types : List Ty}
    (htypes : types.length = vars.length) :
    Follows p home cur ⟨[], loopNames vars, []⟩ (declareLoopVars cur vars types) := by
  unfold loopNames
  induction vars generalizing types with
  | nil => exact .pure ()
  | cons v rest ih =>
    obtain ⟨type, types, rfl⟩ := List.exists_cons_of_length_eq_add_one htypes
    rw [List.map_cons, introduced_cons]
    exact .after (.stateless (denoted?_stateless _)) fun _ =>
      .after (.stateless (expectTypeIf_stateless _ _)) fun _ =>
        (declareVar_follows v.info v.name type v.isVar).bind fun _ => ih (Nat.succ.inj htypes)

/-! ### Functions -/

/-- A definition has got a symbol and a scope, which lies directly in another one. -/
structure Founds (d : FuncDef) (enclosing : ScopeId) (s t : AnalysisState) : Prop where
  continues : Continues s t
  opens : ∀ {a}, s.store.scopes[enclosing]? = some a →
    ∃ f, s.store.OpensIn t.store enclosing (.function f)
  nodes : t.refused = [] → ∀ n : Nat, t.scopes[n]? =
    if n = d.info.id then some s.store.scopes.size else s.scopes[n]?
  marks : t.progress = s.progress
  copied : t.copies = s.copies
  symbols : ∀ {id : FuncId} {g : FuncSymbol}, t.store.func? id = some g →
    g.decl = some d ∨ ∃ f, s.store.func? id = some f ∧ f.decl = g.decl

theorem Founds.still {enclosing : ScopeId} (h : Founds d enclosing s t) (h' : Still t u) :
    Founds d enclosing s u where
  continues := h.continues.trans h'.toContinues
  opens ha := by
    obtain ⟨f, hopens⟩ := h.opens ha
    exact ⟨f, hopens.of_scopes h'.scopes⟩
  nodes hr := by
    rw [h'.nodes]
    exact h.nodes (h'.refused hr)
  marks := h'.marks.trans h.marks
  copied := h'.copied.trans h.copied
  symbols hg := by
    obtain ⟨f, hf, hfg⟩ := h'.symbols hg
    rw [← hfg]
    exact h.symbols hf

theorem linkParams_still (inside : ScopeId) (params : List Param) (index : Nat) :
    Ensures (fun _ _ => True) (linkParams inside index params) s fun _ t => Still s t := by
  induction params generalizing index s with
  | nil => exact .pure (.refl s)
  | cons q rest ih =>
    exact .bind (.modify ((ih (index + 1)).imp fun _ _ _ h => (Still.linking _ _).trans h))

theorem declareFunction_founds (d : FuncDef) (enclosing : ScopeId)
    (concrete : Option (List Ty)) :
    Ensures (fun _ _ => True) (declareFunction d enclosing concrete) s fun _ t =>
      Founds d enclosing s t := by
  refine .bind (.ofResult (fun _ _ => trivial) fun params _ => ?_)
  refine .bind (((denoted?_stateless _).readsOnly s).imp_both (fun _ _ _ => trivial)
    fun ret t heq => ?_)
  subst heq
  refine .bind (.store (.bind (.setStore (.bind ?_))))
  have hin := fun {a} (ha : t.store.scopes[enclosing]? = some a) => Store.openFunction_opensIn
    ⟨d.name, params, ret, d.kind, false, some d⟩ ha
  obtain ⟨st, hst, hopens, hnew, hfunc, hold, hconstants, -⟩ :=
    t.store.addFunc_openFunction ⟨d.name, params, ret, d.kind, false, some d⟩ enclosing
  rw [hst] at hin
  change Ensures _ (linkParams t.store.scopes.size 0 d.params) { t with
    store := ((t.store.addFunc _).2.openFunction (some t.store.funcs.size) enclosing).2 } _
  rw [hst]
  have hgrows : t.store.Grows st := by
    refine hopens.grows (fun {i g} hg => ?_) hconstants
    rw [hold fun heq => by rw [heq, hnew] at hg; cases hg]
    exact hg
  refine (linkParams_still _ d.params 0).imp fun _ u _ hlinks => .bind (.modify (.pure ?_))
  have hstore : (u.toResolution.setScope d.info.id t.store.scopes.size).store = u.store :=
    setScope_store _ _
  have hscopes : u.store.scopes = st.scopes := hlinks.scopes
  have hnodes : u.scopes = t.scopes := hlinks.nodes
  have hcopied : (u.toResolution.setScope d.info.id t.store.scopes.size).copies = u.copies := by
    unfold Resolution.setScope
    split <;> rfl
  refine ⟨((Continues.of_store hgrows).trans hlinks.toContinues).trans (.scoping _ _),
    fun ha => ⟨some t.store.funcs.size, ?_⟩, fun hr n => ?_, hlinks.marks, ?_, fun {id g} hg => ?_⟩
  · rw [hstore]
    exact (hin ha).of_scopes hscopes
  · rw [scopes_setScope hr, hnodes]
  · exact hcopied.trans hlinks.copied
  · rw [hstore] at hg
    obtain ⟨f, hf, hfg⟩ := hlinks.symbols hg
    change st.func? id = some f at hf
    by_cases heq : id = t.store.funcs.size
    · rw [heq, hfunc] at hf
      cases hf
      exact .inl hfg.symm
    · exact .inr ⟨f, (hold heq).symm.trans hf, hfg⟩

theorem declareLambda_founds (d : FuncDef) (hints : List Ty) :
    Ensures (fun _ _ => True) (declareLambda cur d hints) s fun _ t => Founds d cur s t := by
  have hparams := (lambdaParams_stateless d.params hints).readsOnly
  refine .bind ((hparams s).imp_both (fun _ _ _ => trivial) fun params t heq => ?_)
  subst heq
  refine .bind ((declareFunction_founds d cur (some params)).imp fun r u _ h =>
    .bind (.modify (.pure ?_)))
  exact h.still (.listed u _ _ _ _ _ _)

/-- A lambda that has been declared is arranged once it is begun. -/
theorem Founds.begun (h : Founds d cur s t) (hr : t.refused = []) (ha : Arranged p s)
    (ho : s.Owns home cur) : Arranged p (t.mark d.info.id .inProgress) := by
  obtain ⟨a, hpresent⟩ := ha.exists_scope ho
  obtain ⟨f, hin⟩ := h.opens hpresent
  have hc := h.continues.trans (.mark t d.info.id .inProgress)
  refine ha.opens hc hin nofun (h.nodes hr) (fun {id g e} hg he hnone => ?_) fun {e} he => .inl ?_
  · rcases h.symbols hg with hd | ⟨f, hf, hfg⟩
    · cases hd.symm.trans he
      rw [AnalysisState.progress_mark_self] at hnone
      cases hnone
    · exact ha.waits hc hf (hfg.trans he) hnone
  · cases he with
    | program hm => exact .program hm
    | copy hm =>
      rw [show (t.mark d.info.id .inProgress).copies = s.copies from h.copied] at hm
      exact .copy hm

/-- The copy of a template is declared in the global scope and waits for its analysis. -/
theorem makeInstance_realised (d : FuncDef) (args : List Ty) (depth : Nat) :
    Ensures (fun _ _ => True) (makeInstance d args depth) s fun r t =>
      Defined p t (.function r.1) ∧ ∀ home cur, (Plan.of []).Realised p home cur s t := by
  refine .bind (.modifyGet ?_)
  generalize d.copy.run s.nextId = made
  obtain ⟨copy, next⟩ := made
  have hcopied : Continues s (copied s d copy next) :=
    ⟨.refl _, fun h => h, fun h => h, fun h => h, fun h => mem_copied.mpr (.inl h), fun h => h⟩
  refine .bind ((declareFunction_founds (s := copied s d copy next) copy Store.globalScope
    (some args)).imp fun r t _ hfounds => .bind (.modify (.pure ?_)))
  have h := hfounds.still (.listed t (t.store.instances.push r.2)
    (t.store.instanceScopes.push r.1) t.store.lambdas t.store.lambdaScopes
    (⟨d.info.id, args, r.2⟩ :: t.known) (t.active.insert d.info.id (depth + 1)))
  generalize ({ t with store := _, known := _, active := _ } : AnalysisState) = u at h ⊢
  have hc := hcopied.trans h.continues
  have hcopy : Defined p u (.function copy) :=
    h.continues.defined (.copy (mem_copied.mpr (.inr ⟨rfl, rfl⟩)))
  refine ⟨hcopy, fun _ _ => ⟨hc, fun hr ha _ => ?_⟩⟩
  obtain ⟨a, hroot⟩ := ha.tidy.root
  obtain ⟨f, hin⟩ := h.opens hroot
  refine ⟨ha.opens hc hin nofun (h.nodes hr) (fun {id g e} hg he hnone => ?_) fun {e} he => ?_, [],
    .nothing (fun c hb => ((hin.isBlock c).mp hb).resolve_right fun h => Bool.false_ne_true h.2)
      (hin.varCount nofun) fun n hn => by rwa [h.marks] at hn⟩
  · rcases h.symbols hg with hd | ⟨f, hf, hfg⟩
    · cases hd.symm.trans he
      exact hcopy
    · exact ha.waits hc hf (hfg.trans he) hnone
  · cases he with
    | program hm => exact .inl (.program hm)
    | copy hm =>
      rw [h.copied] at hm
      rcases mem_copied.mp hm with hm | ⟨-, rfl⟩
      · exact .inl (.copy hm)
      · exact .inr ⟨rfl, ⟨f, rfl⟩, rfl⟩

end Check

end Frontend
