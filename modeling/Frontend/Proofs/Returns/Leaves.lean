import Frontend.Proofs.Analysis.Declaration
import Frontend.Proofs.Analysis.Stateless
import Frontend.Proofs.Returns.Coherence

/-!
# What a stretch of analysis leaves behind

`Leaves` is a statement about two states that needs nothing of the first one: whatever the analysis
does, it only adds; and if no slot was to be written a second time, it keeps coherence, the lambdas
it has met are coherent, and the return statements it has met agree with the function around them.
`Goes` says so of the runs of an action, from any state, and is closed under the ways to build one.
-/

namespace Frontend

namespace AnalysisState

/-- A function whose text has return statements. -/
def MayReturn (s : AnalysisState) (home : FuncId) : Prop :=
  ∃ f d, s.store.func? home = some f ∧ f.decl = some d ∧ d.returns ≠ []

/-- The values of a return statement have the type that the function around it gives. -/
def Returned (s : AnalysisState) (home : FuncId) (values : List Expr) : Prop :=
  ∃ f type, s.store.func? home = some f ∧ s.typeOfValues? values = some type ∧
    f.result? = some type

end AnalysisState

/-- What a stretch of analysis in a scope leaves behind, where `sites` holds the lambdas and
`values` the return statements that it meets. -/
structure Leaves (p : Program) (scope : ScopeId) (sites : List Site) (values : List (List Expr))
    (s t : AnalysisState) : Prop where
  growth : Growth s t
  coherent : t.refused = [] → Coherence p s → p.Apart sites → ∀ home,
    (values ≠ [] → s.store.Within scope home ∧ s.MayReturn home) →
      Coherence p t ∧ t.Made sites ∧ ∀ vs ∈ values, t.Returned home vs

/-- Each run of an action leaves behind what the sites and return statements in it ask for. -/
def Goes {α : Type} (p : Program) (scope : ScopeId) (sites : List Site) (values : List (List Expr))
    (act : Check α) : Prop :=
  ∀ s, Ensures (fun _ _ => True) act s fun _ t => Leaves p scope sites values s t

variable {p : Program} {scope : ScopeId} {sites sites' : List Site}
  {values values' : List (List Expr)} {s t u : AnalysisState} {home : FuncId}

/-! ### Facts that last -/

theorem AnalysisState.MayReturn.grows (h : s.MayReturn home) (hg : Growth s t) :
    t.MayReturn home := by
  obtain ⟨f, d, hf, hd, hreturns⟩ := h
  obtain ⟨g, hg', hfg⟩ := hg.store.func hf
  exact ⟨g, d, hg', hfg.decl.trans hd, hreturns⟩

theorem AnalysisState.Returned.grows {vs : List Expr} (h : s.Returned home vs) (hg : Growth s t) :
    t.Returned home vs := by
  obtain ⟨f, type, hf, hvs, hresult⟩ := h
  obtain ⟨g, hg', hfg⟩ := hg.store.func hf
  exact ⟨g, type, hg', hg.typeOfValues? hvs, hfg.result? hresult⟩

theorem Program.apart_append : p.Apart (sites ++ sites') ↔ p.Apart sites ∧ p.Apart sites' := by
  simp only [Program.Apart, List.mem_append, or_imp, forall_and]

theorem AnalysisState.made_append :
    s.Made (sites ++ sites') ↔ s.Made sites ∧ s.Made sites' := by
  simp only [AnalysisState.Made, List.mem_append, or_imp, forall_and]

theorem Program.apart_nil : p.Apart [] := nofun

theorem AnalysisState.made_nil : s.Made [] := nofun

/-! ### Stretches one after another -/

namespace Leaves

theorem refl (s : AnalysisState) : Leaves p scope [] [] s s where
  growth := .refl s
  coherent _ hc _ _ _ := ⟨hc, AnalysisState.made_nil, nofun⟩

/-- Only coherence is at stake. -/
theorem of_coherence (hg : Growth s t) (h : t.refused = [] → Coherence p s → Coherence p t) :
    Leaves p scope [] [] s t where
  growth := hg
  coherent hr hc _ _ _ := ⟨h hr hc, AnalysisState.made_nil, nofun⟩

theorem trans (h : Leaves p scope sites values s t) (h' : Leaves p scope sites' values' t u) :
    Leaves p scope (sites ++ sites') (values ++ values') s u where
  growth := h.growth.trans h'.growth
  coherent hr hc hapart home hhome := by
    rw [Program.apart_append] at hapart
    obtain ⟨hc', hmade, hreturned⟩ := h.coherent (h'.growth.refused hr) hc hapart.1 home
      fun hne => hhome fun hnil => hne (List.append_eq_nil_iff.mp hnil).1
    obtain ⟨hc'', hmade', hreturned'⟩ := h'.coherent hr hc' hapart.2 home fun hne => by
      obtain ⟨hwithin, hmay⟩ := hhome fun hnil => hne (List.append_eq_nil_iff.mp hnil).2
      exact ⟨hwithin.grows h.growth.store, hmay.grows h.growth⟩
    refine ⟨hc'', AnalysisState.made_append.mpr ⟨hmade.grows h'.growth hc''.admits, hmade'⟩, ?_⟩
    rw [List.forall_mem_append]
    exact ⟨fun vs hm => (hreturned vs hm).grows h'.growth, hreturned'⟩

/-- Only the lambdas among the sites count. -/
theorem congr (h : Leaves p scope sites values s t)
    (hm : ∀ d, .lambda d ∈ sites' ↔ .lambda d ∈ sites) : Leaves p scope sites' values s t where
  growth := h.growth
  coherent hr hc hapart home hhome := by
    obtain ⟨hc', hmade, hreturned⟩ := h.coherent hr hc (fun d hd => hapart d ((hm d).mpr hd)) home
      hhome
    exact ⟨hc', fun d hd => hmade d ((hm d).mp hd), hreturned⟩

/-- A stretch in a block counts for the scope around it. -/
theorem inner {block : ScopeId} (h : Leaves p block sites values s t)
    (hw : ∀ home, s.store.Within scope home → s.store.Within block home) :
    Leaves p scope sites values s t where
  growth := h.growth
  coherent hr hc hapart home hhome :=
    h.coherent hr hc hapart home fun hne => ⟨hw home (hhome hne).1, (hhome hne).2⟩

/-- Where there is no return statement, it does not matter where the stretch stands. -/
theorem anywhere (h : Leaves p scope sites [] s t) (scope' : ScopeId) :
    Leaves p scope' sites [] s t where
  growth := h.growth
  coherent hr hc hapart home _ := h.coherent hr hc hapart home nofun

end Leaves

/-! ### Actions -/

namespace Goes

variable {α β : Type} {act : Check α}

theorem pure (a : α) : Goes p scope [] [] (pure a : Check α) := fun s => .pure (.refl s)

theorem throw (e : Failure) : Goes p scope sites values (throw e : Check α) :=
  fun _ => .throw trivial

theorem fail {cause : Cause} {position : Position} :
    Goes p scope sites values (Check.fail cause position : Check α) := .throw _

theorem bind {f : α → Check β} (h : Goes p scope sites values act)
    (hf : ∀ a, Goes p scope sites' values' (f a)) :
    Goes p scope (sites ++ sites') (values ++ values') (act >>= f) :=
  fun s => .bind ((h s).imp fun a t _ hst => (hf a t).imp fun _ _ _ htu => hst.trans htu)

theorem map {f : α → β} (h : Goes p scope sites values act) :
    Goes p scope sites values (f <$> act) := fun s => .map (h s)

theorem congr (h : Goes p scope sites values act)
    (hm : ∀ d, .lambda d ∈ sites' ↔ .lambda d ∈ sites) : Goes p scope sites' values act :=
  fun s => (h s).imp fun _ _ _ hst => hst.congr hm

theorem readsOnly (h : ReadsOnly act) : Goes p scope [] [] act :=
  fun s => (h s).imp_both (fun _ _ _ => trivial) fun _ t (ht : t = s) => by
    rw [ht]
    exact .refl s

theorem stateless (h : Stateless act) : Goes p scope [] [] act := .readsOnly h.readsOnly

/-- A look at the state comes first. -/
theorem store {f : Store → Check β} (hf : ∀ st, Goes p scope sites values (f st)) :
    Goes p scope sites values (Check.store >>= f) :=
  fun s => .bind (.store (hf s.store s))

theorem func {id : FuncId} {f : FuncSymbol → Check β}
    (hf : ∀ symbol, Goes p scope sites values (f symbol)) :
    Goes p scope sites values (Check.func id >>= f) :=
  (Goes.bind (.readsOnly (Check.func_readsOnly id)) hf).congr fun _ => Iff.rfl

end Goes

/-! ### Changes of the state -/

/-- Coherence carries over when symbols only get a result type that the text admits. -/
theorem Coherence.carry (h : Coherence p s) (hg : Growth s t) (hprogress : t.progress = s.progress)
    (hfuncs : ∀ {id g d}, t.store.func? id = some g → g.decl = some d →
      ∃ f, s.store.func? id = some f ∧ f.Grows g ∧ d.Admits g.ret) : Coherence p t := by
  have hadmits : ∀ {id g d}, t.store.func? id = some g → g.decl = some d → d.Admits g.ret := by
    intro id g d hgf hd
    obtain ⟨f, -, -, hadmits⟩ := hfuncs hgf hd
    exact hadmits
  exact
    { linked := fun hgf hd => by
        obtain ⟨f, hf, hfg, -⟩ := hfuncs hgf hd
        obtain ⟨scope, hscope, hid⟩ := h.linked hf (hfg.decl.symm.trans hd)
        exact ⟨scope, hg.scope hscope, hg.store.scopeFuncId? hid⟩
      kind := fun hgf hd => by
        obtain ⟨f, hf, hfg, -⟩ := hfuncs hgf hd
        exact hfg.kind.trans (h.kind hf (hfg.decl.symm.trans hd))
      admits := hadmits
      apart := fun hgf hd => by
        obtain ⟨f, hf, hfg, -⟩ := hfuncs hgf hd
        exact h.apart hf (hfg.decl.symm.trans hd)
      bounded := fun hn => Nat.lt_of_lt_of_le (h.bounded hn) hg.nextId
      marked := fun {node} hn => by
        rw [hprogress] at hn
        refine (h.marked hn).imp_right fun hscope => ?_
        obtain ⟨i, hi⟩ := Option.ne_none_iff_exists'.mp hscope
        rw [hg.scope hi]
        exact Option.some_ne_none i
      functions := fun hgf hd hdone => by
        obtain ⟨f, hf, hfg, hadm⟩ := hfuncs hgf hd
        rw [hprogress] at hdone
        obtain ⟨hcoh, hmade⟩ := h.functions hf (hfg.decl.symm.trans hd) hdone
        exact ⟨hcoh.grows hg hfg hadm, fun env => (hmade env).grows hg hadmits⟩
      constants := fun c hc hdone env => by
        rw [hprogress] at hdone
        exact (h.constants c hc hdone env).grows hg hadmits }

/-- A change that leaves function symbols and marks alone. -/
theorem Leaves.of_funcs (hg : Growth s t) (hprogress : t.progress = s.progress)
    (hfuncs : ∀ id, t.store.func? id = s.store.func? id) : Leaves p scope [] [] s t :=
  .of_coherence hg fun _ hc => hc.carry hg hprogress fun {id g _} hgf hd =>
    ⟨g, (hfuncs id).symm.trans hgf, .refl g, hc.admits ((hfuncs id).symm.trans hgf) hd⟩

/-- A definition has one symbol. -/
theorem Coherence.eq_of_decl (h : Coherence p s) {id id' : FuncId} {f f' : FuncSymbol}
    {d d' : FuncDef} (hf : s.store.func? id = some f) (hd : f.decl = some d)
    (hf' : s.store.func? id' = some f') (hd' : f'.decl = some d') (hid : d.info.id = d'.info.id) :
    id = id' ∧ d = d' := by
  obtain ⟨scope, hscope, hfunc⟩ := h.linked hf hd
  obtain ⟨scope', hscope', hfunc'⟩ := h.linked hf' hd'
  rw [hid, hscope'] at hscope
  cases hscope
  have heq : id = id' := Option.some.inj (hfunc.symm.trans hfunc')
  subst heq
  rw [hf] at hf'
  cases hf'
  rw [hd] at hd'
  cases hd'
  exact ⟨rfl, rfl⟩

theorem Growth.mark (s : AnalysisState) (node : Nat) (progress : Progress) :
    Growth s (s.mark node progress) := ⟨.refl _, id, id, id, Nat.le_refl _⟩

/-- A definition that is begun has a place of its own. -/
theorem Coherence.begin (h : Coherence p s) {node : Nat}
    (hnode : p.HasConstant node ∨ s.scopes[node]? ≠ none) :
    Coherence p (s.mark node .inProgress) := by
  have hdone : ∀ {n : Nat}, (s.mark node .inProgress).progress[n]? = some .done →
      s.progress[n]? = some .done := by
    intro n hn
    by_cases heq : n = node
    · rw [heq, AnalysisState.progress_mark_self] at hn
      cases hn
    · rwa [AnalysisState.progress_mark heq] at hn
  exact
    { linked := h.linked
      kind := h.kind
      admits := h.admits
      apart := h.apart
      bounded := h.bounded
      marked := fun {n} hn => by
        by_cases heq : n = node
        · rw [heq]
          exact hnode
        · rw [AnalysisState.progress_mark heq] at hn
          exact h.marked hn
      functions := fun hf hd hn => by
        obtain ⟨hcoh, hmade⟩ := h.functions hf hd (hdone hn)
        exact ⟨hcoh.grows (.mark s node _) (.refl _) (h.admits hf hd),
          fun env => (hmade env).grows (.mark s node _) h.admits⟩
      constants := fun c hc hn env =>
        (h.constants c hc (hdone hn) env).grows (.mark s node _) h.admits }

/-- A definition is done, and what is asked of it holds. -/
theorem Coherence.finish (h : Coherence p s) {node : Nat}
    (hnode : p.HasConstant node ∨ s.scopes[node]? ≠ none)
    (hfunction : ∀ {id f d}, s.store.func? id = some f → f.decl = some d → d.info.id = node →
      d.Coherent s f ∧ ∀ env, s.Made (d.sites env))
    (hconstant : ∀ c ∈ p.constants, c.info.id = node → ∀ env, s.Made (exprsSites env c.values)) :
    Coherence p (s.mark node .done) where
  linked := h.linked
  kind := h.kind
  admits := h.admits
  apart := h.apart
  bounded := h.bounded
  marked {n} hn := by
    by_cases heq : n = node
    · rw [heq]
      exact hnode
    · rw [AnalysisState.progress_mark heq] at hn
      exact h.marked hn
  functions {id f d} hf hd hn := by
    have hall : d.Coherent s f ∧ ∀ env, s.Made (d.sites env) := by
      by_cases heq : d.info.id = node
      · exact hfunction hf hd heq
      · rw [AnalysisState.progress_mark heq] at hn
        exact h.functions hf hd hn
    exact ⟨hall.1.grows (.mark s node _) (.refl f) (h.admits hf hd),
      fun env => (hall.2 env).grows (.mark s node _) h.admits⟩
  constants c hc hn env := by
    have hmade : s.Made (exprsSites env c.values) := by
      by_cases heq : c.info.id = node
      · exact hconstant c hc heq env
      · rw [AnalysisState.progress_mark heq] at hn
        exact h.constants c hc hn env
    exact hmade.grows (.mark s node _) h.admits

/-- A node is linked, or the attempt is noted. -/
theorem Growth.link (node : Nat) (target : Link) :
    Growth s { s with toResolution := s.toResolution.link node target } := by
  unfold Resolution.link
  split
  · exact ⟨.refl _, id, id, nofun, Nat.le_refl _⟩
  · exact ⟨.refl _, id, id, id, Nat.le_refl _⟩

/-- A node gets a scope, or the attempt is noted. -/
theorem Growth.setScope (node : Nat) (id : ScopeId) :
    Growth s { s with toResolution := s.toResolution.setScope node id } := by
  unfold Resolution.setScope
  split
  · exact ⟨.refl _, fun h => h, fun h => h, nofun, Nat.le_refl _⟩
  · next hnone =>
    have hnone' : s.scopes[node]? = none := by
      rwa [Bool.not_eq_true, Std.TreeMap.contains_eq_isSome_getElem?,
        Option.isSome_eq_false_iff, Option.isNone_iff_eq_none] at hnone
    exact ⟨.refl _, fun h => h, getElem?_insert_of_some hnone', fun h => h, Nat.le_refl _⟩

namespace Check

/-! ### Slots -/

theorem setType_leaves (p : Program) (scope : ScopeId) (node : Nat) (type : Ty) :
    Ensures (fun _ _ => True) (setType node type) s fun _ t =>
      Leaves p scope [] [] s t ∧ t.types[node]? = some type := by
  refine .bind (.get ?_)
  unfold Resolution.setType
  split
  · next r hr =>
    split at hr
    · cases hr
    · next hnone =>
      cases hr
      have hnone' : s.types[node]? = none := by
        rwa [Bool.not_eq_true, Std.TreeMap.contains_eq_isSome_getElem?,
          Option.isSome_eq_false_iff, Option.isNone_iff_eq_none] at hnone
      refine .set ⟨.of_funcs ?_ rfl fun _ => rfl, ?_⟩
      · exact ⟨.refl _, getElem?_insert_of_some hnone', id, id, Nat.le_refl _⟩
      · simp only [getElem?_insert, if_true]
  · exact .fault trivial

theorem link_goes (node : Nat) (target : Link) : Goes p scope [] [] (link node target) := by
  refine fun s => .modify (.of_funcs (Growth.link node target) rfl fun _ => ?_)
  unfold Resolution.link
  split <;> rfl

theorem setScope_store (node : Nat) (id : ScopeId) :
    (s.toResolution.setScope node id).store = s.store := by
  unfold Resolution.setScope
  split <;> rfl

/-- Without a refusal, a node that gets its scope had none before. -/
theorem setScope_of_refused {node : Nat} {id : ScopeId}
    (h : (s.toResolution.setScope node id).refused = []) :
    s.scopes[node]? = none ∧ (s.toResolution.setScope node id).scopes[node]? = some id := by
  unfold Resolution.setScope at h ⊢
  split at h
  · cases h
  · next hnone =>
    rw [if_neg hnone]
    refine ⟨?_, by simp only [getElem?_insert, if_true]⟩
    rwa [Bool.not_eq_true, Std.TreeMap.contains_eq_isSome_getElem?,
      Option.isSome_eq_false_iff, Option.isNone_iff_eq_none] at hnone

theorem setScope_goes (node : Nat) (id : ScopeId) : Goes p scope [] [] (setScope node id) :=
  fun _ => .modify (.of_funcs (Growth.setScope node id) rfl fun _ => by
    rw [setScope_store])

/-! ### Symbols and scopes -/

theorem openBlock_goes (node : Nat) :
    Ensures (fun _ _ => True) (openBlock scope node) s fun inner t =>
      Leaves p scope [] [] s t ∧ ∀ home, t.store.Within scope home → t.store.Within inner home := by
  refine .bind (.store ?_)
  split
  · next inner st hst =>
    obtain ⟨hopens, hfuncs, hconstants, -⟩ := Store.openBlock_eq_ok hst
    have hfunc : ∀ id, st.func? id = s.store.func? id := fun id => by
      rw [Store.func?, Store.func?, hfuncs]
    have hgrows : s.store.Grows st := hopens.grows (fun hf => by rw [hfunc]; exact hf) hconstants
    have hset : Goes p scope [] [] (setScope node inner) := setScope_goes node inner
    refine .bind (.setStore (.bind ((hset _).imp
      fun _ t hrun hscope => .pure ⟨?_, fun home hwithin => ?_⟩)))
    · exact (Leaves.of_funcs (.of_store hgrows) rfl hfunc).trans hscope
    · have hstore : t.store = st := by
        cases hrun
        exact setScope_store ..
      rw [hstore] at hwithin ⊢
      have hparent : ∃ a, s.store.scopes[scope]? = some a := by
        unfold Store.openBlock at hst
        split at hst
        · exact ⟨_, ‹_›⟩
        · exact ⟨_, ‹_›⟩
        · cases hst
      obtain ⟨a, ha⟩ := hparent
      exact hopens.within (hgrows.chain_eq ha) hwithin
  · exact .fault trivial

theorem defineLocal_goes (block : ScopeId) (name : String) (type : Ty) (isVar : Bool)
    (position : Position) : Goes p scope [] [] (defineLocal block name type isVar position) := by
  refine fun s => .bind (.store ?_)
  split
  · exact .fault trivial
  · next hblock =>
    have hblock' : s.store.isBlock block = true := by simpa using hblock
    split
    · next handle st hst =>
      obtain ⟨vars, outer, blocks, hs, -, ht, hother, hfuncs, hconstants, -⟩ :=
        Store.defineVar_eq_ok hblock' hst
      have hfunc : ∀ id, st.func? id = s.store.func? id := fun id => by
        rw [Store.func?, Store.func?, hfuncs]
      refine .bind (.setStore (.pure (.of_funcs (.of_store ?_) rfl hfunc)))
      exact Store.grows_defineVar hs ht hother hfunc hconstants
    · exact .fail trivial

end Check

end Frontend
