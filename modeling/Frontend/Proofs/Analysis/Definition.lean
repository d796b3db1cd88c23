import Frontend.Proofs.Analysis.Body

/-!
# Whole definitions

A definition that has not been begun is marked, its body is walked, and it is marked as done; in
between its nodes may be written to. Seen from outside this is a step that writes to none of the
nodes at hand, whatever further definitions it asks for. So demands are met at every depth.
-/

namespace Frontend

open Check

variable {p : Program} {stack : List Nat} {w : Demand} {s t u : AnalysisState}

/-- A mark keeps the invariant if it says nothing that is not so. -/
private theorem Inv.mark (hi : Inv p s) {d : Definition} (hd : Defined p s d)
    {progress : Progress} (hg : s.Grows (s.mark d.info.id progress))
    (htemplate : ∀ {f : FuncDef}, d = .function f → d ∈ p.definitions → f.isTemplate = false)
    (hanalysed : progress = .done → Analysed p s d) (hassigned : progress = .done → Assigned s d)
    (hsettled : progress = .done → ∀ {id g f}, d = .function f → s.store.func? id = some g →
      g.decl = some f → g.kind.returnsValue = true → g.ret.isSome) :
    Inv p (s.mark d.info.id progress) := by
  have hid : ∀ {e}, Defined p s e → e.info.id = d.info.id → e = d := fun he heq =>
    hi.disjoint he hd (Definition.info_mem_ids _) (heq ▸ d.info_mem_ids)
  have hdef : ∀ {e}, Defined p (s.mark d.info.id progress) e → Defined p s e := by
    intro e he
    cases he with
    | program h => exact .program h
    | copy h => exact .copy h
  refine hi.carry hg none (fun _ => id) (fun he => .inl (hdef he)) nofun (Nat.le_refl _) rfl ?_
    hi.linked ?_ .inl ?_ ?_ hi.unique ?_ ?_ ?_ ?_ hi.fixed ?_ hi.understood ?_ hi.outer
  · intro node hn
    refine AnalysisState.slots_mark ?_
    have hlt := hi.bounded hd d.info_mem_ids
    change s.nextId ≤ node at hn
    omega
  · intro id g e hf _ hnone
    exact absurd (hnone.symm.trans hf) nofun
  · intro i hm
    obtain ⟨f, copy, template, h⟩ := hi.known hm
    obtain ⟨g, -, h'⟩ := h.grows hg
    exact ⟨g, copy, template, h'⟩
  · intro k c hm
    obtain ⟨i, him, f, template, hk, h⟩ := hi.copied hm
    obtain ⟨g, -, h'⟩ := h.grows hg
    exact ⟨i, him, g, template, hk, h'⟩
  · intro e node he hnone hm
    refine AnalysisState.slots_mark fun heq => ?_
    have hed := hi.disjoint he hd (Definition.mem_ids_of_mem_bodyIds hm) (heq ▸ d.info_mem_ids)
    rw [hed, AnalysisState.progress_mark_self] at hnone
    cases hnone
  · intro f hf ht
    have hne : f.info.id ≠ d.info.id := by
      intro heq
      have hfd := hid (.program hf) heq
      rw [htemplate hfd.symm (hfd ▸ hf)] at ht
      cases ht
    exact (AnalysisState.progress_mark hne).trans (hi.template hf ht)
  · intro e he hdone site hm
    have he' : Analysed p s e := by
      by_cases heq : e.info.id = d.info.id
      · have hed := hid he heq
        rw [hed, AnalysisState.progress_mark_self] at hdone
        rw [hed]
        exact hanalysed (Option.some.inj hdone)
      · exact hi.analysed he ((AnalysisState.progress_mark heq).symm.trans hdone)
    obtain ⟨hm', hr⟩ := he' site hm
    exact ⟨hm', (hi.later hg rfl).resolved rfl hr⟩
  · intro e he hdone target hm
    have he' : Assigned s e := by
      by_cases heq : e.info.id = d.info.id
      · have hed := hid he heq
        rw [hed, AnalysisState.progress_mark_self] at hdone
        rw [hed]
        exact hassigned (Option.some.inj hdone)
      · exact hi.assigned he ((AnalysisState.progress_mark heq).symm.trans hdone)
    obtain ⟨hm', hassignable⟩ := he' target hm
    exact ⟨hm', hassignable.grows hg rfl⟩
  · intro id g f he hf hd' hdone hret
    by_cases heq : f.info.id = d.info.id
    · rw [heq, AnalysisState.progress_mark_self] at hdone
      exact hsettled (Option.some.inj hdone) (hid (hdef he) heq).symm hf hd' hret
    · exact hi.settled (hdef he) hf hd' ((AnalysisState.progress_mark heq).symm.trans hdone) hret
  · exact hi.constants.grows (fun h => h) (fun h => h) ⟨rfl, rfl⟩

/-- A definition is begun, unless it is a template of the program. -/
theorem Inv.begin (hi : Inv p s) {d : Definition} (hd : Defined p s d)
    (hnone : s.progress[d.info.id]? = none)
    (ht : ∀ {f : FuncDef}, d = .function f → d ∈ p.definitions → f.isTemplate = false) :
    Inv p (s.mark d.info.id .inProgress) :=
  hi.mark hd (AnalysisState.grows_begin hnone) ht nofun nofun nofun

/-- A definition is done. -/
theorem Inv.finish (hi : Inv p s) {d : Definition} (hd : Defined p s d)
    (hin : s.progress[d.info.id]? = some .inProgress) (ha : Analysed p s d) (hassigned : Assigned s d)
    (hsettled : ∀ {id g f}, d = .function f → s.store.func? id = some g → g.decl = some f →
      g.kind.returnsValue = true → g.ret.isSome) :
    Inv p (s.mark d.info.id .done) := by
  refine hi.mark hd AnalysisState.grows_finish ?_ (fun _ => ha) (fun _ => hassigned) (fun _ => hsettled)
  rintro f rfl hf
  cases ht : f.isTemplate with
  | false => rfl
  | true =>
    have hnone : s.progress[(Definition.function f).info.id]? = none := hi.template hf ht
    rw [hin] at hnone
    cases hnone

/-- Seen from outside, the walk over a body between two marks writes to none of the nodes at
hand. -/
theorem Step.complete {d : Definition} (hd : Defined p s d)
    (hnone : s.progress[d.info.id]? = none)
    (hs : Step p none d.bodyIds (s.mark d.info.id .inProgress) u)
    (hu : Inv p (u.mark d.info.id .done)) : Step p none [] s (u.mark d.info.id .done) := by
  have hdef : ∀ {e}, Defined p (s.mark d.info.id .inProgress) e ↔ Defined p s e := by
    refine fun {e} => ⟨fun he => ?_, fun he => ?_⟩ <;> cases he with
    | program h => exact .program h
    | copy h => exact .copy h
  have hdef' : ∀ {e}, Defined p (u.mark d.info.id .done) e → Defined p u e := by
    intro e he
    cases he with
    | program h => exact .program h
    | copy h => exact .copy h
  have hne : ∀ {node : Nat}, (u.mark d.info.id .done).progress[node]? ≠ some .done →
      node ≠ d.info.id := by
    rintro node h rfl
    exact h AnalysisState.progress_mark_self
  have hbegin := AnalysisState.grows_begin hnone
  refine
    { inv := hu
      grows := (hbegin.trans hs.grows).trans AnalysisState.grows_finish
      nextId := hs.nextId
      functions := hs.functions
      constants := hs.constants
      frame := fun {node} hlt _ hpending => ?_
      kept := hs.kept
      fresh := fun he => ?_
      active := fun {e} he hin => ?_
      running := fun {e} he hin => ?_
      unfinished := fun k => ?_
      begun := fun {e} he hnone' => ?_
      counted := hs.counted }
  · have hout : node ∉ d.ids := fun hm => hpending ⟨d, hd, hnone, hm⟩
    have hself : node ≠ d.info.id := fun heq => hout (heq ▸ d.info_mem_ids)
    rw [AnalysisState.slots_mark hself, hs.frame hlt
      (fun hm => hout (Definition.mem_ids_of_mem_bodyIds hm)) ?_, AnalysisState.slots_mark hself]
    rintro ⟨e, he, hnone', hm⟩
    exact hpending ⟨e, hdef.mp he, hbegin.progress_eq_none hnone', hm⟩
  · exact (hs.fresh (hdef' he)).imp hdef.mp id
  · have hself := hne (by rw [hin]; nofun)
    have hmid := hs.active (hdef' he) ((AnalysisState.progress_mark hself).symm.trans hin)
    exact (AnalysisState.progress_mark hself).symm.trans hmid
  · have hself : e.info.id ≠ d.info.id := by
      intro heq
      rw [heq, hnone] at hin
      cases hin
    rw [AnalysisState.progress_mark hself]
    exact hs.running (hdef.mpr he) ((AnalysisState.progress_mark hself).trans hin)
  · rw [AnalysisState.unfinished_mark (by nofun), hs.unfinished,
      AnalysisState.unfinished_mark_filter, AnalysisState.unfinished_filter_self]
    rw [hnone]
    nofun
  · have hself := hne (by rw [hnone']; nofun)
    exact hdef.mp (hs.begun (hdef' he) ((AnalysisState.progress_mark hself).symm.trans hnone'))

/-- The nodes of the body of a definition that has just been begun. -/
theorem Writable.begin (hi : Inv p s) {d : Definition} (hd : Defined p s d)
    (hnone : s.progress[d.info.id]? = none) :
    Writable p (s.mark d.info.id .inProgress) d.bodyIds where
  nodup := Definition.nodup_bodyIds (hi.nodup hd)
  owned node hm := ⟨d, hd.grows (AnalysisState.grows_begin hnone) fun _ => id,
    AnalysisState.progress_mark_self, hm⟩
  empty node hm := by
    have hne : node ≠ d.info.id := fun heq =>
      Definition.info_not_mem_bodyIds (hi.nodup hd) (heq ▸ hm)
    rw [AnalysisState.slots_mark hne]
    exact hi.empty hd hnone hm

/-- A definition stays under analysis while its body is walked. -/
theorem Step.still_running {d : Definition} (hd : Defined p s d)
    (hnone : s.progress[d.info.id]? = none)
    (hs : Step p none d.bodyIds (s.mark d.info.id .inProgress) u) :
    u.progress[d.info.id]? = some .inProgress :=
  hs.running (hd.grows (AnalysisState.grows_begin hnone) fun _ => id)
    AnalysisState.progress_mark_self

/-! ### Functions and constants -/

theorem Program.mem_layer {d : ConstDef} (hd : .constant d ∈ p.definitions) {c : ConstDecl}
    (hc : c ∈ d.decls) : (c.name, c.info.id) ∈ p.layer.names :=
  List.mem_flatMap.mpr ⟨d, Program.mem_constants.mpr hd, List.mem_map_of_mem hc⟩

/-- The constants that the program declares are known by their names. -/
theorem Inv.lookupConstant (hi : Inv p s) {d : ConstDef} (hd : .constant d ∈ p.definitions)
    {c : ConstDecl} (hc : c ∈ d.decls) : (s.store.lookupConstant c.name).isSome := by
  obtain ⟨blocks, hglobal⟩ := hi.global
  have hnames := hi.constants.names
  simp only [Store.namesIn, hglobal] at hnames
  have hmem : c.name ∈ s.store.constants.toList.map (·.name) := by
    rw [hnames]
    exact List.mem_map.mpr ⟨_, Program.mem_layer hd hc, rfl⟩
  obtain ⟨v, hv, hname⟩ := List.mem_map.mp hmem
  rw [Store.lookupConstant, Option.isSome_map, Array.findIdx?_isSome, Array.any_eq_true']
  exact ⟨v, Array.mem_toList_iff.mp hv, beq_iff_eq.mpr hname⟩

namespace Check

/-- The analysis of a function, or of an instance of a template. -/
theorem function_ensures (hw : w.Sound p stack) (hi : Inv p s) {d : FuncDef}
    (hd : Defined p s (.function d))
    (ht : .function d ∈ p.definitions → d.isTemplate = false)
    (hnone : s.progress[d.info.id]? = none)
    (hn : Nested p stack (s.mark d.info.id .inProgress)) :
    Ensures (Rejected p) (function w d) s fun _ t =>
      Step p none [] s t ∧ t.progress[d.info.id]? = some .done := by
  obtain ⟨id, f, scope, hf, hdecl, hdeclares, hchain⟩ := hi.homed hd
  obtain ⟨blocks, hglobal⟩ := hi.global
  have hbegin := hi.begin (d := .function d) hd hnone
    (fun heq hm => by cases heq; exact ht hm)
  have henv : Env.Matches (s.mark d.info.id .inProgress) [d.layer, p.layer] scope := by
    obtain ⟨⟨o, b, hscope⟩, -⟩ := (Store.Grows.refl s.store).isFunction_body hdeclares.func
    refine ⟨⟨_, hscope⟩, ?_⟩
    change List.Forall₂ _ _ (s.store.chain scope)
    rw [hchain]
    exact .cons (hdeclares.layer.grows (fun h => h) (fun h => h) ⟨rfl, rfl⟩)
      (.cons hbegin.constants .nil)
  have hready : Ready p stack (s.mark d.info.id .inProgress) [d.layer, p.layer] scope
      (Definition.function d).bodyIds := ⟨hbegin, hn, henv, Writable.begin hi hd hnone⟩
  have hfinish : ∀ {u g}, Walk p none (Definition.function d).bodyIds
      (d.bodySites [d.layer, p.layer]) d.targets (s.mark d.info.id .inProgress) u →
      u.store.func? id = some g → f.Grows g → (g.kind.returnsValue = true → g.ret.isSome) →
      Inv p (u.mark d.info.id .done) := by
    intro u g hwalk hg hfg hret
    have hgrows := (AnalysisState.grows_begin hnone).trans hwalk.step.grows
    have hd' := hd.grows hgrows fun _ h => h
    refine hwalk.step.inv.finish (d := .function d) hd'
      (Step.still_running (d := .function d) hd hnone hwalk.step) (fun site hm => ?_)
      (fun target hm => ?_) ?_
    · have hsub := d.headIds_append_bodyIds.subset
      simp only [Definition.sites, FuncDef.sites_eq, List.mem_append] at hm
      rcases hm with hm | hm
      · have hdeclares' := hdeclares.grows hgrows.store hgrows.link hgrows.scope hf hfg
        obtain ⟨hid, hres⟩ := hdeclares'.resolved site hm
        exact ⟨hsub (List.mem_append_left _ hid), hres⟩
      · obtain ⟨hid, hres⟩ := hwalk.found.resolved site hm
        exact ⟨hsub (List.mem_append_right _ hid), hres⟩
    · obtain ⟨hid, hassignable⟩ := hwalk.found.assigned target hm
      exact ⟨Definition.mem_ids_of_mem_bodyIds hid, hassignable⟩
    · intro id' g' d' heq hg' hdecl' hret'
      cases heq
      have hgg := hwalk.step.inv.eq_of_decl hg (hfg.decl.trans hdecl) hg' hdecl'
      rw [← hgg] at hret' ⊢
      exact hret hret'
  refine (FuncDef.walks hw d (hi.shaped hd) hi (hdeclares.layer.owner rfl) hdeclares.func hf
    hnone hready hfinish).imp fun _ t _ h => ?_
  obtain ⟨u, g, hwalk, hg, hfg, hret, rfl⟩ := h
  exact ⟨Step.complete (d := .function d) hd hnone hwalk.step (hfinish hwalk hg hfg hret),
    AnalysisState.progress_mark_self⟩

theorem typeOf?_ensures {refuse : Failure → AnalysisState → Prop} {handle : VarHandle} :
    Ensures refuse (typeOf? handle) s fun _ t => t = s := .bind (.store (.pure rfl))

/-- Constants that are declared are found. -/
theorem constantHandles_ensures {refuse : Failure → AnalysisState → Prop} {decls : List ConstDecl}
    (hfound : ∀ c ∈ decls, (s.store.lookupConstant c.name).isSome) :
    Ensures refuse (constantHandles decls) s fun _ t => t = s := by
  induction decls with
  | nil => exact .pure rfl
  | cons c rest ih =>
    rw [List.forall_mem_cons] at hfound
    obtain ⟨handle, hhandle⟩ := Option.isSome_iff_exists.mp hfound.1
    refine .bind (.store ?_)
    rw [hhandle]
    exact .bind ((ih hfound.2).imp fun _ _ _ heq => .pure heq)

theorem assignConstants_ensures (hi : Inv p s) (decls : List ConstDecl)
    (handles : List VarHandle) (types : List Ty) :
    Ensures (Rejected p) (assignConstants decls handles types) s fun _ t => Step p none [] s t := by
  induction decls generalizing s handles types with
  | nil => exact .pure (.refl hi)
  | cons d rest ih =>
    match handles, types with
    | [], _ => exact .pure (.refl hi)
    | _ :: _, [] => exact .pure (.refl hi)
    | handle :: handles, type :: types =>
      refine .bind ((assignConstant_ensures hi handle type _).imp fun _ t _ hs => ?_)
      exact (ih hs.inv handles types).imp fun _ u _ hs' => hs.trans hs'

/-- The declarations of constants are linked from the first pass on. -/
theorem constDecl_resolved (hi : Inv p s) {d : ConstDef} (hd : .constant d ∈ p.definitions)
    {c : ConstDecl} (hc : c ∈ d.decls) : (Site.declaration c.info c.name).Resolved s := by
  obtain ⟨i, hi'⟩ := List.mem_iff_getElem?.mp (Program.mem_layer hd hc)
  obtain ⟨hl, ⟨v, hv, hn⟩, -, -⟩ := hi.constants.denotes hi'
  exact fun _ => ⟨_, v, hl, hv, hn⟩

/-- The analysis of a constant definition. -/
theorem constants_ensures (hw : w.Sound p stack) (hi : Inv p s) {d : ConstDef}
    (hd : .constant d ∈ p.definitions) (hnone : s.progress[d.info.id]? = none)
    (hn : Nested p stack (s.mark d.info.id .inProgress)) :
    Ensures (Rejected p) (constants w d) s fun _ t =>
      Step p none [] s t ∧ t.progress[d.info.id]? = some .done := by
  obtain ⟨blocks, hglobal⟩ := hi.global
  have hbegin := hi.begin (d := .constant d) (.program hd) hnone (by simp)
  have henv : Env.Matches (s.mark d.info.id .inProgress) [p.layer] Store.globalScope := by
    refine ⟨⟨_, hglobal⟩, ?_⟩
    change List.Forall₂ _ _ (s.store.chain Store.globalScope)
    simp only [Store.chain, hglobal]
    exact .cons hbegin.constants .nil
  have hready : Ready p stack (s.mark d.info.id .inProgress) [p.layer] Store.globalScope
      (exprIds d.values) :=
    ⟨hbegin, hn, henv, Writable.begin hi (d := .constant d) (.program hd) hnone⟩
  have hshape := hi.shaped (.program hd)
  refine analysing_ensures hw hi (hn.beginning hbegin hnone) (.bind
    ((constantHandles_ensures fun c => hbegin.lookupConstant hd).imp fun handles t _ heq => ?_))
  subst heq
  refine .bind ((Ensures.mapM fun handle _ => typeOf?_ensures).imp fun hints t _ hhints => ?_)
  obtain ⟨rfl, -⟩ := hhints
  refine .bind ((values_ensures (exprs_walk hw d.values hshape) hints _ hready).imp
    fun types u _ hvalues => ?_)
  refine (assignConstants_ensures hvalues.1.step.inv d.decls handles types).imp fun _ v _ hs => ?_
  have hwalk := hvalues.1.andThen hready.writable.owned hs
  have hv : Inv p (v.mark d.info.id .done) := by
    refine hwalk.step.inv.finish (d := .constant d) (.program hd)
      (Step.still_running (d := .constant d) (.program hd) hnone hwalk.step)
      (fun site hm => ?_) (fun target hm => ?_) fun h => by cases h
    · simp only [Definition.sites, List.mem_append, List.mem_map] at hm
      rcases hm with ⟨c, hc, rfl⟩ | hm
      · refine ⟨?_, constDecl_resolved hwalk.step.inv hd hc⟩
        simp only [Definition.ids, ConstDef.ids, List.mem_cons, List.mem_append]
        exact .inr (.inl ((heads_sublist ConstDecl.head_sublist d.decls).subset
          (List.mem_map_of_mem hc)))
      · obtain ⟨hid, hres⟩ := hwalk.found.resolved site hm
        exact ⟨Definition.mem_ids_of_mem_bodyIds (d := .constant d) hid, hres⟩
    · obtain ⟨hid, hassignable⟩ := hwalk.found.assigned target hm
      exact ⟨Definition.mem_ids_of_mem_bodyIds (d := .constant d) hid, hassignable⟩
  have hfinish := (hn.step hwalk.step).finishing hwalk.step.inv (.constant hd rfl)
  exact ⟨⟨hv, hfinish⟩, Step.complete (d := .constant d) (.program hd) hnone hwalk.step hv,
    AnalysisState.progress_mark_self⟩

end Check

end Frontend
