import Frontend.Proofs.Analysis.Primitive

/-!
# Opening scopes

A new scope lies behind all others in the store, so nothing that was looked up before is touched.
A block scope that has just been opened matches an empty layer, and each declaration adds its name
to the layer.
-/

namespace Frontend

variable {p : Program} {stack : List Nat} {s t : AnalysisState}

/-- A store in which a scope has been opened; others may have noted that. -/
structure Store.Opens (s t : Store) (id : ScopeId) (a : Scope) : Prop where
  id_eq : id = s.scopes.size
  opened : t.scopes[id]? = some a
  old : ∀ {i : Nat} {b : Scope}, s.scopes[i]? = some b →
    ∃ c, t.scopes[i]? = some c ∧ c.body = b.body ∧ c.outer = b.outer
  back : ∀ {i : Nat} {c : Scope}, t.scopes[i]? = some c → i = id ∨ ∃ b, s.scopes[i]? = some b

namespace Store

theorem openBlock_eq_ok {s t : Store} {parent id : ScopeId} (h : s.openBlock parent = .ok (id, t)) :
    s.Opens t id ⟨.block #[], s.chain parent, #[]⟩ ∧ t.funcs = s.funcs ∧
      t.constants = s.constants ∧ t.functions = s.functions := by
  have hshape : ∀ {scopes : Array Scope} {note : Scope → Scope},
      scopes = (s.scopes.modify parent note).push ⟨.block #[], s.chain parent, #[]⟩ →
      (∀ b, (note b).body = b.body ∧ (note b).outer = b.outer) →
      s.Opens { s with scopes } s.scopes.size ⟨.block #[], s.chain parent, #[]⟩ := by
    rintro scopes note rfl hnote
    have hsize : (s.scopes.modify parent note).size = s.scopes.size := Array.size_modify
    refine ⟨rfl, ?_, fun {i b} hb => ?_, fun {i c} hc => ?_⟩
    · rw [← hsize]
      exact Array.getElem?_push_size
    · have hlt : i < s.scopes.size := (Array.getElem?_eq_some_iff.mp hb).1
      rw [Array.getElem?_push, hsize, if_neg (by omega), Array.getElem?_modify, hb]
      split
      · exact ⟨_, rfl, hnote b⟩
      · exact ⟨b, rfl, rfl, rfl⟩
    · have hlt : i < s.scopes.size + 1 := by
        have h := (Array.getElem?_eq_some_iff.mp hc).1
        rwa [Array.size_push, hsize] at h
      by_cases heq : i = s.scopes.size
      · exact .inl heq
      · exact .inr ⟨_, Array.getElem?_eq_getElem (by omega)⟩
  unfold openBlock at h
  split at h
  · cases h
    exact ⟨hshape rfl fun b => ⟨rfl, rfl⟩, rfl, rfl, rfl⟩
  · cases h
    exact ⟨hshape rfl fun b => ⟨rfl, rfl⟩, rfl, rfl, rfl⟩
  · cases h

/-- A block is opened in any scope but the global one. -/
theorem openBlock_eq_error {s : Store} {parent : ScopeId} {f : Fault}
    (h : s.openBlock parent = .error f) : s.isInner parent = false := by
  unfold openBlock at h
  unfold isInner isFunction isBlock
  rcases hs : s.scopes[parent]? with _ | ⟨_ | _ | _, outer, blocks⟩
  · rfl
  · rfl
  · simp only [hs] at h
    cases h
  · simp only [hs] at h
    cases h

namespace Opens

variable {s t : Store} {id : ScopeId} {a : Scope}

theorem not_old (h : s.Opens t id a) : s.scopes[id]? = none := by
  rw [h.id_eq]
  exact Array.getElem?_eq_none (Nat.le_refl _)

theorem grows (h : s.Opens t id a)
    (hfuncs : ∀ {f g}, s.func? f = some g → t.func? f = some g)
    (hconstants : t.constants = s.constants) : s.Grows t where
  func hf := ⟨_, hfuncs hf, .refl _⟩
  scope hb := by
    obtain ⟨c, hc, hbody, houter⟩ := h.old hb
    exact ⟨c, hc, by rw [hbody]; exact .refl _, houter⟩
  constant hv := ⟨_, by rw [hconstants]; exact hv, .refl _⟩

/-- The scopes around a new scope are older. -/
theorem outer (h : s.Opens t id a) {inside : ScopeId} (ha : a.outer = s.chain inside)
    (hs : ∀ {i o : ScopeId} {b : Scope}, s.scopes[i]? = some b → o ∈ b.outer → o < i)
    {i o : ScopeId} {b : Scope} (hb : t.scopes[i]? = some b) (ho : o ∈ b.outer) : o < i := by
  rcases h.back hb with rfl | ⟨c, hc⟩
  · rw [h.opened] at hb
    cases hb
    rw [ha] at ho
    unfold chain at ho
    split at ho
    · next c hc =>
      have hlt : inside < s.scopes.size := (Array.getElem?_eq_some_iff.mp hc).1
      rw [h.id_eq]
      rcases List.mem_cons.mp ho with rfl | ho
      · exact hlt
      · exact Nat.lt_trans (hs hc ho) hlt
    · cases ho
  · obtain ⟨c', hc', -, houter⟩ := h.old hc
    rw [hb] at hc'
    cases hc'
    rw [houter] at ho
    exact hs hc ho

/-- A function scope is the new scope or an old one. -/
theorem scopeFuncId? (h : s.Opens t id a) {i : ScopeId} {f : FuncId}
    (hf : t.scopeFuncId? i = some f) :
    (i = id ∧ a.body = .function (some f)) ∨ s.scopeFuncId? i = some f := by
  unfold Store.scopeFuncId? at hf
  split at hf
  · next func outer blocks hc =>
    subst hf
    rcases h.back hc with rfl | ⟨b, hb⟩
    · rw [h.opened] at hc
      cases hc
      exact .inl ⟨rfl, rfl⟩
    · obtain ⟨c', hc', hbody, -⟩ := h.old hb
      rw [hc] at hc'
      cases hc'
      obtain ⟨body, outer', blocks'⟩ := b
      cases hbody
      exact .inr (by simp only [Store.scopeFuncId?, hb])
  · cases hf

/-- The scopes around a new scope are those around the scope it was opened in. -/
theorem chain (h : s.Opens t id a) : t.chain id = id :: a.outer := by
  simp only [Store.chain, h.opened]

/-- A block lies in the function that the scope around it lies in. -/
theorem within {parent : ScopeId} {vars : Array VarSymbol} {blocks : Array ScopeId} {home : FuncId}
    (h : s.Opens t id ⟨.block vars, s.chain parent, blocks⟩)
    (hparent : t.chain parent = s.chain parent) (hw : t.Within parent home) :
    t.Within id home := by
  obtain ⟨between, inside, outer, hchain, hblocks, hid⟩ := hw
  rw [hparent] at hchain
  refine ⟨id :: between, inside, outer, ?_, List.forall_mem_cons.mpr ⟨?_, hblocks⟩, hid⟩
  · rw [h.chain, hchain, List.cons_append]
  · simp only [Store.isBlock, h.opened]

end Opens

end Store

namespace Check

/-- A block gets a scope of its own, which declares nothing yet. -/
theorem openBlock_ensures {env : Env} {scope : ScopeId} {info : NodeInfo}
    (hr : Ready p stack s env scope [info.id]) {home : FuncId}
    (hwithin : s.store.Within scope home) :
    Ensures (Rejected p) (openBlock scope info.id) s fun inner t =>
      Walk p none [info.id] [.scope info] [] s t ∧ s.store.scopes[inner]? = none ∧
        Env.Matches t (⟨some info.id, []⟩ :: env) inner ∧ t.store.isBlock inner = true ∧
          t.store.Within inner home := by
  have hi := hr.inv
  have hslots := hr.writable.empty info.id List.mem_cons_self
  have hcontains : s.scopes.contains info.id = false := by
    rw [Std.TreeMap.contains_eq_isSome_getElem?, show s.scopes[info.id]? = none from
      congrArg Slots.scope hslots]
    rfl
  refine .bind (.store ?_)
  cases hst : s.store.openBlock scope with
  | error f =>
    have hinner := hwithin.isInner
    rw [Store.openBlock_eq_error hst] at hinner
    cases hinner
  | ok opened =>
    obtain ⟨inner, st⟩ := opened
    obtain ⟨hopens, hfuncs, hconstants, hfunctions⟩ := Store.openBlock_eq_ok hst
    have hfunc : ∀ id, st.func? id = s.store.func? id := fun id => by
      rw [Store.func?, Store.func?, hfuncs]
    refine .bind (.setStore (.bind (.modify (.pure ?_))))
    simp only [Resolution.setScope, hcontains, Bool.false_eq_true, if_false]
    have hgrows : s.store.Grows st := hopens.grows (fun hf => by rw [hfunc]; exact hf) hconstants
    have hnone : s.scopes[info.id]? = none := congrArg Slots.scope hslots
    have hstep : Step p none [info.id] s
        { s with store := st, scopes := s.scopes.insert info.id inner } := by
      refine Step.owned hi ?_ hr.writable.owned rfl rfl rfl rfl rfl hfunctions
        (by rw [hconstants]) ?_ ?_ ?_ ?_ (fun n hn htype => ?_) (hopens.outer rfl hi.outer) ?_
      · exact { AnalysisState.Grows.refl s with
          store := hgrows
          scope := getElem?_insert_of_some hnone }
      · intro n hn
        rw [List.mem_singleton] at hn
        simp only [AnalysisState.slots, getElem?_insert, if_neg (Ne.symm hn)]
      · intro i id hs
        rcases hopens.scopeFuncId? hs with ⟨-, hbody⟩ | hs
        · cases hbody
        · exact (hfunc id).symm ▸ hi.linked hs
      · intro id g d hg _ hnone'
        exact absurd ((hfunc id).symm.trans hg) (by simp [hnone'])
      · intro id g d hdef hg
        exact hi.settled hdef ((hfunc id).symm.trans hg)
      · rw [List.mem_singleton.mp hn,
          show s.types[info.id]? = none from congrArg Slots.type hslots] at htype
        cases htype
      · intro i a b ha hb _
        obtain ⟨c, hc, hbody, -⟩ := hopens.old ha
        have hbc := hb.symm.trans hc
        cases hbc
        exact hbody
    refine ⟨⟨hstep, ?_, List.forall_mem_nil _⟩, hopens.not_old, ⟨⟨_, hopens.opened⟩, ?_⟩, ?_, ?_⟩
    · intro site hm
      rw [List.mem_singleton.mp hm]
      refine ⟨List.mem_cons_self, ?_⟩
      simp only [Site.Resolved, getElem?_insert, if_true, Option.isSome_some]
    · change List.Forall₂ _ _ (st.chain inner)
      rw [hopens.chain]
      have hhandle : ∀ i, st.handleIn inner i = .inner inner i := fun i => by
        simp only [Store.handleIn, hopens.opened]
      refine .cons ⟨?_, (by simp), fun i => by rw [hhandle]; rfl, ?_, (by simp)⟩ ?_
      · rintro node ⟨⟩
        simp only [getElem?_insert, if_true]
      · simp only [Store.namesIn, hopens.opened]
        rfl
      · exact hstep.toAdvance.matches_layers hi hr.env.layers (fun id => hi.scope_of_mem_chain)
          fun _ _ => by simp
    · simp only [Store.isBlock, hopens.opened]
    · obtain ⟨a, ha⟩ := hr.env.scope
      exact hopens.within (hgrows.chain_eq ha) (hwithin.grows hgrows)

end Check

/-! ### Declarations in a block -/

namespace Store

theorem defineVar_eq_ok {s t : Store} {id : ScopeId} {v : VarSymbol} {handle : VarHandle}
    (hb : s.isBlock id = true) (h : s.defineVar id v = .ok (handle, t)) :
    ∃ vars outer blocks, s.scopes[id]? = some ⟨.block vars, outer, blocks⟩ ∧
      handle = .inner id vars.size ∧
      t.scopes[id]? = some ⟨.block (vars.push v), outer, blocks⟩ ∧
      (∀ i, i ≠ id → t.scopes[i]? = s.scopes[i]?) ∧ t.funcs = s.funcs ∧
      t.constants = s.constants ∧ t.functions = s.functions := by
  unfold isBlock at hb
  split at hb
  · next vars outer blocks hs =>
    unfold defineVar at h
    split at h
    · cases h
    · simp only [hs, Except.ok.injEq, Prod.mk.injEq] at h
      obtain ⟨rfl, rfl⟩ := h
      refine ⟨vars, outer, blocks, hs, rfl, ?_, fun i hi => ?_, rfl, rfl, rfl⟩
      · simp only [Array.getElem?_modify, if_true, hs, Option.map_some]
      · simp only [Array.getElem?_modify, if_neg (Ne.symm hi)]
  · cases hb

theorem grows_defineVar {s t : Store} {id : ScopeId} {v : VarSymbol} {vars : Array VarSymbol}
    {outer : List ScopeId} {blocks : Array ScopeId}
    (hs : s.scopes[id]? = some ⟨.block vars, outer, blocks⟩)
    (ht : t.scopes[id]? = some ⟨.block (vars.push v), outer, blocks⟩)
    (hother : ∀ i, i ≠ id → t.scopes[i]? = s.scopes[i]?)
    (hfunc : ∀ id, t.func? id = s.func? id) (hconstants : t.constants = s.constants) :
    s.Grows t where
  func hf := ⟨_, by rw [hfunc]; exact hf, .refl _⟩
  scope {i a} ha := by
    by_cases heq : i = id
    · subst heq
      rw [hs] at ha
      cases ha
      refine ⟨_, ht, .block ?_, rfl⟩
      rw [Array.toList_push]
      exact List.prefix_append _ _
    · exact ⟨a, by rw [hother i heq]; exact ha, .refl a⟩
  constant hv := ⟨_, by rw [hconstants]; exact hv, .refl _⟩

/-- Declaring a variable does not concern function scopes. -/
theorem scopeFuncId?_defineVar {s t : Store} {id : ScopeId} {vars : Array VarSymbol}
    {outer : List ScopeId} {blocks : Array ScopeId}
    (ht : t.scopes[id]? = some ⟨.block vars, outer, blocks⟩)
    (hother : ∀ i, i ≠ id → t.scopes[i]? = s.scopes[i]?) {i : ScopeId} {f : FuncId}
    (h : t.scopeFuncId? i = some f) : s.scopeFuncId? i = some f := by
  by_cases heq : i = id
  · subst heq
    simp only [scopeFuncId?, ht] at h
    cases h
  · simp only [scopeFuncId?, hother i heq] at h ⊢
    exact h

end Store

theorem introduced_singleton {name : String} (hn : name ≠ "_") (node : Nat) :
    introduced [(name, node)] = [(name, node)] := by
  simp [introduced, hn]

/-- A block scope that gets a variable matches the layer with its name added. -/
theorem Layer.Matches.declare {l : Layer} {scope : ScopeId} {vars : Array VarSymbol}
    {outer : List ScopeId} {blocks : Array ScopeId} {v : VarSymbol} {node : Nat}
    (h : l.Matches s scope) (hg : s.Grows t)
    (hs : s.store.scopes[scope]? = some ⟨.block vars, outer, blocks⟩)
    (ht : t.store.scopes[scope]? = some ⟨.block (vars.push v), outer, blocks⟩)
    (hl : t.links[node]? = some (.var (.inner scope vars.size))) :
    Layer.Matches t { l with names := l.names ++ [(v.name, node)] } scope := by
  have hhandle : ∀ i, t.store.handleIn scope i = s.store.handleIn scope i := fun i => by
    simp only [Store.handleIn, hs, ht]
  have hnames := h.names
  simp only [Store.namesIn, hs] at hnames
  have hsize : vars.size = l.names.length := by
    have hlen := congrArg List.length hnames
    simpa using hlen
  refine ⟨fun ho => hg.scope (h.owner ho), h.root, fun i => by rw [hhandle]; exact h.home i, ?_, ?_⟩
  · simp only [Store.namesIn, ht, Array.toList_push, List.map_append, hnames, List.map_cons,
      List.map_nil]
  · intro i name n hi
    rw [hhandle]
    by_cases hlt : i < l.names.length
    · rw [List.getElem?_append_left hlt] at hi
      exact hg.link (h.links hi)
    · rw [List.getElem?_append_right (by omega)] at hi
      obtain ⟨hone, hpair⟩ := List.getElem?_eq_some_iff.mp hi
      have hieq : i = vars.size := by
        simp only [List.length_singleton] at hone
        omega
      simp only [List.getElem_singleton, Prod.mk.injEq] at hpair
      rw [← hpair.2, hl, hieq]
      simp only [Store.handleIn, hs]

namespace Check

/-- A variable that is declared in a block is added to its layer; an underscore is not. -/
theorem declareVar_ensures {env : Env} {scope : ScopeId} {info : NodeInfo}
    (hr : Ready p stack s env scope [info.id]) (hblock : s.store.isBlock scope = true)
    (name : String) (type : Ty) (isVar : Bool) :
    Ensures (Rejected p) (declareVar scope info name type isVar) s fun _ t =>
      Walk p (some scope) [info.id] [.declaration info name] [] s t ∧
        (env.declare (introduced [(name, info.id)])).Matches t scope := by
  have hi := hr.inv
  unfold declareVar
  split
  · next hn =>
    refine .pure ⟨⟨(Step.refl hi).mono (List.nil_subset _), ?_, List.forall_mem_nil _⟩, ?_⟩
    · intro site hm
      rw [List.mem_singleton.mp hm]
      exact ⟨List.mem_cons_self, fun h => absurd hn h⟩
    · have hnil : introduced [(name, info.id)] = [] := by simp [introduced, hn]
      rw [hnil, Env.declare_nil]
      exact hr.env
  · next hn =>
    have hslots := hr.writable.empty info.id List.mem_cons_self
    have hnone : s.links[info.id]? = none := congrArg Slots.link hslots
    have hcontains : s.links.contains info.id = false := by
      rw [Std.TreeMap.contains_eq_isSome_getElem?, hnone]
      rfl
    refine .bind (.bind (.store ?_))
    split
    · next hnot => simp [hblock] at hnot
    · cases hdef : s.store.defineVar scope ⟨name, some type, isVar⟩ with
      | error existing => exact .fail (hi.rejected _ (by rintro ⟨⟩))
      | ok defined =>
        obtain ⟨handle, st⟩ := defined
        obtain ⟨vars, outer, blocks, hs, rfl, ht, hother, hfuncs, hconstants, hfunctions⟩ :=
          Store.defineVar_eq_ok hblock hdef
        refine .bind (.setStore (.pure (.modify ?_)))
        simp only [Resolution.link, hcontains, Bool.false_eq_true, if_false]
        have hfunc : ∀ id, st.func? id = s.store.func? id := fun id => by
          rw [Store.func?, Store.func?, hfuncs]
        have hgrows : s.store.Grows st := Store.grows_defineVar hs ht hother hfunc hconstants
        have hstep : Step p (some scope) [info.id] s
            { s with
              store := st
              links := s.links.insert info.id (.var (.inner scope vars.size)) } := by
          refine Step.owned hi ?_ hr.writable.owned rfl rfl rfl rfl rfl hfunctions
            (by rw [hconstants]) ?_ ?_ ?_ ?_ (fun n hn htype => ?_) ?_ ?_
          · exact { AnalysisState.Grows.refl s with
              store := hgrows
              link := getElem?_insert_of_some hnone }
          · intro n hn
            rw [List.mem_singleton] at hn
            simp only [AnalysisState.slots, getElem?_insert, if_neg (Ne.symm hn)]
          · intro i id hid
            exact (hfunc id).symm ▸ hi.linked (Store.scopeFuncId?_defineVar ht hother hid)
          · intro id g d hg _ hnone'
            exact absurd ((hfunc id).symm.trans hg) (by simp [hnone'])
          · intro id g d hdef hg
            exact hi.settled hdef ((hfunc id).symm.trans hg)
          · rw [List.mem_singleton.mp hn,
              show s.types[info.id]? = none from congrArg Slots.type hslots] at htype
            cases htype
          · intro i o a ha ho
            by_cases heq : i = scope
            · subst heq
              have hat := ht.symm.trans ha
              cases hat
              exact hi.outer hs ho
            · exact hi.outer ((hother i heq).symm.trans ha) ho
          · intro i a b ha hb hcur
            have hne : i ≠ scope := fun heq => hcur (congrArg some heq.symm)
            have hab := ((hother i hne).trans ha).symm.trans hb
            cases hab
            rfl
        have hlink : (s.links.insert info.id (.var (.inner scope vars.size)))[info.id]? =
            some (Link.var (.inner scope vars.size)) := by
          simp only [getElem?_insert, if_true]
        refine ⟨⟨hstep, ?_, List.forall_mem_nil _⟩, ?_⟩
        · intro site hm
          rw [List.mem_singleton.mp hm]
          refine ⟨List.mem_cons_self, fun _ => ⟨_, ⟨name, some type, isVar⟩, hlink, ?_, rfl⟩⟩
          simp only [Store.var?, ht, Array.getElem?_push_size]
        · rw [introduced_singleton hn]
          have hchain : st.chain scope = scope :: outer := by simp only [Store.chain, ht]
          have hlayers := hr.env.layers
          simp only [Store.chain, hs] at hlayers
          cases hlayers with
          | @cons l _ env _ hl hrest =>
            refine ⟨⟨_, ht⟩, ?_⟩
            change List.Forall₂ _ _ (st.chain scope)
            rw [hchain]
            refine .cons (hl.declare hstep.grows hs ht hlink) ?_
            refine hstep.toAdvance.matches_layers hi hrest (fun id hid => ?_) fun id hid heq => ?_
            · have hmem : id ∈ s.store.chain scope := by
                simp only [Store.chain, hs]
                exact List.mem_cons_of_mem _ hid
              exact hi.scope_of_mem_chain hmem
            · cases heq
              exact Nat.lt_irrefl _ (hi.outer hs hid)

end Check

end Frontend
