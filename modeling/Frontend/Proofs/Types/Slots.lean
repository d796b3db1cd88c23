import Frontend.Proofs.Analysis.Nesting
import Frontend.Proofs.Types.Proceeds

/-!
# Slots and scopes

The operations that write one slot of a node, open a block, declare a variable or decide a result
type, each with the condition under which types stay proper.
-/

namespace Frontend

variable {p : Program} {g : Ground} {l : Terrain} {scope : ScopeId} {s t : AnalysisState}

namespace AnalysisState

theorem Extends.of_store {st : Store} (h : s.store.Grows st) :
    s.Extends { s with store := st } := ⟨h, id⟩

/-- Nothing but slots of nodes has changed. -/
theorem Extends.of_slots (hstore : t.store = s.store) (hcopies : t.copies = s.copies) :
    s.Extends t := ⟨hstore ▸ .refl _, fun h => hcopies ▸ h⟩

/-- What is kept does not depend on slots that are written as they should be. -/
theorem Kept.of_slots (h : s.Kept p l) (hstore : t.store = s.store) (hcopies : t.copies = s.copies)
    (hknown : t.known = s.known) (hnext : t.nextId = s.nextId)
    (hlink : ∀ {node : Nat} {target}, s.links[node]? = some target → t.links[node]? = some target)
    (hrefused : s.refused ⊆ t.refused)
    (hscope : ∀ {node : Nat} {scope}, t.scopes[node]? = some scope →
      s.scopes[node]? = some scope ∨ s.store.Concrete scope ∨ ¬ l.free node)
    (htype : ∀ {node : Nat} {type}, t.types[node]? = some type →
      s.types[node]? = some type ∨ type.Proper ∨ node ∈ s.refused ∨
        Plays p s .callee node ∧ s.IsBuiltin node type) : t.Kept p l := by
  have he : s.Extends t := .of_slots hstore hcopies
  exact
    { func := fun hf => (h.func (hstore ▸ hf)).extends he
      constant := fun hv => h.constant (hstore ▸ hv)
      block := fun hv => h.block (hstore ▸ hv)
      global := h.global.grows he.store
      instances := fun id hm => (h.instances id (hstore ▸ hm)).grows he.store
      lambdas := fun id hm => (h.lambdas id (hstore ▸ hm)).grows he.store
      known := fun i hm => (h.known i (hknown ▸ hm)).grows he.store
      scope := fun hs => ((hscope hs).elim (fun hs => h.scope hs) fun hs => hs).imp_left
        fun hc => hc.grows he.store
      type := fun ht => by
        have hkept := (htype ht).elim (fun ht => h.type ht) fun ht => ht
        exact hkept.imp_right fun hkept => hkept.imp (fun hr => hrefused hr) fun hb =>
          ⟨hb.1.extends he, hb.2.grows he.store hlink⟩
      fresh := fun node hn => h.fresh node (hnext ▸ hn)
      numbered := h.numbered.of_eq hcopies hnext
      placed := hstore ▸ h.placed }

theorem Roster.of_slots (h : s.Roster) (hstore : t.store = s.store) (hknown : t.known = s.known)
    (hcopies : t.copies = s.copies) : t.Roster :=
  h.carry (hstore ▸ .refl _) (by rw [hstore]) (by rw [hstore]) hknown hcopies

/-- A node is linked, or the attempt is noted. -/
theorem link_eq (node : Nat) (target : Link) : ∃ links refused,
    { s with toResolution := s.toResolution.link node target } = { s with links, refused } ∧
      (links[node]? = some target ∨ node ∈ refused) ∧ s.refused ⊆ refused ∧
      ∀ {n : Nat} {target'}, s.links[n]? = some target' → links[n]? = some target' := by
  unfold Resolution.link
  split
  · exact ⟨_, _, rfl, .inr List.mem_cons_self, List.subset_cons_self _ _, id⟩
  · next hnone =>
    have hnone' : s.links[node]? = none := by
      rwa [Bool.not_eq_true, Std.TreeMap.contains_eq_isSome_getElem?,
        Option.isSome_eq_false_iff, Option.isNone_iff_eq_none] at hnone
    refine ⟨_, _, rfl, .inl ?_, List.Subset.refl _, getElem?_insert_of_some hnone'⟩
    simp only [getElem?_insert, if_true]

theorem Kept.links (h : s.Kept p l) {links : Std.TreeMap Nat Link} {refused : List Nat}
    (hr : s.refused ⊆ refused)
    (hl : ∀ {n : Nat} {target}, s.links[n]? = some target → links[n]? = some target) :
    Kept p l { s with links, refused } :=
  h.of_slots rfl rfl rfl rfl hl hr .inl .inl

/-- A node gets a scope that is as it should be, or the attempt is noted. -/
theorem Kept.setScope (h : s.Kept p l) (node : Nat) (inner : ScopeId)
    (hi : s.store.Concrete inner ∨ ¬ l.free node) :
    Kept p l { s with toResolution := s.toResolution.setScope node inner } := by
  unfold Resolution.setScope
  split
  · exact h.of_slots rfl rfl rfl rfl id (List.subset_cons_self _ _) .inl .inl
  · refine h.of_slots rfl rfl rfl rfl id (List.Subset.refl _) (fun {n sc} hs => ?_) .inl
    simp only [getElem?_insert] at hs
    split at hs
    · next heq =>
      cases hs
      exact .inr (heq ▸ hi)
    · exact .inl hs

theorem setScope_eq (node : Nat) (inner : ScopeId) : ∃ scopes refused,
    { s with toResolution := s.toResolution.setScope node inner } =
      { s with scopes, refused } := by
  unfold Resolution.setScope
  split <;> exact ⟨_, _, rfl⟩

end AnalysisState

namespace Check

/-! ### Slots -/

theorem setType_proceeds {node : Nat} {type : Ty}
    (h : type.Proper ∨ node ∈ s.refused ∨ Plays p s .callee node ∧ s.IsBuiltin node type) :
    Proceeds p g scope (setType node type) s fun _ t => t.types[node]? = some type := by
  refine fun hs => .bind (.get ?_)
  unfold Resolution.setType
  split
  · next r hr =>
    split at hr
    · cases hr
    · cases hr
      refine .set ?_
      have hk : AnalysisState.Kept p g.toTerrain
          { s with types := s.types.insert node type } := by
        refine hs.kept.of_slots rfl rfl rfl rfl id (List.Subset.refl _) .inl fun {n t} ht => ?_
        simp only [getElem?_insert] at ht
        split at ht
        · next heq =>
          cases ht
          exact .inr (heq ▸ h)
        · exact .inl ht
      refine ⟨.of_slots rfl rfl,
        hs.extend (.of_slots rfl rfl) hk (hs.roster.of_slots rfl rfl rfl), ?_⟩
      simp only [getElem?_insert, if_true]
  · next f hf =>
    split at hf
    · cases hf
      exact .fault ⟨nofun, hs.kept⟩
    · cases hf

/-- A node is linked, and what is known of links stays known. -/
theorem link_proceeds (node : Nat) (target : Link) :
    Proceeds p g scope (link node target) s fun _ t =>
      (t.links[node]? = some target ∨ node ∈ t.refused) ∧ t.store = s.store ∧
        s.refused ⊆ t.refused ∧
          ∀ {n : Nat} {target'}, s.links[n]? = some target' → t.links[n]? = some target' := by
  obtain ⟨links, refused, heq, hnode, hr, hl⟩ := s.link_eq node target
  refine fun hs => .modify ?_
  rw [heq]
  exact ⟨.of_slots rfl rfl, hs.extend (.of_slots rfl rfl) (hs.kept.links hr hl)
    (hs.roster.of_slots rfl rfl rfl), hnode, rfl, hr, hl⟩

theorem setProgress_proceeds (node : Nat) (progress : Progress) :
    Proceeds p g scope (setProgress node progress) s fun _ _ => True :=
  .change fun hs => ⟨.of_slots rfl rfl, hs.kept.of_slots rfl rfl rfl rfl id (List.Subset.refl _)
    .inl .inl, hs.roster.of_slots rfl rfl rfl⟩

end Check

/-! ### Scopes -/

namespace Store

variable {s t : Store}

theorem Opens.hasLocal {id : ScopeId} {a : Scope} (h : s.Opens t id a) {v : VarSymbol}
    (hv : t.HasLocal v) : s.HasLocal v ∨ ∃ vars, a.body = .block vars ∧ v ∈ vars := by
  obtain ⟨i, vars, outer, blocks, hi, hm⟩ := hv
  rcases h.back hi with rfl | ⟨⟨body, outer', blocks'⟩, hb⟩
  · rw [h.opened] at hi
    cases hi
    exact .inr ⟨vars, rfl, hm⟩
  · obtain ⟨c, hc, hbody, -⟩ := h.old hb
    rw [hi] at hc
    cases hc
    cases hbody
    exact .inl ⟨i, vars, outer', blocks', hb, hm⟩

/-- A scope that is opened where there is no template around is no part of a template, unless it is
the scope of one. -/
theorem Opens.concrete {id parent : ScopeId} {a : Scope} (h : s.Opens t id a) (hg : s.Grows t)
    (hp : s.Concrete parent) (houter : a.outer = s.chain parent)
    (hbody : ∀ func, a.body = .function (some func) → t.IsConcrete func) : t.Concrete id := by
  refine ⟨⟨a, h.opened⟩, fun o ho => ?_⟩
  rw [h.chain, houter] at ho
  rcases List.mem_cons.mp ho with rfl | ho
  · exact ⟨a, h.opened, hbody⟩
  · exact (hp.plain o ho).grows hg

end Store

namespace Check

/-- A block that is opened does not lie in a template either. -/
theorem openBlock_proceeds (node : Nat) :
    Proceeds p g scope (openBlock scope node) s fun inner t => t.store.Concrete inner := by
  refine .standing fun hs => .store ?_
  cases hst : s.store.openBlock scope with
  | error f =>
    refine .fault ?_
    unfold Store.openBlock at hst
    split at hst <;> cases hst
    intro name hname
    cases hname
  | ok opened =>
    obtain ⟨inner, st⟩ := opened
    obtain ⟨hopens, hfuncs, hconstants, -⟩ := Store.openBlock_eq_ok hst
    have hfunc : ∀ id, st.func? id = s.store.func? id := fun id => by
      rw [Store.func?, Store.func?, hfuncs]
    have hgrows : s.store.Grows st := hopens.grows (fun hf => by rw [hfunc]; exact hf) hconstants
    have hlists : st.instances = s.store.instances ∧ st.instanceScopes = s.store.instanceScopes ∧
        st.lambdas = s.store.lambdas := by
      unfold Store.openBlock at hst
      split at hst <;> cases hst <;> exact ⟨rfl, rfl, rfl⟩
    have hconcrete : st.Concrete inner := hopens.concrete hgrows hs.scope rfl fun _ hbody => by
      cases hbody
    have hk : AnalysisState.Kept p g.toTerrain { s with store := st } := by
      refine hs.kept.of_store hgrows (fun hf => .inl ((hfunc _).symm.trans hf))
        (fun hv => .inl (by rwa [hconstants] at hv)) (fun hv => ?_) hlists.1 hlists.2.2
        (hs.kept.placed.of_funcs hfuncs)
      rcases hopens.hasLocal hv with hv | ⟨vars, hvars, hm⟩
      · exact .inl hv
      · cases hvars
        exact absurd hm (Array.not_mem_empty _)
    have hr : AnalysisState.Roster { s with store := st } :=
      hs.roster.carry hgrows hlists.1 hlists.2.1 rfl rfl
    have hset : Proceeds p g scope (setStore st) s fun _ t => t.store = st :=
      .modify (fun _ => ⟨.of_store hgrows, hk, hr⟩) rfl
    have hnode : ∀ {t : AnalysisState}, t.store = st →
        Proceeds p g scope (setScope node inner) t fun _ u => u.store = st := by
      intro t ht
      obtain ⟨scopes, refused, heq⟩ := t.setScope_eq node inner
      have hinner : t.store.Concrete inner := ht ▸ hconcrete
      refine .modify (fun hs => ?_) (by rw [heq]; exact ht)
      have hk' := hs.kept.setScope node inner (.inl hinner)
      rw [heq] at hk' ⊢
      exact ⟨.of_slots rfl rfl, hk', hs.roster.of_slots rfl rfl rfl⟩
    refine .bind hset fun _ t _ ht => ?_
    refine .bind (hnode ht) fun _ u _ hu => ?_
    exact .pure (hu ▸ hconcrete)

/-- What is done in a block that has just been opened. -/
theorem openBlock_bind_proceeds {α : Type} (node : Nat) {f : ScopeId → Check α}
    {post : α → AnalysisState → Prop}
    (h : ∀ inner t, Proceeds p g inner (f inner) t post) :
    Proceeds p g scope (openBlock scope node >>= f) s post :=
  .bind (openBlock_proceeds node) fun inner t _ hi => .inner hi (h inner t)

/-! ### Variables -/

theorem defineLocal_proceeds {block : ScopeId} {name : String} {type : Ty} (ht : type.Proper)
    (isVar : Bool) {position : Position} (hp : g.place position) :
    Proceeds p g scope (defineLocal block name type isVar position) s fun _ _ => True := by
  refine .standing fun hs => .store ?_
  split
  · exact .fault nofun
  · next hblock =>
    have hblock' : s.store.isBlock block = true := by simpa using hblock
    split
    · next handle st hst =>
      obtain ⟨vars, outer, blocks, hbefore, -, hafter, hother, hfuncs, hconstants, -⟩ :=
        Store.defineVar_eq_ok hblock' hst
      have hfunc : ∀ id, st.func? id = s.store.func? id := fun id => by
        rw [Store.func?, Store.func?, hfuncs]
      have hgrows := Store.grows_defineVar hbefore hafter hother hfunc hconstants
      have hlists : st.instances = s.store.instances ∧
          st.instanceScopes = s.store.instanceScopes ∧ st.lambdas = s.store.lambdas := by
        unfold Store.defineVar at hst
        split at hst <;> cases hst
        exact ⟨rfl, rfl, rfl⟩
      refine .bind (.change fun _ => ⟨.of_store hgrows, ?_, ?_⟩) fun _ _ _ _ => .pure trivial
      · refine hs.kept.of_store hgrows (fun hf => .inl ((hfunc _).symm.trans hf))
          (fun hv => .inl (by rwa [hconstants] at hv)) (fun {v} hv => ?_) hlists.1 hlists.2.2
          (hs.kept.placed.of_funcs hfuncs)
        obtain ⟨i, vars', outer', blocks', hi, hm⟩ := hv
        by_cases heq : i = block
        · rw [heq, hafter] at hi
          cases hi
          rcases Array.mem_push.mp hm with hm | rfl
          · exact .inl ⟨block, vars, outer, blocks, hbefore, hm⟩
          · exact .inr ⟨type, rfl, ht⟩
        · rw [hother i heq] at hi
          exact .inl ⟨i, vars', outer', blocks', hi, hm⟩
      · exact hs.roster.carry hgrows hlists.1 hlists.2.1 rfl rfl
    · exact .fail hp

theorem declareVar_proceeds {block : ScopeId} {info : NodeInfo} (hi : g.place info.span.start)
    (name : String) {type : Ty} (ht : type.Proper) (isVar : Bool) :
    Proceeds p g scope (declareVar block info name type isVar) s fun _ _ => True := by
  unfold declareVar
  split
  · exact .pure trivial
  · exact .bind (defineLocal_proceeds ht isVar hi) fun _ _ _ _ =>
      (link_proceeds _ _).imp fun _ _ _ _ => trivial

/-! ### Result types and types of constants -/

theorem setRet_proceeds (id : FuncId) {type : Ty} (ht : type.Proper) :
    Proceeds p g scope (setRet id type) s fun _ _ => True := by
  refine .store ?_
  split
  · next st hst =>
    obtain ⟨f, hf, hnone, rfl⟩ := Store.setRet?_eq_some hst
    have hset := fun a => s.store.func?_set id a { f with ret := some type } (by rw [hf]; rfl)
    have hfg : f.Grows { f with ret := some type } := ⟨rfl, fun h => by rw [hnone] at h; cases h⟩
    have hgrows := Store.grows_setFunc hf hfg
    refine .change fun hs => ⟨.of_store hgrows, ?_, hs.roster.carry hgrows rfl rfl rfl rfl⟩
    refine hs.kept.of_store hgrows (fun {a h} ha => ?_) .inl .inl rfl rfl
      (hs.kept.placed.of_eq (Store.placeholders_setFunc hf rfl))
    rw [hset] at ha
    split at ha
    · cases ha
      exact .inr ((hs.kept.func hf).withRet ht)
    · exact .inl ha
  · exact .pure trivial

theorem returnType_proceeds (id : FuncId) {type : Ty} (ht : type.Proper) {position : Position}
    (hp : g.place position) :
    Proceeds p g scope (returnType id type position) s fun _ _ => True := by
  refine .func fun f _ _ => ?_
  split
  · split
    · exact .pure trivial
    · exact .fail hp
  · split
    · exact .yields ((expectType_yields hp _ _).imp fun _ _ => trivial)
    · exact setRet_proceeds id ht

theorem settleReturn_proceeds (id : FuncId) :
    Proceeds p g scope (settleReturn id) s fun _ _ => True := by
  refine .func fun f _ _ => ?_
  split
  · exact setRet_proceeds id Ty.unit_proper
  · exact .pure trivial

theorem assignConstant_proceeds (handle : VarHandle) {type : Ty} (ht : type.Proper)
    {position : Position} (hp : g.place position) :
    Proceeds p g scope (assignConstant handle type position) s fun _ _ => True := by
  refine fun hs => .bind (.bind (.store (.pure ?_)))
  split
  · exact (Proceeds.yields ((expectType_yields hp _ _).imp fun _ _ => trivial)) hs
  · next index _ =>
    refine Proceeds.change (fun hs => ?_) hs
    cases hst : s.store.setConstantType? index type with
    | none => exact ⟨.refl s, hs.kept, hs.roster⟩
    | some st =>
      obtain ⟨v, hv, hnone, rfl⟩ := Store.setConstantType?_eq_some hst
      have hvw : v.Grows { v with type := some type } :=
        ⟨rfl, fun h => by rw [hnone] at h; cases h⟩
      have hgrows := Store.grows_setConstant hv hvw
      refine ⟨.of_store hgrows, ?_, hs.roster.carry hgrows rfl rfl rfl rfl⟩
      refine hs.kept.of_store hgrows .inl (fun {i w} hw => ?_) .inl rfl rfl
        (hs.kept.placed.of_funcs rfl)
      rw [Option.getD_some, Array.getElem?_setIfInBounds] at hw
      split at hw
      · split at hw <;> cases hw
        exact .inr (hintProper_some ht)
      · exact .inl hw
  · exact (Proceeds.pure trivial) hs

end Check

end Frontend
