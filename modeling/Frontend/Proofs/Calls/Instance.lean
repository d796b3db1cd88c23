import Frontend.Proofs.Analysis.Declaration
import Frontend.Proofs.Tree.Fresh

/-!
# Making instances

The copy of a template has ids of its own, so the nodes at hand are not touched; it becomes a
definition that has not been begun, and its symbol is recorded for the argument types.
-/

namespace Frontend

variable {p : Program} {stack : List Nat} {s t : AnalysisState}

/-- The parameters of a symbol are those of its definition. -/
theorem Declares.params_names {id : FuncId} {f : FuncSymbol} {d : FuncDef} {scope : ScopeId}
    (h : Declares s id f d scope) (hf : s.store.func? id = some f) :
    f.params.map (·.name) = d.params.map (·.name) := by
  have hnames := h.layer.names
  have hscope : s.store.scopeFunc? scope = some f := by
    rw [Store.scopeFunc?, h.func]
    exact hf
  unfold Store.namesIn at hnames
  have hfunc := h.func
  unfold Store.scopeFuncId? at hfunc
  split at hfunc
  · next heq =>
    rw [heq] at hnames
    simp only [hscope, Option.map_some, Option.getD_some, FuncDef.layer, List.map_map] at hnames
    exact hnames
  · cases hfunc

namespace Check

/-- The state with a copy of a template, before the copy is declared. -/
def copied (s : AnalysisState) (d copy : FuncDef) (nextId : Nat) : AnalysisState :=
  { s with toResolution := s.toResolution.addCopy d.info.id copy, nextId }

theorem mem_copied {s : AnalysisState} {d copy : FuncDef} {nextId k : Nat} {c : FuncDef} :
    c ∈ (copied s d copy nextId).copies.getD k #[] ↔
      c ∈ s.copies.getD k #[] ∨ k = d.info.id ∧ c = copy := by
  simp only [copied, Resolution.addCopy, Std.TreeMap.getD_insert, Std.compare_eq_iff_eq]
  split
  · next heq => simp [heq]
  · next hne => simp [Ne.symm hne]

/-- The new copy is under analysis if it is marked so; about the others nothing changes. -/
private theorem unfinished_copied {s t : AnalysisState} {d copy : FuncDef} {nextId : Nat}
    (hcopies : t.copies = (copied s d copy nextId).copies) {k : Nat}
    (hold : ∀ c ∈ s.copies.getD k #[], t.progress[c.info.id]? = s.progress[c.info.id]?) :
    t.unfinished k = s.unfinished k ++
      if k = d.info.id ∧ t.progress[copy.info.id]? = some .inProgress then [copy] else [] := by
  have hfilter : (s.copies.getD k #[]).toList.filter
      (fun c => decide (t.progress[c.info.id]? = some .inProgress)) = s.unfinished k := by
    refine List.filter_congr fun c hc => ?_
    rw [hold c (Array.mem_toList_iff.mp hc)]
  unfold AnalysisState.unfinished at hfilter ⊢
  rw [hcopies, copied, Resolution.addCopy, Std.TreeMap.getD_insert]
  simp only [Std.compare_eq_iff_eq]
  by_cases hk : d.info.id = k
  · subst hk
    rw [if_pos rfl, Array.toList_push, List.filter_append, hfilter]
    by_cases hin : t.progress[copy.info.id]? = some .inProgress <;> simp [hin]
  · rw [if_neg hk, hfilter, if_neg fun h => hk h.1.symm, List.append_nil]

section

variable {d copy : FuncDef} {next : Nat} {args : List Ty} {scope : ScopeId} {id : FuncId}
  {f : FuncSymbol}

/-- The copy is no definition of the program. -/
private theorem copy_foreign (hi : Inv p s) (hfresh : Fresh s.nextId next copy.ids) :
    .function copy ∉ p.definitions := by
  intro hm
  have hid := (Definition.function copy).info_mem_ids
  have hlt := hi.bounded (.program hm) hid
  have hge := (hfresh.bounds _ hid).1
  omega

private theorem headIds_ge (hfresh : Fresh s.nextId next copy.ids) {node : Nat}
    (hm : node ∈ copy.headIds) : s.nextId ≤ node :=
  (hfresh.bounds node (copy.headIds_append_bodyIds.subset (List.mem_append_left _ hm))).1

private theorem instance_newcomer (hi : Inv p s) (hfresh : Fresh s.nextId next copy.ids)
    (hshaped : copy.WellShaped)
    (ha : Announced (copied s d copy next) t copy Store.globalScope scope id f)
    (known : List Instance) (active : Std.TreeMap Nat Nat) :
    Newcomer p s { t with known, active } (.function copy) where
  nodup := hfresh.nodup
  bounded {node} hm := by
    have hlt := (hfresh.bounds node hm).2
    exact ha.nextId.symm ▸ hlt
  apart {e node} he hm hm' := by
    have hlt := hi.bounded he hm'
    have hge := (hfresh.bounds node hm).1
    omega
  shaped := hshaped
  begun := by
    have hge := (hfresh.bounds _ (Definition.function copy).info_mem_ids).1
    exact (ha.progress copy.info.id).trans (congrArg Slots.progress (hi.unused hge))
  empty {node} hm := by
    have hsub := copy.headIds_append_bodyIds
    have hge := (hfresh.bounds node (hsub.subset (List.mem_append_right _ hm))).1
    have hnot : node ∉ copy.headIds := fun hm' =>
      (List.nodup_append.mp (hfresh.nodup.sublist hsub)).2.2 node hm' node hm rfl
    exact (ha.frame hnot).trans (hi.unused hge)
  homed {g} hg := by
    cases hg
    refine ⟨id, f, scope, ha.func, ha.decl,
      ha.declares.grows (.refl _) (fun h => h) (fun h => h) ha.func (.refl f), ?_⟩
    obtain ⟨blocks, hglobal⟩ := hi.global
    refine ha.opens.chain.trans ?_
    change scope :: s.store.chain Store.globalScope = _
    simp only [Store.chain, hglobal]

private theorem instance_grows
    (ha : Announced (copied s d copy next) t copy Store.globalScope scope id f) : s.Grows t := by
  have hg := ha.grows
  exact ⟨hg.store, hg.type, hg.link, hg.scope, hg.done, hg.begun,
    fun hm => hg.copies (mem_copied.mpr (.inl hm)), hg.known⟩

/-- The state in which an instance has been recorded for argument types. -/
private def recorded (t : AnalysisState) (d : FuncDef) (args : List Ty) (id : FuncId)
    (active : Std.TreeMap Nat Nat) : AnalysisState :=
  { t with known := ⟨d.info.id, args, id⟩ :: t.known, active }

variable {active : Std.TreeMap Nat Nat}

private theorem mem_copies
    (ha : Announced (copied s d copy next) t copy Store.globalScope scope id f) {k : Nat}
    {c : FuncDef} : c ∈ (recorded t d args id active).copies.getD k #[] ↔
      c ∈ s.copies.getD k #[] ∨ k = d.info.id ∧ c = copy := by
  change c ∈ t.copies.getD k #[] ↔ _
  rw [ha.copies]
  exact mem_copied

private theorem recorded_grows
    (ha : Announced (copied s d copy next) t copy Store.globalScope scope id f) :
    s.Grows (recorded t d args id active) := by
  have hg := instance_grows ha
  exact { hg with known := fun hm => List.mem_cons_of_mem _ (hg.known hm) }

/-- The copy is the only new definition. -/
private theorem recorded_defined
    (ha : Announced (copied s d copy next) t copy Store.globalScope scope id f) {e : Definition}
    (he : Defined p (recorded t d args id active) e) :
    Defined p s e ∨ some (Definition.function copy) = some e := by
  cases he with
  | program h => exact .inl (.program h)
  | copy h =>
    rcases (mem_copies ha).mp h with h | ⟨-, rfl⟩
    · exact .inl (.copy h)
    · exact .inr rfl

private theorem old_slots (hfresh : Fresh s.nextId next copy.ids)
    (ha : Announced (copied s d copy next) t copy Store.globalScope scope id f) {node : Nat}
    (hlt : node < s.nextId) : t.slots node = s.slots node :=
  ha.frame fun hm => absurd (headIds_ge hfresh hm) (by omega)

/-- The new symbol is the instance of the template for the argument types. -/
private theorem recorded_instantiates (hi : Inv p s) (hd : .function d ∈ p.definitions)
    (htemplate : d.isTemplate = true) (hfresh : Fresh s.nextId next copy.ids)
    (hname : copy.name = d.name)
    (ha : Announced (copied s d copy next) t copy Store.globalScope scope id f)
    (htypes : f.paramTypes = args) :
    Instantiates p (recorded t d args id active) ⟨d.info.id, args, id⟩ f copy d :=
  ⟨ha.func, ha.decl, htypes, rfl, (mem_copies ha).mpr (.inr ⟨rfl, rfl⟩), hd, htemplate, hname,
    copy_foreign hi hfresh⟩

/-- No instance was known for the argument types, so there is one for them now. -/
private theorem recorded_unique (hi : Inv p s)
    (hnew : ∀ i ∈ s.known, i.template = d.info.id → i.args ≠ args)
    (ha : Announced (copied s d copy next) t copy Store.globalScope scope id f) {i j : Instance}
    (hmi : i ∈ (recorded t d args id active).known) (hmj : j ∈ (recorded t d args id active).known)
    (hk : i.template = j.template) (hargs : i.args = j.args) : i = j := by
  have hknown : t.known = s.known := ha.known
  rcases List.mem_cons.mp hmi with rfl | hmi <;> rcases List.mem_cons.mp hmj with rfl | hmj
  · rfl
  · exact absurd hargs.symm (hnew j (hknown ▸ hmj) hk.symm)
  · exact absurd hargs (hnew i (hknown ▸ hmi) hk)
  · exact hi.unique (hknown ▸ hmi) (hknown ▸ hmj) hk hargs

/-- The copy has not been analysed, so the functions whose results are settled are the old ones. -/
private theorem recorded_settled (hi : Inv p s) (hfresh : Fresh s.nextId next copy.ids)
    (ha : Announced (copied s d copy next) t copy Store.globalScope scope id f) {i : FuncId}
    {g : FuncSymbol} {e : FuncDef} (he : Defined p (recorded t d args id active) (.function e))
    (hgi : t.store.func? i = some g) (hge : g.decl = some e)
    (hdone : t.progress[e.info.id]? = some .done) (hret : g.kind.returnsValue = true) :
    g.ret.isSome := by
  have hdone' : s.progress[e.info.id]? = some .done := (ha.progress _).symm.trans hdone
  have hnone : s.progress[copy.info.id]? = none := congrArg Slots.progress
    (hi.unused (hfresh.bounds _ (Definition.function copy).info_mem_ids).1)
  rcases recorded_defined ha he with he | he
  · by_cases heq : i = id
    · subst heq
      have hgf := Option.some.inj (ha.func.symm.trans hgi)
      subst hgf
      have hcopy := Option.some.inj (ha.decl.symm.trans hge)
      subst hcopy
      rw [hnone] at hdone'
      cases hdone'
    · exact hi.settled he ((ha.func_old heq).symm.trans hgi) hge hdone' hret
  · cases he
    rw [hnone] at hdone'
    cases hdone'

/-- The nodes of the copy have no types yet. -/
private theorem recorded_understood (hi : Inv p s) (hfresh : Fresh s.nextId next copy.ids)
    (ha : Announced (copied s d copy next) t copy Store.globalScope scope id f) {node : Nat}
    (ht : ((recorded t d args id active).types[node]?).isSome) :
    (recorded t d args id active).Understood node := by
  have htypes : t.types[node]? = s.types[node]? := ha.type node
  by_cases hlt : node < s.nextId
  · exact hi.understood_of_slots (t := recorded t d args id active) (recorded_grows ha).store
      (old_slots hfresh ha hlt) ht
  · have hnone : s.types[node]? = none := congrArg Slots.type (hi.unused (Nat.le_of_not_lt hlt))
    change (t.types[node]?).isSome at ht
    rw [htypes, hnone] at ht
    cases ht

private theorem recorded_inv (hi : Inv p s) (hd : .function d ∈ p.definitions)
    (htemplate : d.isTemplate = true)
    (hnew : ∀ i ∈ s.known, i.template = d.info.id → i.args ≠ args)
    (hfresh : Fresh s.nextId next copy.ids) (hshaped : copy.WellShaped)
    (hname : copy.name = d.name)
    (ha : Announced (copied s d copy next) t copy Store.globalScope scope id f)
    (htypes : f.paramTypes = args) : Inv p (recorded t d args id active) := by
  have hknown : t.known = s.known := ha.known
  have hgt := instance_grows ha
  have hg : s.Grows (recorded t d args id active) := recorded_grows ha
  have hinst : Instantiates p (recorded t d args id active) ⟨d.info.id, args, id⟩ f copy d :=
    recorded_instantiates hi hd htemplate hfresh hname ha htypes
  have hprogress : ∀ node : Nat, t.progress[node]? = s.progress[node]? := ha.progress
  refine hi.carry hg (some (.function copy)) (fun _ h => h) (recorded_defined ha) (fun he => ?_)
    (ha.nextId.symm ▸ hfresh.le) ha.refused (fun hn => ?_) (ha.linked hi.linked) ?_
    (fun hm => .inl (ha.functions ▸ hm)) ?_ ?_ (recorded_unique hi hnew ha) ?_ ?_ ?_ ?_
    (hi.fixed.grows hg.store (congrArg Array.size ha.constants)) (recorded_settled hi hfresh ha)
    (recorded_understood hi hfresh ha) ?_ (ha.opens.outer rfl hi.outer)
  · cases he
    exact instance_newcomer hi hfresh hshaped ha _ active
  · refine ha.frame fun hm => ?_
    have hlt := (hfresh.bounds _
      (copy.headIds_append_bodyIds.subset (List.mem_append_left _ hm))).2
    have hle : next ≤ _ := ha.nextId ▸ hn
    omega
  · intro i g e hgi hge hn
    obtain ⟨rfl, rfl⟩ := ha.eq_of_new hgi hn
    have he := Option.some.inj (ha.decl.symm.trans hge)
    subst he
    exact ⟨scope, ha.declares.grows (.refl _) (fun h => h) (fun h => h) ha.func (.refl g)⟩
  · intro i hm
    rcases List.mem_cons.mp hm with rfl | hm
    · exact ⟨f, copy, d, hinst⟩
    · obtain ⟨f', copy', template, h⟩ := hi.known (hknown ▸ hm)
      obtain ⟨g, -, h'⟩ := h.grows hg
      exact ⟨g, copy', template, h'⟩
  · intro k c hm
    rcases (mem_copies ha).mp hm with hm | ⟨rfl, rfl⟩
    · obtain ⟨i, him, f', template, hk, h⟩ := hi.copied hm
      obtain ⟨g, -, h'⟩ := h.grows hg
      exact ⟨i, List.mem_cons_of_mem _ (hknown ▸ him), g, template, hk, h'⟩
    · exact ⟨_, List.mem_cons_self, f, d, rfl, hinst⟩
  · intro e node he _ hm
    exact old_slots hfresh ha (hi.bounded he (Definition.mem_ids_of_mem_bodyIds hm))
  · intro e he hte
    exact (hprogress _).trans (hi.template he hte)
  · intro e he hdone site hm
    obtain ⟨hid, hr⟩ := hi.analysed he ((hprogress _).symm.trans hdone) site hm
    have hslot := congrArg Slots.link (old_slots hfresh ha (hi.bounded he hid))
    exact ⟨hid, (hi.later hg ha.functions).resolved hslot hr⟩
  · intro e he hdone target hm
    obtain ⟨hid, hassignable⟩ := hi.assigned he ((hprogress _).symm.trans hdone) target hm
    have hslot := congrArg Slots.link (old_slots hfresh ha (hi.bounded he hid))
    exact ⟨hid, hassignable.grows hg hslot⟩
  · obtain ⟨blocks, hb⟩ := hi.global
    obtain ⟨⟨body, outer, blocks'⟩, hb', hbody, -⟩ := hgt.store.scope hb
    cases hbody
    exact hi.constants.grows hg.link hg.scope
      (hgt.store.namesIn_kept (congrArg Array.size ha.constants) hb hb' rfl fun i => hi.linked)

/-- The state after the copy has been declared and recorded. -/
private theorem recorded_advance (hi : Inv p s) (hd : .function d ∈ p.definitions)
    (htemplate : d.isTemplate = true)
    (hnew : ∀ i ∈ s.known, i.template = d.info.id → i.args ≠ args)
    (hfresh : Fresh s.nextId next copy.ids) (hshaped : copy.WellShaped)
    (hname : copy.name = d.name)
    (ha : Announced (copied s d copy next) t copy Store.globalScope scope id f)
    (htypes : f.paramTypes = args) : Advance p none [] s (recorded t d args id active) := by
  have hprogress : ∀ node : Nat, t.progress[node]? = s.progress[node]? := ha.progress
  refine
    { inv := recorded_inv hi hd htemplate hnew hfresh hshaped hname ha htypes
      grows := recorded_grows ha
      nextId := ha.nextId.symm ▸ hfresh.le
      functions := ha.functions
      constants := congrArg Array.size ha.constants
      frame := fun hlt _ _ => old_slots hfresh ha hlt
      kept := fun {i a b} hb hc _ => ?_
      fresh := fun he => ?_
      active := fun _ hin => (hprogress _).symm.trans hin
      running := fun _ hin => (hprogress _).trans hin
      unfinished := fun k => ?_ }
  · obtain ⟨c', hc', hbody, -⟩ := ha.opens.old hb
    have hcc := Option.some.inj (hc.symm.trans hc')
    rw [hcc]
    exact hbody
  · rcases recorded_defined ha he with he | he
    · exact .inl he
    · cases he
      exact .inr fun node hm => (hfresh.bounds node hm).1
  · refine (unfinished_copied (t := recorded t d args id active) ha.copies
      fun c _ => hprogress _).trans ?_
    have hnone : t.progress[copy.info.id]? = none := (hprogress _).trans
      (congrArg Slots.progress (hi.unused (headIds_ge hfresh List.mem_cons_self)))
    rw [if_neg (by simp [recorded, hnone]), List.append_nil]

/-- The copy may be begun inside the definitions under analysis. -/
private theorem instance_nested (hi : Inv p s) (hn : Nested p stack s)
    (hfresh : Fresh s.nextId next copy.ids)
    (hlt : s.active.getD d.info.id 0 < instantiationLimit)
    (hcopies : t.copies = (copied s d copy next).copies)
    (hprogress : ∀ node : Nat, t.progress[node]? = s.progress[node]?)
    (hactive : t.active = s.active.insert d.info.id (s.active.getD d.info.id 0 + 1)) :
    Nested p (copy.info.id :: stack) (t.mark copy.info.id .inProgress) := by
  have hge := headIds_ge hfresh List.mem_cons_self
  have hne : ∀ {e}, Defined p s e → e.info.id ≠ copy.info.id := fun he heq =>
    absurd (hi.bounded he (heq ▸ Definition.info_mem_ids _)) (Nat.not_lt.mpr hge)
  have hother : ∀ {k c}, c ∈ s.copies.getD k #[] → c.info.id ≠ copy.info.id := fun hc =>
    hne (e := .function _) (.copy hc)
  have hmem : ∀ {k c}, c ∈ t.copies.getD k #[] ↔
      c ∈ s.copies.getD k #[] ∨ k = d.info.id ∧ c = copy := by
    intro k c
    rw [hcopies]
    exact mem_copied
  have hmark : ∀ {n : Nat}, n ≠ copy.info.id →
      (t.mark copy.info.id .inProgress).progress[n]? = s.progress[n]? := fun hn =>
    (AnalysisState.progress_mark hn).trans (hprogress _)
  have hoff : copy.info.id ∉ stack := fun hm => by
    obtain ⟨e, he, heq, -⟩ := hn.running _ hm
    exact hne he heq
  refine ⟨List.nodup_cons.mpr ⟨hoff, hn.nodup⟩, fun n hm => ?_, fun k => ?_, fun k => ?_,
    fun k => ?_, fun {k c} hc => ?_⟩
  · rcases List.mem_cons.mp hm with rfl | hm
    · exact ⟨.function copy, .copy (hmem.mpr (.inr ⟨rfl, rfl⟩)), rfl,
        AnalysisState.progress_mark_self⟩
    · obtain ⟨e, he, rfl, hin⟩ := hn.running n hm
      refine ⟨e, ?_, rfl, (hmark (hne he)).trans hin⟩
      cases he with
      | program h => exact .program h
      | copy h => exact .copy (hmem.mpr (.inl h))
  · rw [unfinished_copied (t := t.mark copy.info.id .inProgress) hcopies fun c hc =>
      hmark (hother hc)]
    change t.active.getD k 0 = _
    rw [hactive, Std.TreeMap.getD_insert, List.length_append]
    simp only [Std.compare_eq_iff_eq, AnalysisState.progress_mark_self, and_true]
    by_cases hk : d.info.id = k
    · subst hk
      rw [if_pos rfl, if_pos rfl, hn.counted]
      rfl
    · rw [if_neg hk, if_neg (Ne.symm hk)]
      exact hn.counted k
  · have hfirst : (t.mark copy.info.id .inProgress).isCopy k copy.info.id = true ↔
        d.info.id = k := by
      refine AnalysisState.isCopy_iff.trans ⟨?_, fun h => ⟨copy, hmem.mpr (.inr ⟨h.symm, rfl⟩), rfl⟩⟩
      rintro ⟨c, hc, heq⟩
      exact (hmem.mp hc).elim (fun hold => absurd heq (hother hold)) fun hnew => hnew.1.symm
    have hrest : (t.mark copy.info.id .inProgress).instancesOn stack k =
        s.instancesOn stack k := by
      refine AnalysisState.instancesOn_eq fun n hm => ⟨?_, ?_⟩
      · rintro ⟨c, hc, rfl⟩
        refine (hmem.mp hc).elim (fun hold => ⟨c, hold, rfl⟩) fun hnew => ?_
        exact absurd (hnew.2 ▸ hm) hoff
      · exact fun ⟨c, hc, heq⟩ => ⟨c, hmem.mpr (.inl hc), heq⟩
    change t.active.getD k 0 = _
    rw [hactive, Std.TreeMap.getD_insert, AnalysisState.instancesOn, List.countP_cons,
      show List.countP _ stack = _ from hrest, ← hn.stacked]
    simp only [Std.compare_eq_iff_eq, hfirst]
    split
    · next hk => rw [hk]
    · rfl
  · change t.active.getD k 0 ≤ _
    rw [hactive, Std.TreeMap.getD_insert]
    split
    · exact hlt
    · exact hn.limited k
  · rcases hmem.mp hc with hc | ⟨-, rfl⟩
    · rw [hmark (hother hc)]
      exact hn.begun hc
    · rw [AnalysisState.progress_mark_self]
      nofun

end

theorem makeInstance_ensures (hi : Inv p s) (hn : Nested p stack s) {d : FuncDef}
    (hd : .function d ∈ p.definitions) (htemplate : d.isTemplate = true)
    {args : List Ty} (hlen : args.length = d.params.length)
    (hnew : ∀ i ∈ s.known, i.template = d.info.id → i.args ≠ args)
    (hlt : s.active.getD d.info.id 0 < instantiationLimit) :
    Ensures (Rejected p) (makeInstance d args (s.active.getD d.info.id 0)) s fun r t =>
      Advance p none [] s t ∧
        (∀ {e}, Defined p t e → Defined p s e ∨ some (Definition.function r.1) = some e) ∧
        Defined p t (.function r.1) ∧ t.progress[r.1.info.id]? = none ∧
        .function r.1 ∉ p.definitions ∧ ⟨d.info.id, args, r.2⟩ ∈ t.known ∧
        t.active = s.active.insert d.info.id (s.active.getD d.info.id 0 + 1) ∧
        Nested p (r.1.info.id :: stack) (t.mark r.1.info.id .inProgress) := by
  have hcopy := d.copy_fresh s.nextId
  refine .bind (.modifyGet ?_)
  unfold Minting at hcopy
  generalize d.copy.run s.nextId = made at hcopy ⊢
  obtain ⟨copy, next⟩ := made
  obtain ⟨hfresh, hshaped, hname, -, hparams⟩ := hcopy
  have hunused : ∀ node ∈ copy.headIds, (copied s d copy next).slots node = .empty :=
    fun node hm => hi.unused (headIds_ge hfresh hm)
  have huntouched : Untouched p (copied s d copy next) :=
    ⟨hi.untouched.refused, hi.untouched.template⟩
  have hnodup : copy.headIds.Nodup :=
    (List.nodup_append.mp (hfresh.nodup.sublist copy.headIds_append_bodyIds)).1
  change Ensures _ (declareFunction copy Store.globalScope (some args) >>= _)
    (copied s d copy next) _
  refine .bind ((declareFunction_ensures (huntouched.rejected · ·)
    (by rintro _ ⟨⟩; exact hlen.trans hparams.symm) hnodup
    (congrArg Slots.scope (hunused _ List.mem_cons_self)) fun q hq => ?_).imp fun r t _ h => ?_)
  · exact congrArg Slots.link
      (hunused q.info.id (List.mem_cons_of_mem _ (List.mem_map_of_mem hq)))
  · obtain ⟨f, ha, htypes, -⟩ := h
    refine .bind (.modify (.pure ?_))
    have ha' := ha.listed t.store.functionScopes (t.store.instances.push r.2)
      (t.store.instanceScopes.push r.1) t.store.lambdas t.store.lambdaScopes
    have htypes' := htypes rfl (hlen.trans hparams.symm)
    have hshaped' := hshaped (hi.shaped (.program hd))
    refine ⟨recorded_advance hi hd htemplate hnew hfresh hshaped' hname ha' htypes',
      recorded_defined ha', ?_, ?_, copy_foreign hi hfresh, List.mem_cons_self, ?_,
      instance_nested hi hn hfresh hlt ha.copies ha.progress ?_⟩
    · exact .copy (ha.copies.symm ▸ mem_copied.mpr (.inr ⟨rfl, rfl⟩))
    · exact (ha.progress copy.info.id).trans
        (congrArg Slots.progress (hunused _ List.mem_cons_self))
    all_goals exact congrArg (·.insert d.info.id (s.active.getD d.info.id 0 + 1)) ha.active

end Check

end Frontend
