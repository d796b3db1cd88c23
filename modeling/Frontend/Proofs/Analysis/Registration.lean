import Mathlib.Data.List.Nodup
import Mathlib.Data.List.Pairwise
import Frontend.Proofs.Analysis.Demands

/-!
# Registration

The first pass declares the definitions one after another. After each of them the invariant holds
for the program that consists of the definitions declared so far, and nothing is known of the nodes
of the others.
-/

namespace Frontend

open Check

/-- What a program promises to its analysis: its nodes have different ids below `nextId`, and its
definitions are well shaped. -/
structure Program.WellFormed (p : Program) (nextId : Nat) : Prop where
  nodup : (p.definitions.flatMap Definition.ids).Nodup
  bounded : ∀ node ∈ p.definitions.flatMap Definition.ids, node < nextId
  shaped : p.WellShaped

/-- The program with other definitions. -/
def Program.only (p : Program) (ds : List Definition) : Program := { p with definitions := ds }

/-- The definitions `ds` are declared, the definitions `rest` are not, and no body has been looked
at. -/
structure Registering (p : Program) (ds rest : List Definition) (s : AnalysisState) : Prop where
  definitions : p.definitions = ds ++ rest
  wellFormed : p.WellFormed s.nextId
  inv : Inv (p.only ds) s
  empty : ∀ {d node}, d ∈ rest → node ∈ d.ids → s.slots node = .empty
  idle : ∀ node : Nat, s.progress[node]? = none
  uncopied : ∀ k, s.copies.getD k #[] = #[]
  uncounted : ∀ k, s.active.getD k 0 = 0

variable {p : Program} {ds rest : List Definition} {s t : AnalysisState} {d : Definition}

theorem Program.WellFormed.ids_nodup {n : Nat} (h : p.WellFormed n) (hd : d ∈ p.definitions) :
    d.ids.Nodup := (List.nodup_flatMap.mp h.nodup).1 d hd

theorem Program.WellFormed.eq_of_mem_ids {n : Nat} (h : p.WellFormed n) {d e : Definition}
    (hd : d ∈ p.definitions) (he : e ∈ p.definitions) {node : Nat} (hnode : node ∈ d.ids)
    (hnode' : node ∈ e.ids) : d = e := by
  by_contra hne
  have hsymm : Std.Symm (Function.onFun List.Disjoint Definition.ids) :=
    ⟨fun _ _ h => List.disjoint_symm h⟩
  exact (List.nodup_flatMap.mp h.nodup).2.forall hd he hne hnode hnode'

/-- Definitions at different places have no node in common. -/
theorem Program.WellFormed.apart {n : Nat} (h : p.WellFormed n)
    (hp : p.definitions = ds ++ d :: rest) {e : Definition} (he : e ∈ ds ∨ e ∈ rest) {node : Nat}
    (hm : node ∈ d.ids) : node ∉ e.ids := by
  have hpairs := (List.nodup_flatMap.mp h.nodup).2
  rw [hp] at hpairs
  intro hm'
  rcases he with he | he
  · have hd := (List.pairwise_append.mp hpairs).2.2 e he d List.mem_cons_self
    exact hd hm' hm
  · have hd := (List.pairwise_cons.mp (List.pairwise_append.mp hpairs).2.1).1 e he
    exact hd hm hm'

namespace Registering

/-- Registration leaves no trace in the bodies of templates. -/
theorem untouched (h : Registering p ds rest s) : Untouched p s where
  refused := h.inv.refused
  template {f node} hf ht hm := by
    rw [h.definitions] at hf
    rcases List.mem_append.mp hf with hf | hf
    · exact h.inv.untouched.template (p := p.only ds) hf ht hm
    · exact h.empty hf (Definition.mem_ids_of_mem_bodyIds hm)

/-- A failure while nodes outside of bodies are written to. -/
theorem rejected_of_frame {ids : List Nat} (h : Registering p ds (d :: rest) s)
    (hids : ∀ node ∈ ids, node ∈ d.ids ∧ node ∉ d.bodyIds) (e : Error) (he : ¬ e.IsStrayReturn)
    (hrefused : t.refused = s.refused)
    (hframe : ∀ {node}, node ∉ ids → t.slots node = s.slots node) : Rejected p (.error e) t := by
  refine Untouched.rejected ⟨hrefused.trans h.inv.refused, fun {f node} hf ht hm => ?_⟩ e he
  rw [hframe fun hm' => ?_]
  · exact h.untouched.template hf ht hm
  · obtain ⟨hd, hbody⟩ := hids node hm'
    rw [h.definitions] at hf
    have hfd := Definition.mem_ids_of_mem_bodyIds hm
    rcases List.mem_append.mp hf with hf | hf
    · exact h.wellFormed.apart h.definitions (.inl hf) hd hfd
    · rcases List.mem_cons.mp hf with rfl | hf
      · exact hbody hm
      · exact h.wellFormed.apart h.definitions (.inr hf) hd hfd

theorem known_eq_nil (h : Registering p ds rest s) : s.known = [] := by
  refine List.eq_nil_iff_forall_not_mem.mpr fun i hm => ?_
  obtain ⟨f, copy, template, hinst⟩ := h.inv.known hm
  have hcopied := hinst.copied
  rw [h.uncopied] at hcopied
  exact absurd hcopied (Array.not_mem_empty _)

theorem defined_iff (h : Registering p ds rest s) {q : Program} {e : Definition} :
    Defined q s e ↔ e ∈ q.definitions := by
  refine ⟨fun he => ?_, .program⟩
  cases he with
  | program hm => exact hm
  | copy hm =>
    rw [h.uncopied] at hm
    exact absurd hm (Array.not_mem_empty _)

/-- Nothing is under analysis yet. -/
theorem nested (h : Registering p ds rest s) : Nested p [] s where
  nodup := .nil
  running := nofun
  counted k := by
    rw [h.uncounted, AnalysisState.unfinished, h.uncopied]
    rfl
  stacked k := h.uncounted k
  limited k := by
    rw [h.uncounted]
    exact Nat.zero_le _
  begun hc := by
    rw [h.uncopied] at hc
    exact absurd hc (Array.not_mem_empty _)

/-- One more definition is declared. -/
theorem next (h : Registering p ds (d :: rest) s) {ids : List Nat} (hg : s.Grows t)
    (hids : ∀ node ∈ ids, node ∈ d.ids ∧ node ∉ d.bodyIds)
    (hframe : ∀ {node}, node ∉ ids → t.slots node = s.slots node)
    (htypes : ∀ node : Nat, t.types[node]? = s.types[node]?)
    (hprogress : ∀ node : Nat, t.progress[node]? = s.progress[node]?)
    (hcopies : t.copies = s.copies) (hknown : t.known = s.known) (hactive : t.active = s.active)
    (hnext : t.nextId = s.nextId) (hrefused : t.refused = s.refused)
    (hlinked : ∀ {scope id}, t.store.scopeFuncId? scope = some id → (t.store.func? id).isSome)
    (hdeclared : ∀ {id g f}, t.store.func? id = some g → g.decl = some f →
      s.store.func? id = none → ∃ scope, Declares t id g f scope)
    (hfunctions : ∀ {id}, id ∈ t.store.functions → id ∈ s.store.functions ∨
      ∃ f, t.store.func? id = some f ∧ f.IsGlobal (p.only (ds ++ [d])))
    (hhomed : ∀ {f : FuncDef}, d = .function f → ∃ id g scope, t.store.func? id = some g ∧
      g.decl = some f ∧ Declares t id g f scope ∧
        t.store.chain scope = [scope, Store.globalScope])
    (hfixed : t.store.Fixed)
    (hconstants : (p.only (ds ++ [d])).layer.Matches t Store.globalScope)
    (houter : ∀ {id o : ScopeId} {a : Scope}, t.store.scopes[id]? = some a → o ∈ a.outer →
      o < id) : Registering p (ds ++ [d]) rest t := by
  have hdp : d ∈ p.definitions := by
    rw [h.definitions]
    exact List.mem_append_right _ List.mem_cons_self
  have hbound : ∀ {node}, node ∈ d.ids → node < s.nextId := fun hm =>
    h.wellFormed.bounded _ (List.mem_flatMap.mpr ⟨d, hdp, hm⟩)
  have huncopied : ∀ k, t.copies.getD k #[] = #[] := fun k => by rw [hcopies]; exact h.uncopied k
  have hidle : ∀ node : Nat, t.progress[node]? = none := fun node =>
    (hprogress node).trans (h.idle node)
  have hknownNil : t.known = [] := hknown.trans h.known_eq_nil
  refine
    { definitions := by rw [h.definitions, List.append_assoc]; rfl
      wellFormed := hnext.symm ▸ h.wellFormed
      inv := ?_
      empty := fun {e node} he hm => ?_
      idle := hidle
      uncopied := huncopied
      uncounted := fun k => by rw [hactive]; exact h.uncounted k }
  · refine h.inv.carry hg (some d) (fun e he => List.mem_append_left _ he) (fun {e} he => ?_)
      (fun {e} he => ?_) (Nat.le_of_eq hnext.symm) hrefused (fun {node} hn => hframe fun hm => ?_)
      hlinked hdeclared hfunctions ?_ ?_ ?_ ?_ (fun _ _ => hidle _) ?_ ?_ hfixed ?_ (fun {node} htype => ?_)
      hconstants houter
    · cases he with
      | program he =>
        rcases List.mem_append.mp he with he | he
        · exact .inl (.program he)
        · exact .inr (congrArg some (List.mem_singleton.mp he).symm)
      | copy he =>
        rw [huncopied] at he
        exact absurd he (Array.not_mem_empty _)
    · cases he
      exact
        { nodup := h.wellFormed.ids_nodup hdp
          bounded := fun hm => hnext.symm ▸ hbound hm
          apart := fun he hm => h.wellFormed.apart h.definitions (.inl (h.defined_iff.mp he)) hm
          shaped := h.wellFormed.shaped d hdp
          begun := hidle _
          empty := fun {node} hm => by
            rw [hframe fun hm' => (hids node hm').2 hm]
            exact h.empty List.mem_cons_self (Definition.mem_ids_of_mem_bodyIds hm)
          homed := hhomed }
    · have hlt := hbound (hids node hm).1
      omega
    · rw [hknownNil]
      nofun
    · intro k c hm
      rw [huncopied] at hm
      exact absurd hm (Array.not_mem_empty _)
    · rw [hknownNil]
      nofun
    · intro e node he _ hm
      refine hframe fun hm' => ?_
      exact h.wellFormed.apart h.definitions (.inl (h.defined_iff.mp he)) (hids node hm').1
        (Definition.mem_ids_of_mem_bodyIds hm)
    · intro e _ hdone
      rw [hidle] at hdone
      cases hdone
    · intro e _ hdone
      rw [hidle] at hdone
      cases hdone
    · intro id f e _ _ _ hdone
      rw [hidle] at hdone
      cases hdone
    · by_cases hm : node ∈ ids
      · have hempty := h.empty List.mem_cons_self (hids node hm).1
        rw [htypes, show s.types[node]? = none from congrArg Slots.type hempty] at htype
        cases htype
      · exact h.inv.understood_of_slots hg.store (hframe hm) htype
  · rw [hframe fun hm' => ?_]
    · exact h.empty (List.mem_cons_of_mem _ he) hm
    · exact h.wellFormed.apart h.definitions (.inr he) (hids node hm').1 hm

end Registering

/-! ### Functions -/

namespace Check

theorem definedFunction {s t : Store} {id : FuncId} (h : s.defineFunction id = .ok t) :
    t = { s with functions := s.functions.push id } := by
  unfold Store.defineFunction at h
  dsimp only at h
  split at h <;> cases h
  rfl

/-- A function that is declared already has a symbol. -/
theorem existingFunction {s : Store} {id other : FuncId} (h : s.defineFunction id = .error other) :
    ∃ g, s.func? other = some g := by
  unfold Store.defineFunction at h
  dsimp only at h
  split at h
  · next found g hfind =>
    cases h
    obtain ⟨i, -, hi⟩ := List.mem_filterMap.mp (List.mem_of_find?_eq_some hfind)
    obtain ⟨f, hf, heq⟩ := Option.map_eq_some_iff.mp hi
    cases heq
    exact ⟨g, hf⟩
  · cases h

/-- A function is declared in the global scope. -/
theorem registerFunction_ensures {d : FuncDef} (h : Registering p ds (.function d :: rest) s) :
    Ensures (Rejected p) (registerFunction d) s fun _ t =>
      Registering p (ds ++ [.function d]) rest t := by
  have hi := h.inv
  have hdp : .function d ∈ p.definitions := by
    rw [h.definitions]
    exact List.mem_append_right _ List.mem_cons_self
  have hsub := d.headIds_append_bodyIds
  have hnodup : (d.headIds ++ (Definition.function d).bodyIds).Nodup :=
    (h.wellFormed.ids_nodup hdp).sublist hsub
  have hids : ∀ node ∈ d.headIds, node ∈ (Definition.function d).ids ∧
      node ∉ (Definition.function d).bodyIds := fun node hm =>
    ⟨hsub.subset (List.mem_append_left _ hm),
      fun hm' => (List.nodup_append.mp hnodup).2.2 node hm node hm' rfl⟩
  have hempty : ∀ node ∈ d.headIds, s.slots node = .empty := fun node hm =>
    h.empty List.mem_cons_self (hids node hm).1
  refine .bind ((declareFunction_ensures (h.untouched.rejected · ·)
    (by rintro _ ⟨⟩)
    (List.nodup_append.mp hnodup).1 (congrArg Slots.scope (hempty _ List.mem_cons_self))
    fun q hq => ?_).imp fun r t _ hdecl => ?_)
  · exact congrArg Slots.link
      (hempty q.info.id (List.mem_cons_of_mem _ (List.mem_map_of_mem hq)))
  obtain ⟨f, ha, -, htemplate⟩ := hdecl
  have hrejected : ∀ e : Error, ¬ e.IsStrayReturn → Rejected p (.error e) t :=
    fun e he => h.rejected_of_frame hids e he ha.refused ha.frame
  refine .bind (.store ?_)
  split
  · next st hst =>
    have hst' := definedFunction hst
    subst hst'
    refine .setStore ?_
    have hstore : t.store.Grows { t.store with
        functions := t.store.functions.push r.2
        functionScopes := t.store.functionScopes.push r.1 } :=
      ⟨fun hf => ⟨_, hf, .refl _⟩, fun ha => ⟨_, ha, .refl _⟩, fun hv => ⟨_, hv, .refl _⟩⟩
    have hdeclares := ha.declares.grows (t := { t with store := { t.store with
      functions := t.store.functions.push r.2
      functionScopes := t.store.functionScopes.push r.1 } }) hstore (fun h => h) (fun h => h)
      ha.func (.refl f)
    have hg := ha.grows
    refine h.next { hg with store := hg.store.trans hstore } hids ha.frame ha.type ha.progress
      ha.copies ha.known ha.active ha.nextId ha.refused (ha.linked hi.linked) ?_ ?_ ?_
      (hi.fixed.grows (hg.store.trans hstore) (congrArg Array.size ha.constants)) ?_
      (ha.opens.outer rfl hi.outer)
    · intro id g e hgi hge hn
      obtain ⟨rfl, rfl⟩ := ha.eq_of_new hgi hn
      have hde := ha.decl.symm.trans hge
      cases hde
      exact ⟨r.1, hdeclares⟩
    · intro id hm
      rcases Array.mem_push.mp hm with hm | rfl
      · exact .inl (ha.functions ▸ hm)
      · exact .inr ⟨f, ha.func, .program ha.decl
          (List.mem_append_right _ List.mem_cons_self) (htemplate rfl)⟩
    · rintro e ⟨⟩
      refine ⟨r.2, f, r.1, ha.func, ha.decl, hdeclares, ?_⟩
      obtain ⟨blocks, hglobal⟩ := hi.global
      refine ha.opens.chain.trans ?_
      change r.1 :: s.store.chain Store.globalScope = _
      simp only [Store.chain, hglobal]
    · have hlayer : (p.only (ds ++ [.function d])).layer = (p.only ds).layer := by
        simp only [Program.layer, Program.constants, Program.only, List.filterMap_append,
          List.filterMap_cons_none, List.filterMap_nil, List.append_nil]
      rw [hlayer]
      obtain ⟨blocks, hb⟩ := hi.global
      obtain ⟨⟨body, outer, blocks'⟩, hb', hbody, -⟩ := hg.store.scope hb
      cases hbody
      exact hi.constants.grows hg.link hg.scope
        ((hg.store.trans hstore).namesIn_kept (congrArg Array.size ha.constants) hb hb' rfl
          fun i => hi.linked)
  · next existing hst =>
    obtain ⟨g, hg⟩ := existingFunction hst
    exact .bind (func_ensures hg (.fail (hrejected _ (by rintro ⟨⟩))))

/-! ### Constants -/

/-- Constants are added behind all others, and their declarations are linked to them. -/
theorem registerConstants_ensures {refuse : Failure → AnalysisState → Prop}
    {decls : List ConstDecl} (hnodup : (decls.map (·.info.id)).Nodup)
    (hnone : ∀ c ∈ decls, s.links[c.info.id]? = none)
    (hrefuse : ∀ e {t}, ¬ e.IsStrayReturn → t.refused = s.refused →
      (∀ {node}, node ∉ decls.map (·.info.id) → t.slots node = s.slots node) →
        refuse (.error e) t) :
    Ensures refuse (decls.forM registerConstant) s fun _ t =>
      ∃ (constants : Array VarSymbol) (links : Std.TreeMap Nat Link),
        t = { s with store := { s.store with constants }, links } ∧
        (∀ {i : Nat} {v}, s.store.constants[i]? = some v → constants[i]? = some v) ∧
        constants.toList.map (·.name) =
          s.store.constants.toList.map (·.name) ++ decls.map (·.name) ∧
        (s.store.Fixed → Store.Fixed { s.store with constants }) ∧
        (∀ node : Nat, node ∉ decls.map (·.info.id) → links[node]? = s.links[node]?) ∧
        ∀ (i : Nat) (c : ConstDecl), decls[i]? = some c →
          links[c.info.id]? = some (.var (.constant (s.store.constants.size + i))) := by
  induction decls generalizing s with
  | nil =>
    refine .pure ⟨s.store.constants, s.links, rfl, fun h => h, ?_, fun h => h, fun _ _ => rfl,
      by simp⟩
    rw [List.map_nil, List.append_nil]
  | cons c rest ih =>
    rw [List.map_cons, List.nodup_cons] at hnodup
    rw [List.forall_mem_cons] at hnone
    have hcontains : s.links.contains c.info.id = false := by
      rw [Std.TreeMap.contains_eq_isSome_getElem?, hnone.1]
      rfl
    refine .bind (.bind ((denoted?_ensures fun e he => hrefuse e he rfl fun _ => rfl).imp
      fun type t _ h => ?_))
    obtain ⟨rfl, -⟩ := h
    refine .bind (.store ?_)
    unfold Store.defineConstant
    split
    · next handle st hst =>
      split at hst
      · cases hst
      · cases hst
        refine .bind (.setStore (.modify ?_))
        simp only [Resolution.link, hcontains, Bool.false_eq_true, if_false]
        have hslots : ∀ {node : Nat} {target : Link}, node ≠ c.info.id →
            (t.links.insert c.info.id target)[node]? = t.links[node]? := fun hn => by
          rw [getElem?_insert, if_neg (Ne.symm hn)]
        refine (ih hnodup.2 (fun q hq => ?_) fun e _ he hr hframe => ?_).imp fun _ u _ hrest => ?_
        · have hne : q.info.id ≠ c.info.id := fun heq =>
            hnodup.1 (heq ▸ List.mem_map_of_mem hq)
          exact (hslots hne).trans (hnone.2 q hq)
        · refine hrefuse e he hr fun {node} hm => ?_
          rw [List.map_cons, List.mem_cons, not_or] at hm
          rw [hframe hm.2]
          simp only [AnalysisState.slots, hslots hm.1]
        · obtain ⟨constants, links, rfl, hold, hnames, hfixed, hframe, hlinks⟩ := hrest
          refine ⟨constants, links, rfl, fun {i v} hv => hold ?_, ?_,
            fun h => hfixed fun i v hv => ?_, fun node hm => ?_, fun i q hq => ?_⟩
          · have hlt : i < t.store.constants.size := (Array.getElem?_eq_some_iff.mp hv).1
            change (t.store.constants.push _)[i]? = some v
            rw [Array.getElem?_push, if_neg (by omega)]
            exact hv
          · rw [hnames]
            simp only [Array.toList_push, List.map_append, List.map_cons, List.map_nil,
              List.append_assoc, List.cons_append, List.nil_append]
          · change (t.store.constants.push _)[i]? = some v at hv
            rw [Array.getElem?_push] at hv
            split at hv
            · cases hv
              rfl
            · exact h i v hv
          · rw [List.map_cons, List.mem_cons, not_or] at hm
            exact (hframe node hm.2).trans (hslots hm.1)
          · cases i with
            | zero =>
              cases hq
              rw [hframe _ hnodup.1, Nat.add_zero]
              exact (getElem?_insert _ _ _ _).trans (if_pos rfl)
            | succ i =>
              have hl := hlinks i q hq
              simp only [Array.size_push] at hl
              rw [hl, Nat.add_assoc, Nat.add_comm 1 i]
    · next existing hst =>
      exact .fail (hrefuse _ (by rintro ⟨⟩) rfl fun _ => rfl)

/-- The constants of a definition are declared. -/
theorem registerConstDef_ensures {d : ConstDef} (h : Registering p ds (.constant d :: rest) s) :
    Ensures (Rejected p) (d.decls.forM registerConstant) s fun _ t =>
      Registering p (ds ++ [.constant d]) rest t := by
  have hi := h.inv
  have hdp : .constant d ∈ p.definitions := by
    rw [h.definitions]
    exact List.mem_append_right _ List.mem_cons_self
  have hsub : (d.decls.map (·.info.id) ++ exprIds d.values).Sublist d.ids :=
    ((heads_sublist ConstDecl.head_sublist d.decls).append (.refl _)).cons d.info.id
  have hnodup : (d.decls.map (·.info.id) ++ exprIds d.values).Nodup :=
    (h.wellFormed.ids_nodup hdp).sublist hsub
  have hids : ∀ node ∈ d.decls.map (·.info.id), node ∈ (Definition.constant d).ids ∧
      node ∉ (Definition.constant d).bodyIds := fun node hm =>
    ⟨hsub.subset (List.mem_append_left _ hm),
      fun hm' => (List.nodup_append.mp hnodup).2.2 node hm node hm' rfl⟩
  have hempty : ∀ node ∈ d.decls.map (·.info.id), s.slots node = .empty := fun node hm =>
    h.empty List.mem_cons_self (hids node hm).1
  refine (registerConstants_ensures (List.nodup_append.mp hnodup).1
    (fun c hc => congrArg Slots.link (hempty _ (List.mem_map_of_mem hc)))
    (fun e _ he hr hframe => h.rejected_of_frame hids e he hr hframe)).imp fun _ t _ hreg => ?_
  obtain ⟨constants, links, rfl, hold, hnames, hfixed, hframe, hlinks⟩ := hreg
  obtain ⟨blocks, hglobal⟩ := hi.global
  have hlink : ∀ {node : Nat} {target : Link}, s.links[node]? = some target →
      links[node]? = some target := by
    intro node target hl
    by_cases hm : node ∈ d.decls.map (·.info.id)
    · have hnone : s.links[node]? = none := congrArg Slots.link (hempty node hm)
      rw [hnone] at hl
      cases hl
    · exact (hframe node hm).trans hl
  refine h.next ?_ hids (fun hm => ?_) (fun _ => rfl) (fun _ => rfl) rfl rfl rfl rfl rfl hi.linked ?_ .inl
    (fun he => by cases he) (hfixed hi.fixed) ?_ hi.outer
  · exact { AnalysisState.Grows.refl s with
      store := ⟨fun hf => ⟨_, hf, .refl _⟩, fun ha => ⟨_, ha, .refl _⟩,
        fun hv => ⟨_, hold hv, .refl _⟩⟩
      link := hlink }
  · simp only [AnalysisState.slots, hframe _ hm]
  · intro id g f hg _ hnone
    exact absurd (hnone.symm.trans hg) (by simp)
  · have hlayer : (p.only (ds ++ [.constant d])).layer =
        ⟨none, (p.only ds).layer.names ++ d.decls.map fun c => (c.name, c.info.id)⟩ := by
      simp [Program.layer, Program.constants, Program.only, List.filterMap_append]
    have hhandle : ∀ i, Store.handleIn { s.store with constants } Store.globalScope i =
        .constant i := fun i => by simp only [Store.handleIn, hglobal]
    have hsize : s.store.constants.size = (p.only ds).layer.names.length := by
      have hlen := congrArg List.length hi.constants.names
      simpa [Store.namesIn, hglobal] using hlen
    rw [hlayer]
    refine ⟨(by simp), fun _ => rfl, fun i => by rw [hhandle]; rfl, ?_,
      fun {i name node} hn => ?_⟩
    · have hold' := hi.constants.names
      simp only [Store.namesIn, hglobal] at hold' ⊢
      rw [hnames, hold']
      simp only [List.map_append, List.map_map]
      rfl
    · rw [hhandle]
      by_cases hlt : i < (p.only ds).layer.names.length
      · rw [List.getElem?_append_left hlt] at hn
        have hl := hi.constants.links hn
        simp only [Store.handleIn, hglobal] at hl
        exact hlink hl
      · rw [List.getElem?_append_right (by omega), List.getElem?_map,
          Option.map_eq_some_iff] at hn
        obtain ⟨c, hc, hcn⟩ := hn
        cases hcn
        have hl := hlinks _ c hc
        rw [hsize, Nat.add_sub_cancel' (by omega)] at hl
        exact hl

end Check

/-! ### Programs -/

/-- A store with nothing but builtin functions. -/
structure Store.Bare (st : Store) : Prop where
  scopes : st.scopes = #[⟨.global, [], #[]⟩]
  constants : st.constants = #[]
  builtin : ∀ {id f}, st.func? id = some f →
    f.isBuiltin = true ∧ f.decl = none ∧ (f.kind = .proc ∨ f.ret.isSome)
  functions : ∀ {id}, id ∈ st.functions → (st.func? id).isSome

theorem Builtin.all_builtin : ∀ f ∈ Builtin.all,
    f.isBuiltin = true ∧ f.decl = none ∧ (f.kind = .proc ∨ f.ret.isSome) := by
  simp [Builtin.all, Builtin.symbol]

theorem Store.empty_bare : Store.empty.Bare where
  scopes := rfl
  constants := rfl
  builtin h := nomatch h
  functions h := absurd h (Array.not_mem_empty _)

theorem Store.Bare.addFunc {st : Store} (h : st.Bare) {f : FuncSymbol}
    (hf : f.isBuiltin = true ∧ f.decl = none ∧ (f.kind = .proc ∨ f.ret.isSome)) :
    (st.addFunc f).2.Bare where
  scopes := h.scopes
  constants := h.constants
  builtin {id g} hg := by
    change (st.funcs.push f)[id]? = some g at hg
    rw [Array.getElem?_push] at hg
    split at hg
    · cases hg
      exact hf
    · exact h.builtin hg
  functions {id} hm := by
    obtain ⟨g, hg⟩ := Option.isSome_iff_exists.mp (h.functions hm)
    have hlt : id < st.funcs.size := (Array.getElem?_eq_some_iff.mp hg).1
    change ((st.funcs.push f)[id]?).isSome
    rw [Array.getElem?_push, if_neg (Nat.ne_of_lt hlt)]
    exact Option.isSome_iff_exists.mpr ⟨g, hg⟩

theorem Store.Bare.registerBuiltins {st : Store} (h : st.Bare) : st.registerBuiltins.Bare := by
  unfold Store.registerBuiltins
  have hall := Builtin.all_builtin
  generalize Builtin.all = fs at hall
  induction fs generalizing st with
  | nil => exact h
  | cons f rest ih =>
    rw [List.forall_mem_cons] at hall
    rw [List.foldl_cons]
    have hadd := h.addFunc hall.1
    refine ih ?_ hall.2
    dsimp only
    split
    · next st' hst =>
      rw [Check.definedFunction hst]
      refine ⟨hadd.scopes, hadd.constants, hadd.builtin, fun {id} hm => ?_⟩
      rcases Array.mem_push.mp hm with hm | rfl
      · exact hadd.functions hm
      · change ((st.funcs.push f)[st.funcs.size]?).isSome
        rw [Array.getElem?_push_size]
        rfl
    · exact hadd

/-- The state before anything of the program is declared. -/
theorem Registering.initial {n : Nat} (hp : p.WellFormed n) {st : Store} (hst : st.Bare) :
    Registering p [] p.definitions { AnalysisState.initial n with store := st } := by
  have hslots : ∀ node : Nat, ({ AnalysisState.initial n with store := st }).slots node = .empty :=
    fun node => rfl
  have hdef : ∀ {d}, ¬ Defined (p.only []) { AnalysisState.initial n with store := st } d := by
    intro d hd
    cases hd with
    | program h => cases h
    | copy h => exact absurd h (Array.not_mem_empty _)
  have hscope : ∀ {i : Nat} {a : Scope}, st.scopes[i]? = some a →
      i = 0 ∧ a = ⟨.global, [], #[]⟩ := by
    intro i a ha
    rw [hst.scopes] at ha
    obtain ⟨hlt, heq⟩ := Array.getElem?_eq_some_iff.mp ha
    have hi : i = 0 := Nat.lt_one_iff.mp hlt
    subst hi
    exact ⟨rfl, heq.symm⟩
  have hglobal : st.scopes[Store.globalScope]? = some ⟨.global, [], #[]⟩ := by
    rw [hst.scopes]
    rfl
  refine ⟨rfl, hp, ?_, fun _ _ => rfl, fun _ => rfl, fun _ => rfl, fun _ => rfl⟩
  exact
    { nodup := fun hd => absurd hd hdef
      bounded := fun hd => absurd hd hdef
      disjoint := fun hd => absurd hd hdef
      shaped := fun hd => absurd hd hdef
      unused := fun _ => hslots _
      empty := fun hd => absurd hd hdef
      template := nofun
      analysed := fun hd => absurd hd hdef
      assigned := fun hd => absurd hd hdef
      fixed := fun i v hv => by
        rw [hst.constants] at hv
        cases hv
      refused := rfl
      linked := fun {scope id} h => by
        unfold Store.scopeFuncId? at h
        split at h
        · next heq =>
          have hbody := (hscope heq).2
          cases hbody
        · cases h
      declared := fun hf hd => by
        rw [(hst.builtin hf).2.1] at hd
        cases hd
      homed := fun hd => absurd hd hdef
      functions := fun hm => by
        obtain ⟨f, hf⟩ := Option.isSome_iff_exists.mp (hst.functions hm)
        obtain ⟨hb, -, hret⟩ := hst.builtin hf
        exact ⟨f, hf, .builtin hb hret⟩
      known := nofun
      copied := fun h => absurd h (Array.not_mem_empty _)
      unique := nofun
      settled := fun hd => absurd hd hdef
      understood := fun ht => absurd ht (Bool.false_ne_true)
      global := ⟨#[], hglobal⟩
      constants := by
        refine ⟨nofun, fun _ => rfl, fun i => ?_, ?_, nofun⟩
        · simp only [Store.handleIn, hglobal]
          rfl
        · simp only [Store.namesIn, hglobal, hst.constants]
          rfl
      outer := fun ha ho => by
        rw [(hscope ha).2] at ho
        cases ho }

namespace Check

theorem registerDefinition_ensures (h : Registering p ds (d :: rest) s) :
    Ensures (Rejected p) (registerDefinition d) s fun _ t => Registering p (ds ++ [d]) rest t := by
  cases d with
  | function d => exact registerFunction_ensures h
  | constant d => exact registerConstDef_ensures h

theorem registerDefinitions_ensures (h : Registering p ds rest s) :
    Ensures (Rejected p) (rest.forM registerDefinition) s fun _ t =>
      Registering p p.definitions [] t := by
  induction rest generalizing ds s with
  | nil =>
    refine .pure ?_
    have hp := h.definitions
    rw [List.append_nil] at hp
    exact hp ▸ h
  | cons d rest ih =>
    exact .bind ((registerDefinition_ensures h).imp fun _ t _ hfirst => ih hfirst)

/-- The first pass ends with all definitions declared, or with a failure that has left no trace. -/
theorem register_ensures (builtins : Bool) {n : Nat} (hp : p.WellFormed n) :
    Ensures (Rejected p) (register builtins p) (.initial n) fun _ t =>
      Registering p p.definitions [] t := by
  have hinitial : Registering p [] p.definitions
      (if builtins then { AnalysisState.initial n with store := Store.empty.registerBuiltins }
        else AnalysisState.initial n) := by
    cases builtins with
    | false => exact Registering.initial hp Store.empty_bare
    | true => exact Registering.initial hp Store.empty_bare.registerBuiltins
  exact .bind (.modify (registerDefinitions_ensures hinitial))

end Check

/-! ### Runs over programs -/

/-- The code that is analysed: the definitions of the program that are no templates, and the copies
of templates. -/
inductive AnalysedCode (p : Program) (s : AnalysisState) : Definition → Prop
  | constant {d : ConstDef} (h : .constant d ∈ p.definitions) : AnalysedCode p s (.constant d)
  | function {d : FuncDef} (h : .function d ∈ p.definitions) (ht : d.isTemplate = false) :
    AnalysedCode p s (.function d)
  | copy {template : Nat} {c : FuncDef} (h : c ∈ s.copies.getD template #[]) :
    AnalysedCode p s (.function c)

/-- What a run that gives a result leaves behind. -/
structure Completed (p : Program) (s : AnalysisState) : Prop where
  inv : Inv p s
  done : ∀ {d}, AnalysedCode p s d → s.progress[d.info.id]? = some .done

theorem AnalysedCode.defined (h : AnalysedCode p s d) : Defined p s d := by
  cases h with
  | constant h => exact .program h
  | function h _ => exact .program h
  | copy h => exact .copy h

/-- All sites of analysed code are resolved. -/
theorem Completed.resolved (h : Completed p s) (hd : AnalysedCode p s d) {site : Site}
    (hm : site ∈ d.sites p) : site.Resolved s :=
  (h.inv.analysed hd.defined (h.done hd) site hm).2

/-- A run over a program either completes its analysis or rejects the program. -/
theorem program_completes (builtins : Bool) {observe : Observer} (ho : observe.Passive p) {n : Nat}
    (hp : p.WellFormed n) :
    Ensures (Rejected p) (Check.program builtins observe p) (.initial n) fun _ t =>
      Completed p t := by
  refine .bind ((register_ensures builtins hp).imp fun _ s _ hreg => ?_)
  have hi : Inv p s := hreg.inv
  have hidle : Idle p s := fun {d} _ hin => by
    rw [hreg.idle] at hin
    cases hin
  refine (bodies_ensures ho hi hreg.nested hidle).imp fun _ t _ hbodies => ?_
  obtain ⟨hs, hdone⟩ := hbodies
  refine ⟨hs.inv, fun {d} hd => ?_⟩
  cases hd with
  | constant h => exact hdone _ h nofun
  | function h ht => exact hdone _ h (by rintro _ ⟨⟩; exact ht)
  | @copy template c h =>
    have hdef : Defined p t (.function c) := .copy h
    cases hprogress : t.progress[(Definition.function c).info.id]? with
    | none =>
      have hforeign : .function c ∉ p.definitions := by
        obtain ⟨i, -, f, source, -, hinst⟩ := hs.inv.copied h
        exact hinst.foreign
      exact absurd (hreg.defined_iff.mp (hs.begun hdef hprogress)) hforeign
    | some progress =>
      cases progress with
      | inProgress => exact absurd hprogress (hs.idle hi hidle hdef)
      | done => rfl

/-- A run over a program either completes its analysis or fails without a trace of a second
write. -/
theorem program_ensures (builtins : Bool) {observe : Observer} (ho : observe.Passive p) {n : Nat}
    (hp : p.WellFormed n) :
    Ensures (Clean p) (Check.program builtins observe p) (.initial n) fun _ t => Completed p t :=
  (program_completes builtins ho hp).imp_both (fun _ _ => Rejected.clean) fun _ _ => id

end Frontend
