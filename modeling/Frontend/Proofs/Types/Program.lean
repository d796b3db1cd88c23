import Frontend.Proofs.Analysis.Registration
import Frontend.Proofs.Types.Body

/-!
# Programs keep types proper

The first pass declares functions and constants with the types of their annotations, and the second
one analyses all that is no template. So everything is kept throughout the analysis of a regular
program, up to where it ends or gives up.
-/

namespace Frontend

variable {p : Program} {l : Terrain} {g : Ground} {scope : ScopeId} {s : AnalysisState}
  {observe : Observer} {n : Nat}

/-! ### Builtin functions -/

/-- The types of a symbol are proper but for placeholders. -/
structure FuncSymbol.Typed (f : FuncSymbol) : Prop where
  ret : HintProper f.ret
  params : ∀ v ∈ f.params, ∃ type, v.type = some type ∧ (type.Proper ∨ type.isTemplate = true)

theorem Builtin.all_typed : ∀ f ∈ Builtin.all, f.Typed := by
  have hall : ∀ f ∈ Builtin.all, HintProper f.ret ∧
      ∀ v ∈ f.params, ∃ type, v.type = some type ∧ (type.Proper ∨ type.isTemplate = true) := by
    simp [Builtin.all, Builtin.symbol, HintProper, Ty.Proper, Ty.isTemplate, Ty.string, Ty.int,
      Ty.float]
  exact fun f hf => ⟨(hall f hf).1, (hall f hf).2⟩

/-- A store of typed functions that are no instances or lambdas. -/
structure Store.Stocked (st : Store) : Prop where
  typed : ∀ {id f}, st.func? id = some f → f.Typed
  instances : st.instances = #[]
  instanceScopes : st.instanceScopes = #[]
  lambdas : st.lambdas = #[]

theorem Store.empty_stocked : Store.empty.Stocked where
  typed h := nomatch h
  instances := rfl
  instanceScopes := rfl
  lambdas := rfl

theorem Store.Stocked.addFunc {st : Store} (h : st.Stocked) {f : FuncSymbol} (hf : f.Typed) :
    (st.addFunc f).2.Stocked where
  typed {id k} hk := by
    change (st.funcs.push f)[id]? = some k at hk
    rw [Array.getElem?_push] at hk
    split at hk
    · cases hk
      exact hf
    · exact h.typed hk
  instances := h.instances
  instanceScopes := h.instanceScopes
  lambdas := h.lambdas

theorem Store.Stocked.registerBuiltins {st : Store} (h : st.Stocked) :
    st.registerBuiltins.Stocked := by
  unfold Store.registerBuiltins
  have hall := Builtin.all_typed
  generalize Builtin.all = fs at hall
  induction fs generalizing st with
  | nil => exact h
  | cons f rest ih =>
    rw [List.forall_mem_cons] at hall
    rw [List.foldl_cons]
    have hadd := h.addFunc hall.1
    refine ih ?_ hall.2
    dsimp only
    split
    · next st' hst =>
      rw [Check.definedFunction hst]
      exact ⟨hadd.typed, hadd.instances, hadd.instanceScopes, hadd.lambdas⟩
    · exact hadd

theorem Store.placeholders_registerBuiltins (st : Store) :
    st.registerBuiltins.placeholders = st.placeholders ++ Builtin.placeholders := by
  unfold Store.registerBuiltins Builtin.placeholders
  generalize Builtin.all = fs
  induction fs generalizing st with
  | nil => exact (List.append_nil _).symm
  | cons f rest ih =>
    have hadd : ∀ st' : Store, st'.funcs = (st.addFunc f).2.funcs →
        st'.placeholders = st.placeholders ++ f.placeholders := by
      intro st' hst'
      rw [← Store.placeholders_addFunc, Store.placeholders, Store.placeholders, hst']
    rw [List.foldl_cons, ih, List.flatMap_cons, ← List.append_assoc]
    congr 1
    dsimp only
    split
    · next st' hst => exact hadd st' (by rw [Check.definedFunction hst])
    · exact hadd _ rfl

theorem Store.placed_registerBuiltins : Store.empty.registerBuiltins.Placed p := by
  have hids : Store.empty.registerBuiltins.placeholders = Builtin.placeholders :=
    Store.placeholders_registerBuiltins .empty
  constructor
  · rw [hids]
    exact fun _ => by decide
  · intro id hid
    exact .inl (hids ▸ hid)

/-- Before anything of the program is declared, all is as it is to be kept. -/
theorem Store.Stocked.kept {st : Store} (h : st.Stocked) (hbare : st.Bare)
    (hfresh : ∀ node, n ≤ node → l.free node) (hids : (AnalysisState.initial n).Numbered p)
    (hplaced : st.Placed p) :
    AnalysisState.Kept p l { AnalysisState.initial n with store := st } ∧
      AnalysisState.Roster { AnalysisState.initial n with store := st } := by
  have hglobal : st.scopes[Store.globalScope]? = some ⟨.global, [], #[]⟩ := by
    rw [hbare.scopes]
    rfl
  have hblock : ∀ {v}, ¬ st.HasLocal v := by
    rintro v ⟨id, vars, outer, blocks, hid, -⟩
    rw [hbare.scopes] at hid
    obtain ⟨hlt, heq⟩ := Array.getElem?_eq_some_iff.mp hid
    obtain rfl : id = 0 := Nat.lt_one_iff.mp hlt
    cases heq
  refine ⟨?_, ?_⟩
  · exact
      { func := fun {id f} hf => by
          obtain ⟨hbuiltin, hdecl, -⟩ := hbare.builtin hf
          have hnone : ∀ d, f.decl ≠ some d := fun d => by
            rw [hdecl]
            exact (Option.some_ne_none d).symm
          exact ⟨(h.typed hf).ret, (h.typed hf).params, fun _ => .inl hbuiltin,
            fun d hd => absurd hd (hnone d), fun d hd => absurd hd (hnone d)⟩
        constant := fun {i v} hv => by
          rw [hbare.constants] at hv
          cases hv
        block := fun hv => absurd hv hblock
        global := by
          refine ⟨⟨_, hglobal⟩, fun o ho => ?_⟩
          simp only [Store.chain, hglobal, List.mem_singleton] at ho
          subst ho
          exact ⟨_, hglobal, fun _ hbody => by cases hbody⟩
        instances := fun id hm => by
          rw [h.instances] at hm
          exact absurd hm (Array.not_mem_empty _)
        lambdas := fun id hm => by
          rw [h.lambdas] at hm
          exact absurd hm (Array.not_mem_empty _)
        known := fun _ hm => absurd hm List.not_mem_nil
        scope := fun hscope => by cases hscope
        type := fun htype => by cases htype
        fresh := hfresh
        numbered := hids.of_eq rfl rfl
        placed := hplaced }
  · refine ⟨?_, ?_, fun _ => .nil, .nil⟩
    · rw [h.instances]
      rfl
    · rw [h.instances, h.instanceScopes]
      exact .nil

namespace Check

/-! ### The first pass -/

theorem registerFunction_proceeds {d : FuncDef} (hplace : g.place d.info.span.start)
    (hd : d.Regular g) (hfree : g.free d.info.id ↔ d.isTemplate = false)
    (hids : s.store.Awaits p d.placeholders) :
    Proceeds p g Store.globalScope (registerFunction d) s fun _ t =>
      ∀ id ∈ t.store.placeholders, id ∈ s.store.placeholders ∨ id ∈ d.placeholders := by
  intro hs
  have hgiven : ∀ types ∈ (none : Option (List Ty)), typesProper types := nofun
  refine .bind ((declareFunction_kept hs.kept ⟨hplace, g.plays, hd, hs.plays⟩ hs.scope hgiven
    (hfree.trans ⟨fun h _ => h, fun h => h rfl⟩) (fun _ => hids)).imp
      fun r t _ ht => .bind (.store ?_))
  obtain ⟨hk, hadds⟩ := ht
  split
  · next st hst =>
    rw [definedFunction hst]
    have hg : t.store.Grows { t.store with
        functions := t.store.functions.push r.2
        functionScopes := t.store.functionScopes.push r.1 } :=
      ⟨fun hf => ⟨_, hf, .refl _⟩, fun ha => ⟨_, ha, .refl _⟩, fun hv => ⟨_, hv, .refl _⟩⟩
    have he := AnalysisState.Extends.of_store hg
    exact .setStore ⟨hadds.extend.trans he, hs.extend (hadds.extend.trans he)
      (hk.of_store hg .inl .inl .inl rfl rfl (hk.placed.of_funcs rfl))
      ((hs.roster.adds hadds).carry hg rfl rfl rfl rfl), hadds.placeholders⟩
  · refine .bind (.bind (.store ?_))
    split
    · exact .pure (.fail ⟨hplace, hk⟩)
    · exact .fault ⟨nofun, hk⟩

theorem registerConstant_proceeds {d : ConstDecl} (hd : d.Regular g) :
    Proceeds p g Store.globalScope (registerConstant d) s fun _ t =>
      t.store.funcs = s.store.funcs := by
  refine .check (.denoted? hd.type) fun type htype => .store ?_
  unfold Store.defineConstant
  split
  · next handle st hst =>
    split at hst
    · cases hst
    · cases hst
      have hg : s.store.Grows { s.store with
          constants := s.store.constants.push ⟨d.name, type, false⟩ } :=
        ⟨fun hf => ⟨_, hf, .refl _⟩, fun ha => ⟨_, ha, .refl _⟩, fun {i v} hv => by
          refine ⟨v, ?_, .refl v⟩
          rw [Array.getElem?_push, if_neg (Nat.ne_of_lt (Array.getElem?_eq_some_iff.mp hv).1)]
          exact hv⟩
      have hset : Proceeds p g Store.globalScope (setStore { s.store with
          constants := s.store.constants.push ⟨d.name, type, false⟩ }) s
          fun _ t => t.store.funcs = s.store.funcs := by
        refine .modify (fun hs => ⟨.of_store hg, ?_, hs.roster.carry hg rfl rfl rfl rfl⟩) rfl
        refine hs.kept.of_store hg .inl (fun {i v} hv => ?_) .inl rfl rfl
          (hs.kept.placed.of_funcs rfl)
        rw [Array.getElem?_push] at hv
        split at hv
        · cases hv
          exact .inr htype
        · exact .inl hv
      exact .bind hset fun _ _ _ hfuncs => (link_proceeds _ _).imp fun _ _ _ hlink =>
        (congrArg Store.funcs hlink.2.1).trans hfuncs
  · exact .fail hd.info.place

/-- One action after another. -/
theorem forM_proceeds {α : Type} {as : List α} {f : α → Check Unit}
    (h : ∀ a ∈ as, ∀ s, Proceeds p g scope (f a) s fun _ _ => True) :
    Proceeds p g scope (as.forM f) s fun _ _ => True := by
  induction as generalizing s with
  | nil => exact .pure trivial
  | cons a rest ih =>
    rw [List.forall_mem_cons] at h
    exact .bind (h.1 s) fun _ _ _ _ => ih h.2

/-- Declaring constants leaves the functions as they are. -/
theorem registerConstants_proceeds {decls : List ConstDecl} (hd : ∀ d ∈ decls, d.Regular g) :
    Proceeds p g Store.globalScope (decls.forM registerConstant) s fun _ t =>
      t.store.funcs = s.store.funcs := by
  induction decls generalizing s with
  | nil => exact .pure rfl
  | cons d rest ih =>
    rw [List.forall_mem_cons] at hd
    exact .bind (registerConstant_proceeds hd.1) fun _ _ _ hfuncs =>
      (ih hd.2).imp fun _ _ _ hfuncs' => hfuncs'.trans hfuncs

theorem registerDefinition_proceeds (hp : p.Regular l) {d : Definition}
    (hd : d ∈ p.definitions) (hids : s.store.Awaits p d.placeholders) :
    Proceeds p ⟨l, p.Plays⟩ Store.globalScope (registerDefinition d) s fun _ t =>
      ∀ id ∈ t.store.placeholders, id ∈ s.store.placeholders ∨ id ∈ d.placeholders := by
  cases d with
  | function d =>
    have hm := Program.mem_functions.mpr hd
    exact registerFunction_proceeds (hp.function d hm).1 (hp.function d hm).2 (hp.free d hm) hids
  | constant d =>
    refine (registerConstants_proceeds
      (hp.constant d (Program.mem_constants.mpr hd)).decls).imp fun _ t _ hfuncs id hid => .inl ?_
    rwa [Store.placeholders, hfuncs] at hid

/-- Definitions are declared one after another, so none gets the placeholders of another one. -/
theorem registerDefinitions_proceeds (hp : p.Regular l) {ds : List Definition}
    (hds : ∀ d ∈ ds, d ∈ p.definitions)
    (hids : s.store.Awaits p (ds.flatMap Definition.placeholders)) :
    Proceeds p ⟨l, p.Plays⟩ Store.globalScope (ds.forM registerDefinition) s fun _ _ => True := by
  induction ds generalizing s with
  | nil => exact .pure trivial
  | cons d rest ih =>
    rw [List.forall_mem_cons] at hds
    obtain ⟨hfirst, hrest, hdisjoint⟩ := hids.append
    refine .bind (registerDefinition_proceeds hp hds.1 hfirst) fun _ t _ hadded => ih hds.2 ?_
    refine ⟨hrest.nodup, fun hp id hid hid' => ?_, hrest.mem⟩
    rcases hadded id hid' with hold | hnew
    · exact hrest.new hp hid hold
    · exact hdisjoint hnew hid

/-! ### The second pass -/

theorem bodies_proceeds (hp : p.Regular l) (ho : observe.Accepting p l) :
    Proceeds p ⟨l, p.Plays⟩ Store.globalScope (bodies observe p) s fun _ _ => True := by
  have hw := demandAt_keepsTypes hp ho (p.demandBound + 1) []
  have hunless : ∀ {t : AnalysisState} {act : Check Unit} (node : Nat),
      Proceeds p ⟨l, p.Plays⟩ Store.globalScope act t (fun _ _ => True) →
        Proceeds p ⟨l, p.Plays⟩ Store.globalScope (unlessBegun node act) t fun _ _ => True := by
    intro t act node h
    refine .progress? fun progress => ?_
    split
    · exact h
    · exact .pure trivial
  refine .bind (forM_proceeds fun c hc t => hunless _ (hw.constant hc)) fun _ _ _ _ =>
    forM_proceeds fun d hd t => ?_
  split
  · exact .pure trivial
  · next htemplate =>
    obtain ⟨hplace, hregular⟩ := hp.function d hd
    exact hunless _ (hw.function ⟨hplace, p.Plays, hregular, fun _ _ hn => hn.atHand⟩
      ((hp.free d hd).mpr (Bool.eq_false_iff.mpr htemplate)))

/-- All that the analysis keeps of its types is there when it ends and where it gives up. -/
theorem program_keepsTypes (hp : p.Regular l) (hfresh : ∀ node, n ≤ node → l.free node)
    (hids : (AnalysisState.initial n).Numbered p) (ho : observe.Accepting p l) (builtins : Bool) :
    Ensures (Refused p l) (program builtins observe p) (.initial n) fun _ t =>
      t.Kept p l ∧ t.Roster := by
  have hinitial : Standing p ⟨l, p.Plays⟩ Store.globalScope
      (if builtins then { AnalysisState.initial n with store := Store.empty.registerBuiltins }
        else AnalysisState.initial n) := by
    have hstate : ∀ {s : AnalysisState}, s.Kept p l ∧ s.Roster →
        Standing p ⟨l, p.Plays⟩ Store.globalScope s := fun h =>
      ⟨h.1, h.2, h.1.global, fun _ _ hn => hn.atHand⟩
    cases builtins with
    | false =>
      exact hstate (Store.empty_stocked.kept Store.empty_bare hfresh hids
        ⟨fun _ => List.nodup_nil, fun _ hid => absurd hid List.not_mem_nil⟩)
    | true =>
      exact hstate (Store.empty_stocked.registerBuiltins.kept Store.empty_bare.registerBuiltins
        hfresh hids Store.placed_registerBuiltins)
  have hawaits : (if builtins then { AnalysisState.initial n with
      store := Store.empty.registerBuiltins } else AnalysisState.initial n).store.Awaits p
        p.placeholders := by
    refine ⟨?_, fun hp id hid hid' => ?_, fun _ hid => hid⟩
    · have hnodup := hids.nodup
      exact p.placeholders_sublist.nodup (List.nodup_append.mp hnodup).1
    · cases builtins with
      | false => exact absurd hid' List.not_mem_nil
      | true =>
        have heq : Store.empty.registerBuiltins.placeholders = Builtin.placeholders :=
          Store.placeholders_registerBuiltins .empty
        exact hp hid (heq ▸ hid')
  refine .bind (.bind (.modify (((registerDefinitions_proceeds hp (fun _ hd => hd) hawaits)
    hinitial).imp fun _ t _ ht => ?_)))
  exact (bodies_proceeds hp ho ht.2.1).imp fun _ _ _ hu => ⟨hu.2.1.kept, hu.2.1.roster⟩

end Check

end Frontend
