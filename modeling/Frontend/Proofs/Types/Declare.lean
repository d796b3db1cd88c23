import Frontend.Proofs.Calls.Instance
import Frontend.Proofs.Tree.Copied
import Frontend.Proofs.Types.Slots

/-!
# Declaring functions with proper types

A function is declared with the types of its annotations and placeholders for what has none, or
with given types. So the symbol of an instance or a lambda has no placeholder, and that of a
function of the program has one just if the function is a template. An instance is entered in all
lists at once.
-/

namespace Frontend

variable {p : Program} {g : Ground} {l : Terrain} {scope : ScopeId} {s t : AnalysisState}

/-- What the declaration of a function adds to the symbols and scopes. -/
structure Adds (l : Terrain) (s t : AnalysisState) (d : FuncDef) (scope : ScopeId) (id : FuncId) :
    Prop where
  extend : s.Extends t
  new : s.store.func? id = none
  symbol : t.store.IsSymbolOf id d
  scope : t.store.scopeFuncId? scope = some id
  concrete : l.free d.info.id → t.store.IsConcrete id
  instances : t.store.instances = s.store.instances
  instanceScopes : t.store.instanceScopes = s.store.instanceScopes
  lambdas : t.store.lambdas = s.store.lambdas
  known : t.known = s.known
  copies : t.copies = s.copies
  nextId : t.nextId = s.nextId
  placeholders : ∀ id ∈ t.store.placeholders, id ∈ s.store.placeholders ∨ id ∈ d.placeholders

theorem AnalysisState.Roster.adds {d : FuncDef} {id : FuncId} (h : s.Roster)
    (ha : Adds l s t d scope id) : t.Roster :=
  h.carry ha.extend.store ha.instances ha.instanceScopes ha.known ha.copies

/-- The parameters and the result type of a function that is at hand. -/
theorem FuncDef.Readable.parts {d : FuncDef} (hd : d.Readable p l s) :
    ∃ plays, (∀ q ∈ d.params, q.Regular ⟨l, plays⟩) ∧ ∀ t ∈ d.returnType, t.Regular ⟨l, plays⟩ := by
  obtain ⟨plays, hregular, -⟩ := hd.regular
  cases d
  simp only [FuncDef.Regular] at hregular
  exact ⟨plays, hregular.1, hregular.2.1⟩

/-! ### Symbols of parameters -/

theorem paramType_results {q : Param} (hq : q.Regular g) {concrete : Option (List Ty)}
    (hc : ∀ types ∈ concrete, typesProper types) :
    Results g.place (paramType concrete q) fun type =>
      type.Proper ∨ concrete = none ∧ type.isTemplate = true := by
  unfold paramType
  split
  · next type types _ =>
    have hproper := hc _ rfl
    rw [typesProper] at hproper
    exact .pure (.inl hproper.1)
  · exact .throw nofun
  · next written hwritten =>
    have hresults : Results g.place (written.resolve.mapError Failure.error) Ty.Proper :=
      .of_answers (hq.type written hwritten).resolve
    exact ⟨fun type ht => .inl (hresults.ok type ht), hresults.error⟩
  · exact .pure (.inr ⟨rfl, rfl⟩)

/-- Parameters have proper types or, where no types are given, placeholders. -/
theorem paramSymbols_results {params : List Param} (hp : ∀ q ∈ params, q.Regular g)
    {concrete : Option (List Ty)} (hc : ∀ types ∈ concrete, typesProper types)
    (used : List String) :
    Results g.place (paramSymbols used concrete params) fun symbols =>
      ∀ v ∈ symbols, ∃ type, v.type = some type ∧
        (type.Proper ∨ concrete = none ∧ type.isTemplate = true) := by
  induction params generalizing concrete used with
  | nil => exact .pure (List.forall_mem_nil _)
  | cons q rest ih =>
    rw [List.forall_mem_cons] at hp
    have htail : ∀ types ∈ concrete.map List.tail, typesProper types := by
      intro types hm
      obtain ⟨types', hm', rfl⟩ := Option.map_eq_some_iff.mp hm
      have hproper := hc types' hm'
      rw [typesProper_iff] at hproper ⊢
      exact fun t ht => hproper t (List.mem_of_mem_tail ht)
    unfold paramSymbols
    split
    · exact .throw hp.1.info.place
    · refine .bind (paramType_results hp.1 hc) fun type htype => ?_
      refine .bind (ih hp.2 htail (q.name :: used)) fun symbols hsymbols => ?_
      refine .pure ?_
      refine List.forall_mem_cons.mpr ⟨⟨type, rfl, htype⟩, fun v hv => ?_⟩
      obtain ⟨type', htype', hproper⟩ := hsymbols v hv
      exact ⟨type', htype', hproper.imp_right fun h => ⟨Option.map_eq_none_iff.mp h.1, h.2⟩⟩

/-! ### Symbols of functions -/

namespace Check

theorem linkParams_kept (inside : ScopeId) (params : List Param) (index : Nat)
    (hk : s.Kept p l) :
    Ensures (fun _ _ => False) (linkParams inside index params) s fun _ t =>
      t.Kept p l ∧ ∃ links refused, t = { s with links, refused } := by
  induction params generalizing index s with
  | nil => exact .pure ⟨hk, s.links, s.refused, rfl⟩
  | cons q rest ih =>
    obtain ⟨links, refused, heq, -, hr, hl⟩ := s.link_eq q.info.id (.var (.param inside index))
    refine .bind (.modify ?_)
    rw [heq]
    refine (ih (index + 1) (hk.links hr hl)).imp fun _ t _ ht => ⟨ht.1, ?_⟩
    obtain ⟨links', refused', rfl⟩ := ht.2
    exact ⟨links', refused', rfl⟩

/-- The symbol of a function has placeholders just if no types are given and the function is a
template. -/
theorem paramSymbols_template {d : FuncDef} {concrete : Option (List Ty)}
    (hd : ∀ q ∈ d.params, q.Regular g) (hc : ∀ types ∈ concrete, typesProper types)
    {symbols : List VarSymbol} (h : paramSymbols [] concrete d.params = .ok symbols) :
    symbols.any VarSymbol.isTemplate = true ↔ concrete = none ∧ d.isTemplate = true := by
  cases concrete with
  | none =>
    rw [paramSymbols_isTemplate h]
    exact ⟨fun h => ⟨rfl, h⟩, fun h => h.2⟩
  | some types =>
    refine ⟨fun htemplate => ?_, nofun⟩
    obtain ⟨v, hv, hv'⟩ := List.any_eq_true.mp htemplate
    obtain ⟨type, htype, hproper⟩ := (paramSymbols_results hd hc []).ok symbols h v hv
    have hnot := (hproper.resolve_right nofun).isTemplate
    simp only [VarSymbol.isTemplate, htype, Option.any_some, hnot, Bool.false_eq_true] at hv'

/-- A function symbol and a scope for it are added to a state that keeps its types. -/
theorem openFunction_kept (hk : s.Kept p l) {f : FuncSymbol} (hf : f.Kept p l s)
    (hplaced : (s.store.addFunc f).2.Placed p) (enclosing : ScopeId) :
    ∃ st, (s.store.addFunc f).2.openFunction (some s.store.funcs.size) enclosing =
        (s.store.scopes.size, st) ∧ AnalysisState.Kept p l { s with store := st } ∧
      s.store.Grows st ∧ s.store.func? s.store.funcs.size = none ∧
      st.func? s.store.funcs.size = some f ∧ s.store.Opens st s.store.scopes.size
        ⟨.function (some s.store.funcs.size), s.store.chain enclosing, #[]⟩ ∧
      st.instances = s.store.instances ∧ st.instanceScopes = s.store.instanceScopes ∧
      st.lambdas = s.store.lambdas ∧
      st.placeholders = s.store.placeholders ++ f.placeholders := by
  obtain ⟨st, hst, hopens, hnew, hfunc, hold, hconstants, -⟩ :=
    s.store.addFunc_openFunction f enclosing
  have hlists : st.instances = s.store.instances ∧ st.instanceScopes = s.store.instanceScopes ∧
      st.lambdas = s.store.lambdas ∧
      st.placeholders = s.store.placeholders ++ f.placeholders := by
    cases hst
    exact ⟨rfl, rfl, rfl, Store.placeholders_addFunc s.store f⟩
  have hplaced' : st.Placed p :=
    hplaced.of_eq (hlists.2.2.2.trans (Store.placeholders_addFunc s.store f).symm)
  have hgrows : s.store.Grows st := by
    refine hopens.grows (fun {i f} hf => ?_) hconstants
    rw [hold fun heq => by rw [heq, hnew] at hf; cases hf]
    exact hf
  refine ⟨st, hst, ?_, hgrows, hnew, hfunc, hopens, hlists⟩
  refine hk.of_store hgrows (fun {i f'} hf' => ?_) (fun hv => .inl (by rwa [hconstants] at hv))
    (fun hv => ?_) hlists.1 hlists.2.2.1 hplaced'
  · by_cases heq : i = s.store.funcs.size
    · rw [heq, hfunc] at hf'
      cases hf'
      exact .inr hf
    · exact .inl ((hold heq).symm.trans hf')
  · rcases hopens.hasLocal hv with hv | ⟨_, hvars, -⟩
    · exact .inl hv
    · cases hvars

/-- The symbol that a function gets has placeholders if the function does not count as free. -/
theorem symbol_kept {d : FuncDef} {concrete : Option (List Ty)} (hd : d.Readable p l s)
    (hc : ∀ types ∈ concrete, typesProper types)
    (hfree : l.free d.info.id ↔ (concrete = none → d.isTemplate = false))
    {params : List VarSymbol} (hparams : paramSymbols [] concrete d.params = .ok params)
    {ret : Option Ty} (hret : HintProper ret) :
    FuncSymbol.Kept p l s ⟨d.name, params, ret, d.kind, false, some d⟩ ∧
      (l.free d.info.id ↔ ¬ params.any VarSymbol.isTemplate = true) := by
  obtain ⟨plays, hregular, -⟩ := hd.parts
  have htemplate := paramSymbols_template hregular hc hparams
  have hfree' : l.free d.info.id ↔ ¬ params.any VarSymbol.isTemplate = true := by
    rw [hfree, htemplate, not_and, Bool.not_eq_true]
  refine ⟨⟨hret, fun v hv => ?_, fun h => .inr ⟨d, rfl, (htemplate.mp h).2⟩, ?_, ?_⟩, hfree'⟩
  · obtain ⟨type, htype, hproper⟩ := (paramSymbols_results hregular hc []).ok params hparams v hv
    exact ⟨type, htype, hproper.imp_right And.right⟩
  · rintro _ ⟨⟩
    exact hd
  · rintro _ ⟨⟩
    rw [hfree']
    exact Classical.em _

/-- The symbol that a function gets has its placeholders, or none where the types are given. -/
theorem symbol_placed {d : FuncDef} {concrete : Option (List Ty)} {st : Store} (hst : st.Placed p)
    (hd : ∀ q ∈ d.params, q.Regular g) (hc : ∀ types ∈ concrete, typesProper types)
    (hids : concrete = none → st.Awaits p d.placeholders) {params : List VarSymbol}
    (hparams : paramSymbols [] concrete d.params = .ok params) (ret : Option Ty) :
    (st.addFunc ⟨d.name, params, ret, d.kind, false, some d⟩).2.Placed p ∧
      ∀ id ∈ FuncSymbol.placeholders ⟨d.name, params, ret, d.kind, false, some d⟩,
        id ∈ d.placeholders := by
  cases concrete with
  | none =>
    have hsame : FuncSymbol.placeholders ⟨d.name, params, ret, d.kind, false, some d⟩ =
        d.placeholders := paramSymbols_placeholders hparams
    rw [← hsame] at hids
    exact ⟨hst.add (hids rfl), fun id hid => hsame ▸ hid⟩
  | some types =>
    have hconcrete : FuncSymbol.isTemplate ⟨d.name, params, ret, d.kind, false, some d⟩ = false :=
      Bool.eq_false_iff.mpr fun h =>
        Option.some_ne_none _ ((paramSymbols_template hd hc hparams).mp h).1
    rw [FuncSymbol.placeholders_eq_nil hconcrete]
    exact ⟨hst.addConcrete hconcrete, fun id hid => absurd hid List.not_mem_nil⟩

/-- A function that is not a template is declared as one without placeholders, and its scope is not
that of a template. -/
theorem enterFunction_kept {d : FuncDef} {f : FuncSymbol} {enclosing : ScopeId} (hk : s.Kept p l)
    (hf : f.Kept p l s) (hdecl : f.decl = some d) (he : s.store.Concrete enclosing)
    (hfree : l.free d.info.id → f.isTemplate = false)
    (hplaced : (s.store.addFunc f).2.Placed p)
    (hplaceholders : ∀ id ∈ f.placeholders, id ∈ d.placeholders) :
    Ensures (Refused p l) (do
        let (id, st) := s.store.addFunc f
        let (inside, st) := st.openFunction (some id) enclosing
        setStore st
        linkParams inside 0 d.params
        Check.setScope d.info.id inside
        return (inside, id)) s fun r t => t.Kept p l ∧ Adds l s t d r.1 r.2 := by
  obtain ⟨st, hst, hk', hgrows, hnew, hfunc, hopens, hinstances, hscopes, hlambdas, hids⟩ :=
    openFunction_kept hk hf hplaced enclosing
  refine .bind (.setStore (.bind ?_))
  change Ensures _ (linkParams s.store.scopes.size 0 d.params) { s with
    store := ((s.store.addFunc _).2.openFunction (some s.store.funcs.size) enclosing).2 } _
  rw [hst]
  refine (linkParams_kept s.store.scopes.size d.params 0 hk').imp_both (fun _ _ => False.elim)
    fun _ u hu => ?_
  obtain ⟨hku, links, refused, rfl⟩ := hu
  have hconcrete : l.free d.info.id → st.IsConcrete s.store.funcs.size :=
    fun h => ⟨_, hfunc, hfree h⟩
  have hscope : st.Concrete s.store.scopes.size ∨ ¬ l.free d.info.id := by
    by_cases h : l.free d.info.id
    · refine .inl (hopens.concrete hgrows he rfl fun func hbody => ?_)
      cases hbody
      exact hconcrete h
    · exact .inr h
  refine .bind (.modify (.pure ?_))
  have hku' := hku.setScope d.info.id s.store.scopes.size hscope
  obtain ⟨scopes, refused', heq⟩ := AnalysisState.setScope_eq
    (s := { s with store := st, links, refused }) d.info.id s.store.scopes.size
  rw [heq] at hku' ⊢
  refine ⟨hku', ⟨hgrows, id⟩, hnew, ⟨_, hfunc, hdecl⟩, ?_, hconcrete, hinstances, hscopes,
    hlambdas, rfl, rfl, rfl, fun id hid => ?_⟩
  · simp only [Store.scopeFuncId?, hopens.opened]
  · have hid' : id ∈ s.store.placeholders ++ f.placeholders := hids ▸ hid
    exact (List.mem_append.mp hid').imp_right (hplaceholders id)

/-- A function is declared with given types, with those of its annotations, or with placeholders; it
is a template in the last case only, and then it is one of those that do not count as free. -/
theorem declareFunction_kept {d : FuncDef} {enclosing : ScopeId} {concrete : Option (List Ty)}
    (hk : s.Kept p l) (hd : d.Readable p l s) (he : s.store.Concrete enclosing)
    (hc : ∀ types ∈ concrete, typesProper types)
    (hfree : l.free d.info.id ↔ (concrete = none → d.isTemplate = false))
    (hids : concrete = none → s.store.Awaits p d.placeholders) :
    Ensures (Refused p l) (declareFunction d enclosing concrete) s fun r t =>
      t.Kept p l ∧ Adds l s t d r.1 r.2 := by
  obtain ⟨plays, hregular, hreturn⟩ := hd.parts
  have hresults := paramSymbols_results hregular hc []
  refine .bind (.ofResult (fun e he => ⟨hresults.error e he, hk⟩) fun params hparams => ?_)
  have hret : Yields l.place (denoted? (if d.kind.returnsValue then d.returnType else none))
      HintProper := by
    split
    · exact Yields.denoted? (g := ⟨l, plays⟩) hreturn
    · exact .pure hintProper_none
  refine .bind ((hret.ensures hk).imp fun ret t _ ht => ?_)
  obtain ⟨rfl, hret⟩ := ht
  obtain ⟨hsymbol, hfree'⟩ := symbol_kept hd hc hfree hparams hret
  obtain ⟨hplaced, hmem⟩ := symbol_placed hk.placed hregular hc hids hparams ret
  refine .bind (.store ?_)
  exact enterFunction_kept hk hsymbol rfl he (fun h => Bool.eq_false_iff.mpr (hfree'.mp h)) hplaced
    hmem

/-! ### Lists of functions -/

/-- The lists of instances and lambdas may grow by functions without placeholders. -/
theorem listed_kept (hk : s.Kept p l) (instances : Array FuncId)
    (hinstances : ∀ id ∈ instances, s.store.IsConcrete id) (instanceScopes : Array ScopeId)
    (lambdas : Array FuncId) (hlambdas : ∀ id ∈ lambdas, s.store.IsConcrete id)
    (lambdaScopes : Array ScopeId) (known : List Instance)
    (hknown : ∀ i ∈ known, s.store.IsConcrete i.func) (active : Std.TreeMap Nat Nat) :
    s.Extends { s with
      store := { s.store with instances, instanceScopes, lambdas, lambdaScopes }
      known, active } ∧
    AnalysisState.Kept p l { s with
      store := { s.store with instances, instanceScopes, lambdas, lambdaScopes }
      known, active } := by
  have hg : s.store.Grows { s.store with instances, instanceScopes, lambdas, lambdaScopes } :=
    ⟨fun hf => ⟨_, hf, .refl _⟩, fun ha => ⟨_, ha, .refl _⟩, fun hv => ⟨_, hv, .refl _⟩⟩
  have he : s.Extends { s with
      store := { s.store with instances, instanceScopes, lambdas, lambdaScopes }
      known, active } := ⟨hg, id⟩
  exact ⟨he,
    { func := fun hf => (hk.func hf).extends he
      constant := hk.constant
      block := hk.block
      global := hk.global.grows hg
      instances := fun id hm => (hinstances id hm).grows hg
      lambdas := fun id hm => (hlambdas id hm).grows hg
      known := fun i hm => (hknown i hm).grows hg
      scope := fun hsc => (hk.scope hsc).imp_left fun hc => hc.grows hg
      type := fun ht => (hk.type ht).imp_right fun ht => ht.imp_right fun ht =>
        ⟨ht.1.extends he, ht.2.grows hg id⟩
      fresh := hk.fresh
      numbered := hk.numbered.of_eq rfl rfl
      placed := hk.placed.of_funcs rfl }⟩

theorem declareLambda_proceeds {d : FuncDef} {hints : List Ty} (hd : d.Regular g)
    (hinfo : d.info.On g) (hh : typesProper hints) :
    Proceeds p g scope (declareLambda scope d hints) s fun r t =>
      typesProper r.1 ∧ t.store.IsConcrete r.2 := by
  have hparams : ∀ q ∈ d.params, q.Regular g := by
    cases d
    rw [FuncDef.Regular] at hd
    exact hd.1
  refine .check (lambdaParams_yields hparams hh) fun params hproper => fun hs => ?_
  have hreadable : d.Readable p g.toTerrain s := ⟨hinfo.place, g.plays, hd, hs.plays⟩
  have hgiven : ∀ types ∈ some params, typesProper types := by
    rintro _ ⟨⟩
    exact hproper.1
  refine .bind ((declareFunction_kept hs.kept hreadable hs.scope hgiven
    (iff_of_true hinfo.free nofun) fun hnone => by cases hnone).imp fun r t _ ht => .bind (.modify (.pure ?_)))
  obtain ⟨hk, hadds⟩ := ht
  have hconcrete := hadds.concrete hinfo.free
  obtain ⟨he, hk'⟩ := listed_kept hk _ hk.instances t.store.instanceScopes
    (t.store.lambdas.push r.2) (Array.forall_mem_push.mpr ⟨hconcrete, hk.lambdas⟩)
    (t.store.lambdaScopes.push r.1) _ hk.known t.active
  exact ⟨hadds.extend.trans he, hs.extend (hadds.extend.trans he) hk'
    ((hs.roster.adds hadds).carry he.store rfl rfl rfl rfl), hproper.1, hconcrete.grows he.store⟩

/-! ### Instances -/

/-- A copy of a template is a definition like the others. -/
theorem copied_kept (hk : s.Kept p l) (d : FuncDef) {copy : FuncDef} {next : Nat}
    (hfresh : Fresh s.nextId next copy.ids) :
    s.Extends (copied s d copy next) ∧ (copied s d copy next).Kept p l := by
  have he : s.Extends (copied s d copy next) := ⟨.refl _, fun hm => mem_copied.mpr (.inl hm)⟩
  exact ⟨he,
    { func := fun hf => (hk.func hf).extends he
      constant := hk.constant
      block := hk.block
      global := hk.global
      instances := hk.instances
      lambdas := hk.lambdas
      known := hk.known
      scope := hk.scope
      type := fun ht => (hk.type ht).imp_right fun ht => ht.imp_right fun ht =>
        ⟨ht.1.extends he, ht.2.grows (.refl _) id⟩
      fresh := fun node hn => hk.fresh node (Nat.le_trans hfresh.le hn)
      numbered := hk.numbered.copied d hfresh
      placed := hk.placed }⟩

/-- An instance is entered in all lists. -/
theorem roster_listed {d copy : FuncDef} {next : Nat} {inside : ScopeId} {id : FuncId}
    (hk : s.Kept p l) (hr : s.Roster) (ha : Adds l (copied s d copy next) t copy inside id)
    (args : List Ty) (active : Std.TreeMap Nat Nat) :
    AnalysisState.Roster { t with
      store := { t.store with
        instances := t.store.instances.push id
        instanceScopes := t.store.instanceScopes.push inside }
      known := ⟨d.info.id, args, id⟩ :: t.known
      active } := by
  have hknown : t.known = s.known := ha.known
  have hinstances : t.store.instances = s.store.instances := ha.instances
  have hscopes : t.store.instanceScopes = s.store.instanceScopes := ha.instanceScopes
  have hgrows : s.store.Grows t.store := ha.extend.store
  refine ⟨?_, ?_, fun k => ?_, ?_⟩
  · simp only [Array.toList_push, List.reverse_cons, List.map_append, List.map_cons, List.map_nil,
      hinstances, hknown, hr.instances]
  · simp only [Array.toList_push, hinstances, hscopes]
    exact List.rel_append (hr.scopes.imp fun _ _ => hgrows.scopeFuncId?) (.cons ha.scope .nil)
  · have hold : List.Forall₂ (fun i copy => t.store.IsSymbolOf i.func copy)
        (s.known.reverse.filter (·.template == k)) (s.copies.getD k #[]).toList :=
      (hr.copies k).imp fun _ _ hi => hi.grows hgrows
    have hcopies : t.copies = (copied s d copy next).copies := ha.copies
    change List.Forall₂ (fun (i : Instance) copy => t.store.IsSymbolOf i.func copy) _
      (t.copies.getD k #[]).toList
    simp only [List.reverse_cons, List.filter_append, hknown, hcopies, copied, Resolution.addCopy,
      Std.TreeMap.getD_insert, Std.compare_eq_iff_eq, List.filter_singleton]
    by_cases heq : d.info.id = k
    · rw [if_pos heq, heq, beq_self_eq_true, cond_true, Array.toList_push]
      exact List.rel_append hold (.cons ha.symbol .nil)
    · rw [if_neg heq, beq_false_of_ne heq, cond_false, List.append_nil]
      exact hold
  · simp only [List.map_cons, List.nodup_cons, hknown]
    refine ⟨fun hm => ?_, hr.distinct⟩
    obtain ⟨i, hi, heq⟩ := List.mem_map.mp hm
    obtain ⟨f, hf, -⟩ := hk.known i hi
    have hnew : s.store.func? id = none := ha.new
    rw [← heq, hf] at hnew
    cases hnew

/-- A template gets an instance, which is a function like those without placeholders. -/
theorem makeInstance_kept {d : FuncDef} {args : List Ty} (hk : s.Kept p l) (hr : s.Roster)
    (hd : d.Readable p l s) (hargs : typesProper args) (depth : Nat) :
    Ensures (Refused p l) (makeInstance d args depth) s fun r t => s.Extends t ∧ t.Kept p l ∧
      t.Roster ∧ r.1.Readable p l t ∧ l.free r.1.info.id ∧ t.store.IsConcrete r.2 := by
  obtain ⟨plays, hregular, -⟩ := hd.regular
  have hfresh := d.copy_fresh s.nextId
  have hminted := hregular.minted (g := ⟨l, plays⟩) hd.place hk.fresh
  refine .bind (.modifyGet ?_)
  unfold Minting at hfresh hminted
  generalize d.copy.run s.nextId = made at hfresh hminted ⊢
  obtain ⟨copy, next⟩ := made
  obtain ⟨hinfo, hcopy⟩ := hminted
  obtain ⟨he, hk'⟩ := copied_kept hk d hfresh.1
  change Ensures _ (declareFunction copy Store.globalScope (some args) >>= _)
    (copied s d copy next) _
  have hreadable : copy.Readable p l (copied s d copy next) :=
    ⟨hinfo.place, Plays p (copied s d copy next), hcopy fun r hm =>
      ⟨.function copy, .copy (mem_copied.mpr (.inr ⟨rfl, rfl⟩)), hm⟩, fun _ _ h => h⟩
  have hgiven : ∀ types ∈ some args, typesProper types := by
    rintro _ ⟨⟩
    exact hargs
  refine .bind ((declareFunction_kept hk' hreadable hk'.global hgiven
    (iff_of_true hinfo.free nofun) fun hnone => by cases hnone).imp fun r t _ ht => .bind (.modify (.pure ?_)))
  obtain ⟨hkt, hadds⟩ := ht
  have hconcrete := hadds.concrete hinfo.free
  obtain ⟨het, hkt'⟩ := listed_kept hkt (t.store.instances.push r.2)
    (Array.forall_mem_push.mpr ⟨hconcrete, hkt.instances⟩) (t.store.instanceScopes.push r.1) _
    hkt.lambdas t.store.lambdaScopes
    (⟨d.info.id, args, r.2⟩ :: t.known) (List.forall_mem_cons.mpr ⟨hconcrete, hkt.known⟩)
    (t.active.insert d.info.id (depth + 1))
  exact ⟨(he.trans hadds.extend).trans het, hkt', roster_listed hk hr hadds args _,
    (hreadable.extends hadds.extend).extends het, hinfo.free, hconcrete.grows het.store⟩

end Check

end Frontend
