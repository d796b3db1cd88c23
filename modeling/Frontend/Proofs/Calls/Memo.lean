import Frontend.Proofs.Calls.Target
import Frontend.Proofs.Types.Moments

/-!
# The memo of instances

An instance of a template is made once for each list of argument types. It is recorded in the list
of instances, with its scope in a second list, and the copy of the template that declares it in a
list of the template. At every moment of a run these lists describe the same instances
(`AnalysisState.Memoised`), and in the end two calls of templates stand for one instance just when
template and argument types are the same (`analysis_memoised`).
-/

namespace Frontend

open Check

/-- The types of the parameters that a function was declared with. -/
def AnalysisState.paramTypes? (s : AnalysisState) (d : FuncDef) : Option (List Ty) :=
  s.scopes[d.info.id]?.bind fun scope => (s.store.scopeFunc? scope).map FuncSymbol.paramTypes

/-- The lists of instances, of their scopes and of the copies of templates describe the same
instances, one for each template and list of parameter types. -/
structure AnalysisState.Memoised (p : Program) (s : AnalysisState) : Prop where
  /-- The copies of a template differ in the types of their parameters. -/
  distinct : ∀ k, ∃ types : List (List Ty), types.Nodup ∧
    (s.copies.getD k #[]).toList.map s.paramTypes? = types.map some
  /-- The `i`-th instance is the symbol of the `i`-th instance scope. -/
  scopes : List.Forall₂ (fun scope id => s.store.scopeFuncId? scope = some id)
    s.store.instanceScopes.toList s.store.instances.toList
  /-- No instance is listed twice. -/
  nodup : s.store.instances.toList.Nodup
  /-- The definition that declares an instance is a copy of just one template. -/
  listed : ∀ id ∈ s.store.instances, ∃ copy, s.store.IsSymbolOf id copy ∧
    ∃! k, copy ∈ s.copies.getD k #[]
  /-- A copy is that of a template, and declares just one instance. -/
  copied : ∀ k, ∀ copy ∈ s.copies.getD k #[],
    (∃ template ∈ p.functions, template.isTemplate = true ∧ template.info.id = k) ∧
      ∃! id, id ∈ s.store.instances ∧ s.store.IsSymbolOf id copy
  /-- No parameter of an instance is a placeholder. -/
  concrete : ∀ id ∈ s.store.instances, ∃ f, s.store.func? id = some f ∧
    ∀ v ∈ f.params, v.isTemplate = false

/-- A call in analysed code for which overload selection picks a template, given the types of the
arguments, and which is linked to the function `id`. -/
structure TemplateCall (p : Program) (s : AnalysisState) (e : Expr) (template : FuncDef)
    (types : List Ty) (id : FuncId) : Prop where
  code : ∃ d, AnalysedCode p s d ∧ .expr e ∈ d.sites p
  isCall : e.isCall = true
  picked : ∃ name args c candidate score, e.named? = some (name, args) ∧ s.HaveTypes args types ∧
    Overload.select s.store.globalFuncs name types = some ((c, candidate), score) ∧
      candidate.isTemplate = true ∧ candidate.isBuiltin = false ∧ candidate.decl = some template
  linked : s.links[e.id]? = some (.func id)

variable {p : Program} {l : Terrain} {s : AnalysisState} {id id' : FuncId}

/-! ### What is recorded of an instance -/

/-- The scope of a declared function knows the types of its parameters. -/
theorem Inv.paramTypes? (hi : Inv p s) {f : FuncSymbol} {d : FuncDef}
    (hf : s.store.func? id = some f) (hd : f.decl = some d) :
    s.paramTypes? d = some f.paramTypes := by
  obtain ⟨scope, hdeclares⟩ := hi.declared hf hd
  have hscope : s.scopes[d.info.id]? = some scope := hdeclares.layer.owner rfl
  have hfunc : s.store.scopeFunc? scope = some f := by
    rw [Store.scopeFunc?, hdeclares.func]
    exact hf
  rw [AnalysisState.paramTypes?, hscope, Option.bind_some, hfunc, Option.map_some]

/-- The copy that declares a recorded instance has the parameter types that it is recorded for. -/
theorem Inv.args_of_isSymbolOf (hi : Inv p s) {i : Instance} (hm : i ∈ s.known) {copy : FuncDef}
    (hcopy : s.store.IsSymbolOf i.func copy) : s.paramTypes? copy = some i.args := by
  obtain ⟨f, _, _, hinst⟩ := hi.known hm
  obtain ⟨g, hg, hdecl⟩ := hcopy
  cases hg.symm.trans hinst.func
  rw [hi.paramTypes? hg hdecl, hinst.types]

/-- The copies of a template have the parameter types that its instances are recorded for. -/
theorem AnalysisState.Roster.copies_types (hr : s.Roster) (hi : Inv p s) (k : Nat) :
    (s.copies.getD k #[]).toList.map s.paramTypes? =
      ((s.known.reverse.filter (·.template == k)).map (·.args)).map some := by
  have hsymbols := hr.copies k
  have hknown : ∀ i ∈ s.known.reverse.filter (·.template == k), i ∈ s.known := fun i hm =>
    List.mem_reverse.mp (List.mem_of_mem_filter hm)
  generalize s.known.reverse.filter (·.template == k) = recorded at hsymbols hknown
  generalize (s.copies.getD k #[]).toList = copies at hsymbols
  induction hsymbols with
  | nil => rfl
  | cons hsymbol _ ih =>
    rw [List.forall_mem_cons] at hknown
    rw [List.map_cons, List.map_cons, List.map_cons, ih hknown.2,
      hi.args_of_isSymbolOf hknown.1 hsymbol]

/-- Instances are recorded once for each template and list of argument types. -/
theorem AnalysisState.Roster.nodup_args (hr : s.Roster) (hi : Inv p s) (k : Nat) :
    ((s.known.reverse.filter (·.template == k)).map (·.args)).Nodup := by
  have hknown : s.known.Nodup := .of_map _ hr.distinct
  refine ((List.nodup_reverse.mpr hknown).filter _).map_on fun i him j hjm hargs => ?_
  obtain ⟨hi', hik⟩ := List.mem_filter.mp him
  obtain ⟨hj', hjk⟩ := List.mem_filter.mp hjm
  exact hi.unique (List.mem_reverse.mp hi') (List.mem_reverse.mp hj')
    ((eq_of_beq hik).trans (eq_of_beq hjk).symm) hargs

/-- An instance is recorded once. -/
theorem AnalysisState.Roster.eq_of_func (hr : s.Roster) {i j : Instance} (hi : i ∈ s.known)
    (hj : j ∈ s.known) (h : i.func = j.func) : i = j :=
  List.inj_on_of_nodup_map hr.distinct hi hj h

theorem AnalysisState.Roster.mem_instances (hr : s.Roster) :
    id ∈ s.store.instances ↔ ∃ i ∈ s.known, i.func = id := by
  rw [← Array.mem_toList_iff, hr.instances, List.mem_map]
  simp only [List.mem_reverse]

/-! ### The lists describe the same instances -/

theorem memoised_of_roster (hi : Inv p s) (hr : s.Roster) (hk : s.Kept p l) : s.Memoised p where
  distinct k := ⟨_, hr.nodup_args hi k, hr.copies_types hi k⟩
  scopes := hr.scopes
  nodup := by
    rw [hr.instances, List.map_reverse, List.nodup_reverse]
    exact hr.distinct
  listed id hid := by
    obtain ⟨i, him, rfl⟩ := hr.mem_instances.mp hid
    obtain ⟨f, copy, template, hinst⟩ := hi.known him
    refine ⟨copy, ⟨f, hinst.func, hinst.decl⟩, template.info.id, hinst.copied, fun k hcopy => ?_⟩
    obtain ⟨j, hjm, g, _, rfl, hinst'⟩ := hi.copied hcopy
    have hfunc := hi.id_eq_of_decl hinst'.func hinst'.decl hinst.func hinst.decl
    rw [hr.eq_of_func hjm him hfunc]
    exact hinst.key
  copied k copy hcopy := by
    obtain ⟨i, him, f, template, rfl, hinst⟩ := hi.copied hcopy
    refine ⟨⟨template, Program.mem_functions.mpr hinst.source, hinst.isTemplate, hinst.key.symm⟩,
      i.func, ⟨hr.mem_instances.mpr ⟨i, him, rfl⟩, f, hinst.func, hinst.decl⟩, ?_⟩
    rintro id ⟨-, g, hg, hdecl⟩
    exact hi.id_eq_of_decl hg hdecl hinst.func hinst.decl
  concrete id hid := by
    obtain ⟨f, hf, hconcrete⟩ := hk.instances id hid
    exact ⟨f, hf, fun v hv => by simpa using List.any_eq_false.mp hconcrete v hv⟩

/-! ### Calls of templates -/

theorem AnalysisState.HaveTypes.unique {es : List Expr} {types types' : List Ty}
    (h : s.HaveTypes es types) (h' : s.HaveTypes es types') : types = types' := by
  have hunique : Relator.RightUnique fun (e : Expr) (type : Ty) => s.types[e.id]? = some type :=
    fun _ _ _ ht ht' => Option.some.inj (ht.symm.trans ht')
  exact hunique.forall₂ h h'

/-- A call of a template is recorded as an instance for its argument types. -/
theorem TemplateCall.recorded {e : Expr} {template : FuncDef} {types : List Ty}
    (h : TemplateCall p s e template types id) (hc : Completed p s) :
    ⟨template.info.id, types, id⟩ ∈ s.known ∧ .function template ∈ p.definitions := by
  obtain ⟨d, hd, he⟩ := h.code
  obtain ⟨type, _, hrule⟩ := hc.resolved hd he
  obtain ⟨name, args, types', hnamed, htypes, hchosen, -⟩ := hrule.call_of_link h.isCall h.linked
  obtain ⟨name', args', c, candidate, score, hnamed', htypes', hselect, ht, hb, hdecl⟩ := h.picked
  cases hnamed.symm.trans hnamed'
  have heq : types' = types := htypes.unique htypes'
  subst heq
  have hmem : .function template ∈ p.definitions := by
    obtain ⟨hm, -, -⟩ := Overload.select_eq_some hselect
    obtain ⟨hfunc, hglobal⟩ := hc.inv.globalFuncs hm
    exact hglobal.mem_definitions hc.inv hfunc hdecl
  refine ⟨?_, hmem⟩
  cases hchosen with
  | plain hselect' hplain =>
    cases hselect.symm.trans hselect'
    rw [ht, hb] at hplain
    cases hplain
  | made hselect' _ hdecl' hknown =>
    cases hselect.symm.trans hselect'
    cases hdecl.symm.trans hdecl'
    exact hknown

/-- Two calls of templates stand for the same instance just when template and argument types are
the same. -/
theorem TemplateCall.eq_iff {e e' : Expr} {template template' : FuncDef} {types types' : List Ty}
    (h : TemplateCall p s e template types id) (h' : TemplateCall p s e' template' types' id')
    (hc : Completed p s) (hr : s.Roster) :
    id = id' ↔ template = template' ∧ types = types' := by
  obtain ⟨hknown, hmem⟩ := h.recorded hc
  obtain ⟨hknown', hmem'⟩ := h'.recorded hc
  constructor
  · intro hid
    have heq := hr.eq_of_func hknown hknown' hid
    obtain ⟨hkey, htypes, -⟩ := Instance.mk.inj heq
    exact ⟨hc.inv.eq_of_id_eq hmem hmem' hkey, htypes⟩
  · rintro ⟨rfl, rfl⟩
    exact congrArg Instance.func (hc.inv.unique hknown hknown' rfl rfl)

theorem TemplateCall.mem_instances {e : Expr} {template : FuncDef} {types : List Ty}
    (h : TemplateCall p s e template types id) (hc : Completed p s) (hr : s.Roster) :
    id ∈ s.store.instances :=
  hr.mem_instances.mpr ⟨_, (h.recorded hc).1, rfl⟩

/-- A call that is linked to an instance is the call of a template. -/
theorem TemplateCall.of_link (hc : Completed p s) (hr : s.Roster) {d : Definition}
    (hd : AnalysedCode p s d) {e : Expr} (he : .expr e ∈ d.sites p) (hcall : e.isCall = true)
    (hl : s.links[e.id]? = some (.func id)) (hid : id ∈ s.store.instances) :
    ∃ template types, TemplateCall p s e template types id := by
  obtain ⟨type, _, hrule⟩ := hc.resolved hd he
  obtain ⟨name, args, types, hnamed, htypes, hchosen, -⟩ := hrule.call_of_link hcall hl
  cases hchosen with
  | plain hselect _ =>
    -- What is selected as it is belongs to the program, which holds no copy.
    obtain ⟨i, him, rfl⟩ := hr.mem_instances.mp hid
    obtain ⟨_, copy, _, hinst⟩ := hc.inv.known him
    obtain ⟨hfunc, hglobal⟩ := hc.inv.globalFuncs (Overload.select_eq_some hselect).1
    cases hfunc.symm.trans hinst.func
    exact absurd (hglobal.mem_definitions hc.inv hfunc hinst.decl) hinst.foreign
  | made hselect htemplate hdecl _ =>
    obtain ⟨ht, hb⟩ := Bool.and_eq_true_iff.mp htemplate
    exact ⟨_, types, ⟨d, hd, he⟩, hcall, ⟨name, args, _, _, _, hnamed, htypes, hselect, ht,
      by simpa using hb, hdecl⟩, hl⟩

/-- At each moment of the analysis of a program that is read from tokens, the lists of instances,
of their scopes and of the copies of templates describe the same instances, one for each template
and list of parameter types. In a program that is accepted, two calls of templates are linked to
the same instance just when the templates and the types of the arguments are the same. -/
theorem analysis_memoised {tokens : List Token} {file : String} {firstId nextId : Nat}
    (builtins : Bool) (h : Program.parse tokens file firstId = .ok (p, nextId)) :
    (∃ log : List Moment,
      Passes (fun look => Check.program builtins (.looking look) p) (.initial nextId) log ∧
      ∀ m ∈ log, m.state.Memoised p) ∧
    ∀ t, Check.program builtins .silent p (.initial nextId) = .ok () t → t.Memoised p ∧
      ∀ e e' template template' types types' id id', TemplateCall p t e template types id →
        TemplateCall p t e' template' types' id' →
          id ∈ t.store.instances ∧ (id = id' ↔ template = template' ∧ types = types') := by
  have hp := Program.parse_wellFormed h
  have hregular := Program.parse_regular_terrain h
  have hfresh : ∀ node, nextId ≤ node → p.Free node := fun _ => hp.free_of_le
  constructor
  · obtain ⟨log, hpass, -⟩ := program_logged builtins p (.initial nextId)
    refine ⟨log, hpass, fun m hm => ?_⟩
    have hkept := kept_of_passes hregular hfresh (Program.parse_numbered h) hpass m hm
    exact memoised_of_roster (inv_of_passes hp hpass m hm) hkept.roster hkept.state
  · intro t hrun
    have hcompleted : Completed p t :=
      (program_ensures builtins Observer.silent_passive hp).of_ok hrun
    obtain ⟨hkept, hroster⟩ := (program_keepsTypes hregular hfresh (Program.parse_numbered h)
      Observer.silent_accepting builtins).of_ok hrun
    exact ⟨memoised_of_roster hcompleted.inv hroster hkept, fun _ _ _ _ _ _ _ _ hcall hcall' =>
      ⟨hcall.mem_instances hcompleted hroster, hcall.eq_iff hcall' hcompleted hroster⟩⟩

/-- Whether a program has a call that is linked to an instance. -/
def Analysis.hasCallTo (a : Analysis) (id : FuncId) : Bool :=
  a.state.store.instances.contains id && a.program.definitions.any fun d =>
    d.isAnalysed && (d.sites a.program).any (Site.isCallTo id a.state)

theorem Analysis.exists_of_hasCallTo {a : Analysis} (h : a.hasCallTo id = true) :
    id ∈ a.state.store.instances ∧ ∃ d e, AnalysedCode a.program a.state d ∧
      .expr e ∈ d.sites a.program ∧ e.isCall = true ∧ a.state.links[e.id]? = some (.func id) := by
  obtain ⟨hid, hsome⟩ := Bool.and_eq_true_iff.mp h
  obtain ⟨d, hd, htest⟩ := List.any_eq_true.mp hsome
  obtain ⟨hanalysed, hsites⟩ := Bool.and_eq_true_iff.mp htest
  obtain ⟨site, hm, hsite⟩ := List.any_eq_true.mp hsites
  refine ⟨by simpa using hid, ?_⟩
  cases site with
  | expr e =>
    obtain ⟨hcall, hl⟩ := Bool.and_eq_true_iff.mp hsite
    exact ⟨d, e, .of_mem hd hanalysed, hm, hcall, eq_of_beq hl⟩
  | _ => cases hsite

/-- A template that is called for numbers and for texts. -/
theorem analysis_memoised_same :
    ∃ (tokens : List Token) (p : Program) (nextId : Nat) (t : AnalysisState) (e e' : Expr)
      (template template' : FuncDef) (types types' : List Ty) (id id' : FuncId),
      Program.parse tokens "main" 0 = .ok (p, nextId) ∧
      (∃ log : List Moment,
        Passes (fun look => Check.program false (.looking look) p) (.initial nextId) log ∧
        ∀ m ∈ log, m.state.Memoised p) ∧
      Check.program false .silent p (.initial nextId) = .ok () t ∧ t.Memoised p ∧
      TemplateCall p t e template types id ∧ TemplateCall p t e' template' types' id' ∧
      id ∈ t.store.instances ∧ id ≠ id' ∧ ¬ (template = template' ∧ types = types') := by
  have hrun : ((analyzeSource "func same(x) { return x; } const a = same(1); const b = same(\"\");"
      "main" false 0).toOption.any fun a => a.hasCallTo 1 && a.hasCallTo 2) = true := by
    decide +kernel
  cases hsource : analyzeSource
      "func same(x) { return x; } const a = same(1); const b = same(\"\");" "main" false 0 with
  | error e =>
    rw [hsource] at hrun
    cases hrun
  | ok a =>
    rw [hsource] at hrun
    obtain ⟨hfirst, hsecond⟩ := Bool.and_eq_true_iff.mp hrun
    obtain ⟨tokens, nextId, hparse, hend⟩ := analyzeSource_eq_ok hsource
    have hcompleted := analyzeSource_completed hsource
    have hroster := ((program_keepsTypes (Program.parse_regular_terrain hparse)
      (fun _ => (Program.parse_wellFormed hparse).free_of_le) (Program.parse_numbered hparse)
        Observer.silent_accepting false).of_ok hend).2
    obtain ⟨hid, d, e, hd, he, hcall, hl⟩ := Analysis.exists_of_hasCallTo hfirst
    obtain ⟨hid', d', e', hd', he', hcall', hl'⟩ := Analysis.exists_of_hasCallTo hsecond
    obtain ⟨template, types, hpicks⟩ := TemplateCall.of_link hcompleted hroster hd he hcall hl hid
    obtain ⟨template', types', hpicks'⟩ :=
      TemplateCall.of_link hcompleted hroster hd' he' hcall' hl' hid'
    obtain ⟨hmoments, hfinal⟩ := analysis_memoised false hparse
    obtain ⟨hmemoised, hsame⟩ := hfinal _ hend
    obtain ⟨hmem, hiff⟩ := hsame _ _ _ _ _ _ _ _ hpicks hpicks'
    exact ⟨tokens, a.program, nextId, a.state, e, e', template, template', types, types', 1, 2,
      hparse, hmoments, hend, hmemoised, hpicks, hpicks', hmem, by decide,
      fun heq => absurd (hiff.mpr heq) (by decide)⟩

end Frontend
