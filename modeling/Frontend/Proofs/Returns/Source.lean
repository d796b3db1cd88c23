import Frontend.Proofs.Analysis.Source
import Frontend.Proofs.Returns.Body

/-!
# Return types of accepted programs

The first pass gives each function a symbol that its text admits, the second one keeps coherence,
and in the end every function that is analysed is done. So the return types of an accepted program
are coherent.
-/

namespace Frontend

open Check

variable {p : Program} {w : Demand} {scope : ScopeId} {s t : AnalysisState} {n : Nat}

/-! ### Programs whose definitions have their own nodes -/

theorem Program.WellFormed.hasConstant_lt (h : p.WellFormed n) {node : Nat}
    (hnode : p.HasConstant node) : node < n := by
  obtain ⟨c, hc, rfl⟩ := hnode
  exact h.bounded _ (List.mem_flatMap.mpr
    ⟨.constant c, Program.mem_constants.mp hc, (Definition.constant c).info_mem_ids⟩)

/-- A program keeps its constant definitions apart from each other and from the functions and
lambdas in it. -/
structure Program.Separate (p : Program) : Prop where
  unique : ∀ c ∈ p.constants, ∀ c' ∈ p.constants, c.info.id = c'.info.id → c = c'
  constant : ∀ c ∈ p.constants, ∀ env, p.Apart (exprsSites env c.values)
  function : ∀ d ∈ p.functions, d.Apart p

theorem Program.WellFormed.separate (h : p.WellFormed n) : p.Separate where
  unique c hc c' hc' heq := by
    have hdef := h.eq_of_mem_ids (Program.mem_constants.mp hc) (Program.mem_constants.mp hc')
      (Definition.constant c).info_mem_ids
      (show c.info.id ∈ (Definition.constant c').ids from
        heq ▸ (Definition.constant c').info_mem_ids)
    exact Definition.constant.inj hdef
  constant c hc env lam hm node hn := by
    rintro ⟨c', hc', rfl⟩
    have hvalues := exprs_lambda_mem_ids hn c.values hm
    have hc'' := Program.mem_constants.mp hc
    have hdef := h.eq_of_mem_ids hc'' (Program.mem_constants.mp hc')
      (Definition.mem_ids_of_mem_bodyIds (d := .constant c) hvalues)
      (Definition.constant c').info_mem_ids
    cases hdef
    exact Definition.info_not_mem_bodyIds (h.ids_nodup hc'') hvalues
  function d hd node hn := by
    rintro ⟨c, hc, rfl⟩
    have hdef := h.eq_of_mem_ids (Program.mem_functions.mp hd) (Program.mem_constants.mp hc) hn
      (Definition.constant c).info_mem_ids
    cases hdef

/-! ### Constants -/

namespace Check

theorem assignConstant_goes (handle : VarHandle) (type : Ty) (position : Position) :
    Goes p scope [] [] (assignConstant handle type position) := by
  refine .thenPure (.readsOnly (typeOf?_readsOnly handle)) fun known => ?_
  cases known with
  | some expected => exact .stateless (expectType_stateless _ _)
  | none =>
    cases handle with
    | constant index =>
      intro s
      refine .modify ?_
      cases hst : s.store.setConstantType? index type with
      | none => exact .refl s
      | some st =>
        obtain ⟨v, hv, hnone, rfl⟩ := Store.setConstantType?_eq_some hst
        have hvw : v.Grows { v with type := some type } :=
          ⟨rfl, fun h => by rw [hnone] at h; cases h⟩
        exact .of_funcs (.of_store (Store.grows_setConstant hv hvw)) rfl fun _ => rfl
    | _ => exact .pure ()

theorem assignConstants_goes (decls : List ConstDecl) (handles : List VarHandle) (types : List Ty) :
    Goes p scope [] [] (assignConstants decls handles types) := by
  induction decls generalizing handles types with
  | nil => exact .pure ()
  | cons d rest ih =>
    match handles, types with
    | [], _ => exact .pure ()
    | _ :: _, [] => exact .pure ()
    | handle :: handles, type :: types =>
      exact .thenPure (assignConstant_goes handle type _) fun _ => ih handles types

/-- The analysis of a constant definition leaves the lambdas in its values coherent. -/
theorem constants_goes (hp : p.Separate) (hw : w.KeepsCoherence p) {c : ConstDef}
    (hc : c ∈ p.constants) : Goes p scope [] [] (constants w c) := by
  intro s
  have hvalues : ∀ env, Goes p scope (exprsSites env c.values) [] (do
      let handles ← constantHandles c.decls
      let hints ← handles.mapM typeOf?
      let types ← values w Store.globalScope hints c.info.span.start c.values
      assignConstants c.decls handles types) := fun env =>
    Goes.seq (.readsOnly (constantHandles_readsOnly _)) fun handles =>
      Goes.seq (.readsOnly (.mapM typeOf?_readsOnly handles)) fun hints => Goes.thenPure
        (fun s => (values_goes (fun e _ => (keepsCoherence hw).onExprs e) hints env s).imp
          fun _ _ _ h => h.anywhere scope) fun types => assignConstants_goes _ _ _
  have hnode : p.HasConstant c.info.id := ⟨c, hc, rfl⟩
  refine analysing_ensures_marked hw.visit c.info.id ((Ensures.all fun env => hvalues env _).imp
    fun _ t _ hleaves => ?_)
  have hgrowth := (hleaves []).growth
  refine .of_coherence (((Growth.mark s _ _).trans hgrowth).trans (.mark t _ _)) fun hr hcoh => ?_
  have hmet := fun env => (hleaves env).coherent hr (hcoh.begin (.inl hnode))
    (hp.constant c hc env) 0 nofun
  refine (hmet []).1.finish (.inl hnode) (fun hf hd heq => ?_) fun c' hc' heq env => ?_
  · exact absurd hnode ((hmet []).1.apart hf hd _ (heq ▸ (Definition.function _).info_mem_ids))
  · rw [hp.unique c' hc' c hc heq]
    exact (hmet env).2.1

/-! ### The first pass -/

theorem registerFunction_goes {d : FuncDef} (hd : d.Apart p) :
    Goes p scope [] [] (registerFunction d) := by
  intro s
  refine .bind ((declareFunction_introduces (p := p) d _ _).imp fun r t _ hintro => ?_)
  have hleaves : Leaves p scope [] [] s t :=
    .of_coherence hintro.growth fun hr hc => (hintro.coherent hr hc hd).1
  refine .bind (.store ?_)
  split
  · next st hst =>
    rw [definedFunction hst]
    exact .setStore (hleaves.trans (.of_funcs (.of_store ⟨fun hf => ⟨_, hf, .refl _⟩,
      fun ha => ⟨_, ha, .refl _⟩, fun hv => ⟨_, hv, .refl _⟩⟩) rfl fun _ => rfl))
  · exact .bind ((func_readsOnly _ t).imp_both (fun _ _ _ => trivial) fun _ _ _ => .fail trivial)

theorem registerConstant_goes (d : ConstDecl) : Goes p scope [] [] (registerConstant d) := by
  refine .thenPure (.stateless (denoted?_stateless _)) fun type s => .bind (.store ?_)
  unfold Store.defineConstant
  split
  · next handle st hst =>
    split at hst
    · cases hst
    · cases hst
      have hgrows : s.store.Grows { s.store with
          constants := s.store.constants.push ⟨d.name, type, false⟩ } :=
        ⟨fun hf => ⟨_, hf, .refl _⟩, fun ha => ⟨_, ha, .refl _⟩, fun {i v} hv => by
          refine ⟨v, ?_, .refl v⟩
          rw [Array.getElem?_push, if_neg (Nat.ne_of_lt (Array.getElem?_eq_some_iff.mp hv).1)]
          exact hv⟩
      have hlink : ∀ target, Goes p scope [] [] (link d.info.id target) := link_goes d.info.id
      refine .bind (.setStore ((hlink _ _).imp fun _ t _ h => ?_))
      exact (Leaves.of_funcs (.of_store hgrows) rfl fun _ => rfl).trans h
  · exact .fail trivial

/-- One action after another. -/
theorem forM_goes {α : Type} {as : List α} {f : α → Check Unit}
    (h : ∀ a ∈ as, Goes p scope [] [] (f a)) : Goes p scope [] [] (as.forM f) := by
  induction as with
  | nil => exact .pure ()
  | cons a rest ih =>
    rw [List.forall_mem_cons] at h
    exact .thenPure h.1 fun _ => ih h.2

theorem registerDefinition_goes (hp : p.Separate) {d : Definition} (hd : d ∈ p.definitions) :
    Goes p scope [] [] (registerDefinition d) := by
  cases d with
  | function d => exact registerFunction_goes (hp.function d (Program.mem_functions.mpr hd))
  | constant d => exact forM_goes fun c _ => registerConstant_goes c

/-- Before anything of the program is declared, there is nothing to keep. -/
theorem coherence_of_bare (hp : p.WellFormed n) {st : Store} (hst : st.Bare) :
    Coherence p { AnalysisState.initial n with store := st } := by
  have hdecl : ∀ {id f d}, st.func? id = some f → f.decl ≠ some d := fun hf => by
    rw [(hst.builtin hf).2.1]
    nofun
  exact
    { linked := fun hf hd => absurd hd (hdecl hf)
      kind := fun hf hd => absurd hd (hdecl hf)
      admits := fun hf hd => absurd hd (hdecl hf)
      apart := fun hf hd => absurd hd (hdecl hf)
      bounded := hp.hasConstant_lt
      marked := fun hn => absurd rfl hn
      functions := fun hf hd => absurd hd (hdecl hf)
      constants := fun _ _ hdone => nomatch hdone }

theorem register_ensures_coherence (builtins : Bool) (hp : p.WellFormed n) :
    Ensures (fun _ _ => True) (register builtins p) (.initial n) fun _ t =>
      t.refused = [] → Coherence p t := by
  have hinitial : Coherence p
      (if builtins then { AnalysisState.initial n with store := Store.empty.registerBuiltins }
        else AnalysisState.initial n) := by
    cases builtins with
    | false => exact coherence_of_bare hp Store.empty_bare
    | true => exact coherence_of_bare hp Store.empty_bare.registerBuiltins
  have hdefinitions : Goes p Store.globalScope [] [] (p.definitions.forM registerDefinition) :=
    forM_goes fun d hd => registerDefinition_goes hp.separate hd
  refine .bind (.modify ((hdefinitions _).imp fun _ t _ h hr => ?_))
  exact (h.coherent hr hinitial Program.apart_nil 0 nofun).1

end Check

/-! ### The second pass -/

/-- Demands keep coherence at every depth. -/
theorem demandAt_keepsCoherence (hp : p.Separate) {observe : Observer}
    (ho : ∀ stack v, ReadsOnly (observe stack v)) (depth : Nat) (stack : List Nat) :
    (demandAt p observe depth stack).KeepsCoherence p := by
  induction depth generalizing stack with
  | zero =>
    exact
      { visit := ho stack
        definitionOf := fun h => Program.mem_constants.mpr (Program.constantNamed?_mem h)
        constant := fun _ _ => .throw _
        function := fun _ _ => .fault trivial }
  | succ depth ih =>
    exact
      { visit := ho stack
        definitionOf := fun h => Program.mem_constants.mpr (Program.constantNamed?_mem h)
        constant := fun {c} hc _ => constants_goes hp (ih (c.info.id :: stack)) hc
        function := fun d s => ((keepsCoherence (ih (d.info.id :: stack))).onFunctions d s).imp
          fun _ _ _ h => ⟨h.1, fun hr hc hd => (h.2 hr hc hd).1⟩ }

namespace Check

/-- A function is analysed in its turn. -/
theorem functionBodies_ensures_coherence (hw : w.KeepsCoherence p) (ds : List FuncDef) :
    Ensures (fun _ _ => True)
      (ds.forM fun d => if d.isTemplate then pure () else unlessBegun d.info.id (w.function d)) s
      fun _ t => Growth s t ∧
        (t.refused = [] → Coherence p s → (∀ d ∈ ds, s.Declared d) → Coherence p t) := by
  induction ds generalizing s with
  | nil => exact .pure ⟨.refl s, fun _ hc _ => hc⟩
  | cons d rest ih =>
    have hfirst : Ensures (fun _ _ => True)
        (if d.isTemplate then pure () else unlessBegun d.info.id (w.function d)) s fun _ t =>
          Growth s t ∧ (t.refused = [] → Coherence p s → s.Declared d → Coherence p t) := by
      split
      · exact .pure ⟨.refl s, fun _ hc _ => hc⟩
      · refine .bind ((progress?_readsOnly d.info.id s).imp_both (fun _ _ _ => trivial)
          fun progress t heq => ?_)
        subst heq
        split
        · exact hw.function d t
        · exact .pure ⟨.refl t, fun _ hc _ => hc⟩
    refine .bind (hfirst.imp fun _ t _ h => (ih (s := t)).imp fun _ u _ h' => ?_)
    refine ⟨h.1.trans h'.1, fun hr hc hd => ?_⟩
    rw [List.forall_mem_cons] at hd
    exact h'.2 hr (h.2 (h'.1.refused hr) hc hd.1) fun e he => h.1.declared (hd.2 e he)

/-- A run over a program that is accepted ends in a coherent state. -/
theorem program_ensures_coherence (builtins : Bool) {observe : Observer}
    (ho : ∀ stack v, ReadsOnly (observe stack v)) (hp : p.WellFormed n) :
    Ensures (fun _ _ => True) (program builtins observe p) (.initial n) fun _ t =>
      t.refused = [] → Coherence p t := by
  have hw := demandAt_keepsCoherence hp.separate ho (p.demandBound + 1) []
  refine .bind (((register_ensures_coherence builtins hp).and (register_ensures builtins hp)).imp
    fun _ s _ h => ?_)
  obtain ⟨hcoherence, hreg⟩ := h
  have hdeclared : ∀ d ∈ p.functions, s.Declared d := fun d hd => by
    have hdefined : Defined p s (.function d) := .program (Program.mem_functions.mp hd)
    obtain ⟨id, f, -, hf, hdecl, -, -⟩ := hreg.inv.homed hdefined
    exact ⟨id, f, hf, hdecl⟩
  have hconstants : Goes p Store.globalScope [] [] (p.constants.forM fun d =>
      unlessBegun d.info.id ((demandAt p observe (p.demandBound + 1) []).constant d)) :=
    forM_goes fun c hc => .thenPure (.readsOnly (progress?_readsOnly _)) fun progress => by
      split
      · exact hw.constant hc Store.globalScope
      · exact .pure ()
  refine .bind ((hconstants s).imp fun _ t _ hfirst => ?_)
  refine (functionBodies_ensures_coherence hw p.functions).imp fun _ u _ hsecond hr => ?_
  have hr' := hsecond.1.refused hr
  have hc := hcoherence (hfirst.growth.refused hr')
  exact hsecond.2 hr (hfirst.coherent hr' hc Program.apart_nil 0 nofun).1
    fun d hd => hfirst.growth.declared (hdeclared d hd)

end Check

/-! ### Accepted programs -/

/-- The functions that are analysed: those of the program that are no templates, the instances of
templates, and the lambdas in analysed code. -/
inductive AnalysedFunction (p : Program) (s : AnalysisState) (d : FuncDef) : Prop
  | code (h : AnalysedCode p s (.function d))
  | lambda {e : Definition} (h : AnalysedCode p s e) (hm : .lambda d ∈ e.sites p)

/-- In a completed analysis, the symbol that the scope of an analysed function leads to is coherent
with its text. -/
theorem Completed.coherent (h : Completed p s) (hc : Coherence p s) {d : FuncDef}
    (hd : AnalysedFunction p s d) :
    ∃ scope id f, s.scopes[d.info.id]? = some scope ∧ s.store.scopeFuncId? scope = some id ∧
      s.store.func? id = some f ∧ f.decl = some d ∧ d.Coherent s f := by
  have hconcluded : s.Concluded d := by
    cases hd with
    | code hd =>
      obtain ⟨id, f, -, hf, hdecl, -, -⟩ := h.inv.homed hd.defined
      exact ⟨id, f, hf, hdecl, (hc.functions hf hdecl (h.done hd)).1⟩
    | @lambda e he hm =>
      cases e with
      | function e =>
        obtain ⟨id, f, -, hf, hdecl, -, -⟩ := h.inv.homed he.defined
        exact (hc.functions hf hdecl (h.done he)).2 _ d hm
      | constant c =>
        have hm' : .lambda d ∈ exprsSites [p.layer] c.values := by
          simpa [Definition.sites] using hm
        cases he with
        | constant hp =>
          exact hc.constants c (Program.mem_constants.mpr hp) (h.done (.constant hp)) _ d hm'
  obtain ⟨id, f, hf, hdecl, hcoherent⟩ := hconcluded
  obtain ⟨scope, hscope, hid⟩ := hc.linked hf hdecl
  exact ⟨scope, id, f, hscope, hid, hf, hdecl, hcoherent⟩

/-- In a source text that is accepted, the return type of each function that is no template, of each
instance of a template and of each lambda is the declared one, or else the type of its first return
statement, or else unit; all its return statements return values of this type. A procedure has no
return type, and its return statements have the type unit. -/
theorem analyzeSource_returns {source file : String} {builtins : Bool} {firstId : Nat}
    {a : Analysis} (h : analyzeSource source file builtins firstId = .ok a) {d : FuncDef}
    (hd : AnalysedFunction a.program a.state d) :
    ∃ scope id f, a.state.scopes[d.info.id]? = some scope ∧
      a.state.store.scopeFuncId? scope = some id ∧ a.state.store.func? id = some f ∧
        f.decl = some d ∧ d.Coherent a.state f := by
  obtain ⟨tokens, nextId, hparse, hrun⟩ := analyzeSource_eq_ok h
  have hcompleted := analyzeSource_completed h
  exact hcompleted.coherent ((program_ensures_coherence builtins (fun _ _ => .pure ())
    (Program.parse_wellFormed hparse)).of_ok hrun hcompleted.inv.refused) hd

/-- Whether a site is that of a lambda with several return statements. -/
def Site.isReturningLambda : Site → Bool
  | .lambda d => 1 < d.returns.length
  | _ => false

/-- A lambda that returns from two places. -/
theorem analyzeSource_returns_lambda :
    ∃ a d id f, analyzeSource "const pick = -> b: bool { return 1 if b; return 2; };" "main" false 0
        = .ok a ∧ 1 < d.returns.length ∧ a.state.store.func? id = some f ∧
      f.decl = some d ∧ d.Coherent a.state f := by
  have hrun : ((analyzeSource "const pick = -> b: bool { return 1 if b; return 2; };" "main" false
      0).toOption.any fun a => a.program.definitions.any fun d =>
        d.isAnalysed && (d.sites a.program).any Site.isReturningLambda) = true := by decide +kernel
  obtain ⟨a, e, site, ha, he, hm, hsite⟩ := exists_site (fun _ => Site.isReturningLambda) hrun
  cases site with
  | lambda d =>
    obtain ⟨_, id, f, -, -, hf, hdecl, hcoherent⟩ := analyzeSource_returns ha (.lambda he hm)
    exact ⟨a, d, id, f, ha, of_decide_eq_true hsite, hf, hdecl, hcoherent⟩
  | _ => cases hsite

end Frontend
