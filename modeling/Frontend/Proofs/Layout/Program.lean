import Frontend.Proofs.Analysis.Observation
import Frontend.Proofs.Analysis.Registration
import Frontend.Proofs.Layout.Body

/-!
# Plans of whole programs

The first pass opens the scopes of functions and no others, each in the global scope. The second one
carries out definitions: each that is begun belongs to the text of one that is carried out as a
whole, and so does each block and each variable in a block.
-/

namespace Frontend

open Check

variable {p : Program} {w : Demand} {home : Option Nat} {cur : ScopeId} {s t : AnalysisState}
  {n : Nat}

/-! ### The first pass -/

/-- There are no scopes but the global one and those of functions, and all functions with a
declaration are definitions of the program. -/
structure Outlined (p : Program) (s : AnalysisState) : Prop extends s.Housed where
  root : ∃ a, s.store.scopes[Store.globalScope]? = some a
  plain : ∀ {id : ScopeId} {a : Scope}, s.store.scopes[id]? = some a →
    a.blocks.toList = [] ∧ a.body.isBlock = false
  symbols : ∀ {id : FuncId} {f : FuncSymbol} {d : FuncDef}, s.store.func? id = some f →
    f.decl = some d → .function d ∈ p.definitions

/-- An action keeps the outlines of a program. -/
def Outlines (p : Program) (act : Check Unit) : Prop :=
  ∀ s, Ensures (fun _ _ => True) act s fun _ t => Continues s t ∧
    (t.refused = [] → Outlined p s → Outlined p t)

namespace Outlined

theorem isBlock_eq_false (h : Outlined p s) (c : ScopeId) : s.store.isBlock c = false := by
  rw [← Bool.not_eq_true]
  intro hc
  obtain ⟨vars, outer, blocks, ha⟩ := Store.exists_of_isBlock hc
  cases (h.plain ha).2

theorem varCount_eq_zero (h : Outlined p s) (c : ScopeId) : s.store.varCount c = 0 := by
  unfold Store.varCount
  split
  · next ha => exact absurd (h.plain ha).2 nofun
  · rfl

theorem still (h : Outlined p s) (h' : Still s t) : Outlined p t where
  toHoused := h.toHoused.carry h'.toContinues h'.nodes
  root := by
    rw [h'.scopes]
    exact h.root
  plain ha := by
    rw [h'.scopes] at ha
    exact h.plain ha
  symbols hg hd := by
    obtain ⟨f, hf, hfg⟩ := h'.symbols hg
    exact h.symbols hf (hfg.trans hd)

theorem founds (h : Outlined p s) {d : FuncDef} (h' : Founds d Store.globalScope s t)
    (hr : t.refused = []) (hd : .function d ∈ p.definitions) : Outlined p t := by
  obtain ⟨a, hroot⟩ := h.root
  obtain ⟨f, hin⟩ := h'.opens hroot
  refine ⟨h.toHoused.opens h'.continues hin (h'.nodes hr), ?_, fun {id b} hb => ?_,
    fun {id g e} hg he => ?_⟩
  · obtain ⟨b, hb, -⟩ := hin.old hroot
    exact ⟨b, hb⟩
  · rcases hin.back hb with rfl | ⟨b', hb'⟩
    · rw [hin.opened] at hb
      cases hb
      exact ⟨rfl, rfl⟩
    · obtain ⟨c, hc, hbody, -⟩ := hin.old hb'
      rw [hb] at hc
      cases hc
      rw [hin.blocks hb' hb, hbody, (h.plain hb').1, if_neg fun h => Bool.false_ne_true h.2]
      exact ⟨rfl, (h.plain hb').2⟩
  · rcases h'.symbols hg with hdecl | ⟨f, hf, hfg⟩
    · cases hdecl.symm.trans he
      exact hd
    · exact h.symbols hf (hfg.trans he)

/-- Behind the first pass, the scopes are arranged. -/
theorem arranged (h : Outlined p s) (hi : Inv p s) : Arranged p s where
  toHoused := h.toHoused
  tidy :=
    { root := h.root
      outer := hi.outer
      sorted := fun ha => by
        rw [(h.plain ha).1]
        exact List.Pairwise.nil
      filed := fun {id c a} ha => by
        rw [(h.plain ha).1, h.isBlock_eq_false c]
        exact ⟨fun hm => absurd hm List.not_mem_nil, fun hm => absurd hm.1 Bool.false_ne_true⟩
      distinct := fun ha => absurd (h.plain ha).2 nofun }
  waiting hf hd _ := .program (h.symbols hf hd)
  homed {d} hd := by
    obtain ⟨id, f, scope, -, -, hdeclares, hchain⟩ := hi.homed hd
    obtain ⟨blocks, hglobal⟩ := hi.global
    obtain ⟨⟨outer, inner, hscope⟩, -⟩ := (Store.Grows.refl s.store).isFunction_body hdeclares.func
    refine ⟨scope, hdeclares.layer.owner rfl, by simp only [Store.isFunction, hscope], ?_⟩
    rw [Store.chain, hscope] at hchain
    exact ⟨_, _, hglobal, hscope, List.tail_eq_of_cons_eq hchain⟩

end Outlined

namespace Outlines

theorem still {act : Check Unit} (h : ∀ s, Ensures (fun _ _ => True) act s fun _ t => Still s t) :
    Outlines p act := fun s => (h s).imp fun _ _ _ hst => ⟨hst.toContinues, fun _ ho => ho.still hst⟩

/-- One action after another. -/
theorem forM {α : Type} {as : List α} {f : α → Check Unit} (h : ∀ a ∈ as, Outlines p (f a)) :
    Outlines p (as.forM f) := by
  induction as with
  | nil => exact .still fun s => .pure (.refl s)
  | cons a rest ih =>
    rw [List.forall_mem_cons] at h
    intro s
    refine .bind ((h.1 s).imp fun _ t _ hst => (ih h.2 t).imp fun _ u _ htu => ?_)
    exact ⟨hst.1.trans htu.1, fun hr ho => htu.2 hr (hst.2 (htu.1.refused hr) ho)⟩

end Outlines

namespace Check

theorem registerFunction_outlines {d : FuncDef} (hd : .function d ∈ p.definitions) :
    Outlines p (registerFunction d) := by
  intro s
  refine .bind ((declareFunction_founds d _ _).imp fun r t _ hfounds => .bind (.store ?_))
  split
  · next st hst =>
    rw [definedFunction hst]
    have hgrows : t.store.Grows { t.store with
        functions := t.store.functions.push r.2
        functionScopes := t.store.functionScopes.push r.1 } :=
      ⟨fun hf => ⟨_, hf, .refl _⟩, fun ha => ⟨_, ha, .refl _⟩, fun hv => ⟨_, hv, .refl _⟩⟩
    have h := hfounds.still (.of_eq (.of_store hgrows) rfl rfl rfl rfl rfl)
    exact .setStore ⟨h.continues, fun hr ho => ho.founds h hr hd⟩
  · exact .bind ((func_readsOnly _ t).imp_both (fun _ _ _ => trivial) fun _ _ _ => .fail trivial)

theorem registerConstant_still (d : ConstDecl) :
    Ensures (fun _ _ => True) (registerConstant d) s fun _ t => Still s t := by
  refine .bind (((denoted?_stateless _).readsOnly s).imp_both (fun _ _ _ => trivial)
    fun type t heq => ?_)
  subst heq
  refine .bind (.store ?_)
  unfold Store.defineConstant
  split
  · next handle st hst =>
    split at hst
    · cases hst
    · cases hst
      have hgrows : t.store.Grows { t.store with
          constants := t.store.constants.push ⟨d.name, type, false⟩ } :=
        ⟨fun hf => ⟨_, hf, .refl _⟩, fun ha => ⟨_, ha, .refl _⟩, fun {i v} hv => by
          refine ⟨v, ?_, .refl v⟩
          rw [Array.getElem?_push, if_neg (Nat.ne_of_lt (Array.getElem?_eq_some_iff.mp hv).1)]
          exact hv⟩
      refine .bind (.setStore (.modify ?_))
      exact (Still.of_eq (.of_store hgrows) rfl rfl rfl rfl rfl).trans (.linking _ _)
  · exact .fail trivial

theorem registerDefinition_outlines {d : Definition} (hd : d ∈ p.definitions) :
    Outlines p (registerDefinition d) := by
  cases d with
  | function d => exact registerFunction_outlines hd
  | constant d => exact .forM fun c _ => .still fun s => registerConstant_still c

/-- Before anything is declared, there is only the global scope. -/
theorem outlined_of_bare {st : Store} (h : st.Bare) :
    Outlined p { AnalysisState.initial n with store := st } where
  placed hn := by cases hn
  single hm := by cases hm
  root := ⟨_, by
    change st.scopes[0]? = _
    rw [h.scopes]
    rfl⟩
  plain {id a} ha := by
    change st.scopes[id]? = some a at ha
    rw [h.scopes] at ha
    obtain ⟨hlt, rfl⟩ := Array.getElem?_eq_some_iff.mp ha
    simp [Nat.lt_one_iff.mp hlt, ScopeBody.isBlock]
  symbols hf hd := by
    rw [(h.builtin hf).2.1] at hd
    cases hd

theorem register_ensures_outlined (builtins : Bool) :
    Ensures (fun _ _ => True) (register builtins p) (.initial n) fun _ t =>
      t.refused = [] → Outlined p t := by
  have hinitial : Outlined p
      (if builtins then { AnalysisState.initial n with store := Store.empty.registerBuiltins }
        else AnalysisState.initial n) := by
    cases builtins with
    | false => exact outlined_of_bare Store.empty_bare
    | true => exact outlined_of_bare Store.empty_bare.registerBuiltins
  have hall : Outlines p (p.definitions.forM registerDefinition) :=
    .forM fun d hd => registerDefinition_outlines hd
  exact .bind (.modify ((hall _).imp fun _ t _ h hr => h.2 hr hinitial))

end Check

/-! ### The second pass -/

/-- One action after another. -/
theorem Follows.forM {α : Type} {as : List α} {f : α → Check Unit}
    (h : ∀ a ∈ as, Follows p home cur (.of []) (f a)) : Follows p home cur (.of []) (as.forM f) := by
  induction as with
  | nil => exact .pure ()
  | cons a rest ih =>
    rw [List.forall_mem_cons] at h
    exact .after h.1 fun _ => ih h.2

namespace Check

/-- The analysis of a constant definition carries out the lambdas in its values. -/
theorem constants_follows (hw : w.KeepsLayout p) {c : ConstDef} (hc : c ∈ p.constants) :
    Follows p home cur (.of []) (constants w c) := by
  intro s
  have hvalues : Follows p none Store.globalScope (.of (exprsShapes none c.values)) (do
      let handles ← constantHandles c.decls
      let hints ← handles.mapM typeOf?
      let types ← values w Store.globalScope hints c.info.span.start c.values
      assignConstants c.decls handles types) :=
    .after (.readsOnly (constantHandles_readsOnly _)) fun handles =>
      .after (.readsOnly (.mapM typeOf?_readsOnly handles)) fun hints =>
        .thenPure (values_follows (fun e _ => (keepsLayout hw).onExprs e) hints) fun types =>
          assignConstants_follows _ _ _
  refine analysing_ensures_marked hw.visit c.info.id ((hvalues _).imp fun _ t _ h => ?_)
  have hbegun : t.progress[c.info.id]? ≠ none := h.continues.begun (by
    rw [AnalysisState.progress_mark_self]
    exact Option.some_ne_none _)
  have hdemand : (Plan.of []).Realised p home cur s t := by
    refine ⟨(Continues.mark s _ _).trans h.continues, fun hr ha _ => ?_⟩
    obtain ⟨ha', es, hcarried⟩ := h.carried hr (ha.mark _ _) rfl
    exact ⟨ha', _, Plan.Carried.demanded (e := .constant c) (hcarried.anywhere cur)
      (.program (Program.mem_constants.mp hc)) hbegun⟩
  exact hdemand.append (.mark hbegun .done)

end Check

/-- Demands carry out their definitions at every depth. -/
theorem demandAt_keepsLayout {observe : Observer} (ho : ∀ stack v, ReadsOnly (observe stack v))
    (depth : Nat) (stack : List Nat) : (demandAt p observe depth stack).KeepsLayout p := by
  induction depth generalizing stack with
  | zero =>
    exact
      { visit := ho stack
        definitionOf := fun h => Program.mem_constants.mpr (Program.constantNamed?_mem h)
        constant := fun _ _ _ => .throw _
        function := fun _ _ => .fault trivial }
  | succ depth ih =>
    exact
      { visit := ho stack
        definitionOf := fun h => Program.mem_constants.mpr (Program.constantNamed?_mem h)
        constant := fun {c} hc _ _ => constants_follows (ih (c.info.id :: stack)) hc
        function := fun d s => ((keepsLayout (ih (d.info.id :: stack))).onFunctions d s).imp
          fun _ _ _ h => ⟨h.continues, h.realised⟩ }

/-- All blocks, all variables of blocks and all definitions that are begun belong to the text of
definitions that have been carried out. -/
structure CarriedOut (p : Program) (es : List Definition) (s : AnalysisState) : Prop where
  arranged : Arranged p s
  defined : ∀ e ∈ es, Defined p s e ∧ s.progress[e.info.id]? ≠ none
  laid : ∀ e ∈ es, ∀ σ ∈ e.shapes, ∃ id, σ.Laid s id
  blocks : ∀ {c : ScopeId}, s.store.isBlock c = true →
    ∃ e ∈ es, ∃ σ ∈ e.shapes, σ.isFunction = false ∧ s.scopes[σ.node]? = some c
  vars : ∀ {c : ScopeId} {i : Nat}, i < s.store.varCount c →
    ∃ e ∈ es, ∃ σ ∈ e.shapes, s.scopes[σ.node]? = some c ∧ ∃ declared ∈ σ.names,
      s.Binds c declared i
  begun : ∀ {node : Nat}, s.progress[node]? ≠ none →
    ∃ e ∈ es, e.info.id = node ∨ ∃ σ ∈ e.shapes, σ.node = node

/-- What is carried out from the end of the first pass on is all that there is. -/
theorem Outlined.carriedOut (h : Outlined p s) (hidle : ∀ node : Nat, s.progress[node]? = none)
    (ha : Arranged p t) {es : List Definition}
    (hcarried : (Plan.of []).Carried p Store.globalScope es s t) : CarriedOut p es t := by
  have hall : ∀ {σ : Shape}, σ ∈ (Plan.of []).all es ↔ ∃ e ∈ es, σ ∈ e.shapes := by
    intro σ
    rw [Plan.mem_all]
    exact or_iff_right List.not_mem_nil
  refine ⟨ha, hcarried.defined, fun e he σ hσ => hcarried.laid σ (hall.mpr ⟨e, he, hσ⟩),
    fun {c} hc => ?_, fun {c i} hi => ?_, fun {node} hn => ?_⟩
  · rcases hcarried.blocks hc with hc | ⟨σ, hσ, hblock, hscope⟩
    · rw [h.isBlock_eq_false] at hc
      cases hc
    · obtain ⟨e, he, hm⟩ := hall.mp hσ
      exact ⟨e, he, σ, hm, hblock, hscope⟩
  · rcases hcarried.vars hi with hi | ⟨-, x, hx, -⟩ | ⟨σ, hσ, hrest⟩
    · rw [h.varCount_eq_zero] at hi
      exact absurd hi (Nat.not_lt_zero i)
    · exact absurd hx List.not_mem_nil
    · obtain ⟨e, he, hm⟩ := hall.mp hσ
      exact ⟨e, he, σ, hm, hrest⟩
  · rcases hcarried.begun hn with hn | ⟨e, he, heq⟩ | ⟨σ, hσ, -, heq⟩
    · exact absurd (hidle node) hn
    · exact ⟨e, he, .inl heq⟩
    · obtain ⟨e, he, hm⟩ := hall.mp hσ
      exact ⟨e, he, .inr ⟨σ, hm, heq⟩⟩

namespace Check

theorem unlessBegun_follows {node : Nat} {act : Check Unit}
    (h : Follows p home cur (.of []) act) :
    Follows p home cur (.of []) (unlessBegun node act) := by
  refine .after (.readsOnly (progress?_readsOnly node)) fun progress => ?_
  split
  · exact h
  · exact .pure ()

theorem bodies_follows {observe : Observer} (ho : ∀ stack v, ReadsOnly (observe stack v)) :
    Follows p home cur (.of []) (bodies observe p) := by
  have hw := demandAt_keepsLayout (p := p) ho (p.demandBound + 1) []
  refine .after (.forM fun c hc => unlessBegun_follows (hw.constant hc home cur)) fun _ =>
    .forM fun d hd => ?_
  split
  · exact .pure ()
  · exact unlessBegun_follows fun s => (hw.function d s).imp fun _ _ _ h =>
      h.2 (.program (Program.mem_functions.mp hd)) home cur

/-- A run over a program carries out definitions, and nothing else opens blocks. -/
theorem program_ensures_carriedOut (builtins : Bool) {observe : Observer}
    (ho : ∀ stack v, ReadsOnly (observe stack v)) (hp : p.WellFormed n) :
    Ensures (fun _ _ => True) (program builtins observe p) (.initial n) fun _ t =>
      t.refused = [] → ∃ es, CarriedOut p es t := by
  have hbodies : Follows p none Store.globalScope (.of []) (bodies observe p) := bodies_follows ho
  refine .bind (((register_ensures_outlined builtins).and (register_ensures builtins hp)).imp
    fun _ s _ h => (hbodies s).imp fun _ t _ hbodies hr => ?_)
  obtain ⟨houtlined, hreg⟩ := h
  have hs := houtlined (hbodies.continues.refused hr)
  obtain ⟨ha, es, hcarried⟩ := hbodies.carried hr (hs.arranged hreg.inv) rfl
  exact ⟨es, hs.carriedOut hreg.idle ha hcarried⟩

end Check

end Frontend
