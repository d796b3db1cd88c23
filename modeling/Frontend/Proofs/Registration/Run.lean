import Frontend.Proofs.Analysis.Source
import Frontend.Proofs.Builtins.Behind
import Frontend.Proofs.Registration.Offences

/-!
# Registration as a run

Registration goes through the definitions in order and stops at the first offence. What it leaves
behind is a function of the definitions it has gone through, `Store.registered`; the invariant says
so of the definitions before the current one, and within a definition of constants of the constants
before the current one.
-/

namespace Frontend

/-- The failure is the first of the offences. -/
def FirstOf (offences : List Error) (e : Failure) : Prop :=
  ∃ error, offences.head? = some error ∧ e = .error error

theorem FirstOf.append {offences : List Error} {e : Failure} (h : FirstOf offences e)
    (others : List Error) : FirstOf (offences ++ others) e := by
  obtain ⟨error, hhead, he⟩ := h
  exact ⟨error, by rw [List.head?_append, hhead, Option.some_or], he⟩

theorem FirstOf.behind {offences others : List Error} {e : Failure} (h : FirstOf others e)
    (hnil : offences = []) : FirstOf (offences ++ others) e := by
  subst hnil
  exact h

theorem Ensures.offence {α : Type} {s : AnalysisState} {cause : Cause} {position : Position}
    {offences : List Error} {post : α → AnalysisState → Prop}
    (h : offences = [⟨cause, position⟩]) :
    Ensures (fun e _ => FirstOf offences e) (Check.fail cause position : Check α) s post :=
  .fail ⟨_, by rw [h]; rfl, rfl⟩

/-! ### The store that registration leaves -/

/-- The store once functions and constants are declared. -/
def Store.registered (builtins : Bool) (fs : List FuncDef) (cs : List ConstDecl) : Store :=
  { Store.empty with
    funcs := (headings builtins fs).toArray
    scopes := (⟨.global, [], #[]⟩ :: (List.range fs.length).map fun i =>
      ⟨.function (some ((builtinFunctions builtins).length + i)), [globalScope], #[]⟩).toArray
    constants := (cs.map ConstDecl.symbol).toArray
    functions := Array.range (headings builtins fs).length
    functionScopes := ((List.range fs.length).map (· + 1)).toArray }

/-- Functions and constants are declared, and nothing else. -/
structure Registered (builtins : Bool) (fs : List FuncDef) (cs : List ConstDecl)
    (s : AnalysisState) : Prop where
  store : s.store = Store.registered builtins fs cs
  /-- Each function has its scope. -/
  owner : (fs.map (·.info.id)).Nodup → ∀ {i d}, fs[i]? = some d →
    s.scopes[d.info.id]? = some (i + 1)
  other : ∀ {node}, node ∉ fs.map (·.info.id) → s.scopes[node]? = none

theorem Store.registered_nil (builtins : Bool) :
    (if builtins then Store.empty.registerBuiltins else Store.empty) =
      Store.registered builtins [] [] := by
  cases builtins with
  | false => rfl
  | true =>
    rw [Store.registerBuiltins_empty]
    simp [Store.behind, Store.registered, Store.empty, Scope.behind, ScopeBody.behind, headings,
      builtinFunctions]

theorem registered_initial (builtins : Bool) (nextId : Nat) : Registered builtins [] []
    { AnalysisState.initial nextId with store := Store.registered builtins [] [] } where
  store := rfl
  owner := nofun
  other _ := Std.TreeMap.getElem?_emptyc

/-! ### Headers -/

/-- A value, if there are no offences, and the first of them otherwise. -/
def unlessOffending {α : Type} (offences : List Error) (a : α) : Except Failure α :=
  match offences with
  | [] => .ok a
  | e :: _ => .error (.error e)

theorem unlessOffending_bind {α β : Type} {offences others : List Error} {a : α}
    {f : α → Except Failure β} {b : β} (h : offences = [] → f a = unlessOffending others b) :
    (unlessOffending offences a >>= f) = unlessOffending (offences ++ others) b := by
  cases offences with
  | nil => exact h rfl
  | cons e rest => rfl

/-- The type that an annotation denotes. -/
theorem resolve_unlessOffending (annot : TypeExpr) :
    annot.resolve.mapError Failure.error =
      unlessOffending (annotationOffences (some annot))
        (annot.resolve.toOption.getD .unit) := by
  simp only [annotationOffences]
  cases annot.resolve <;> rfl

theorem paramType_none (q : Param) : paramType none q =
    unlessOffending (annotationOffences q.type) (q.symbol.type.getD .unit) := by
  unfold paramType Param.symbol
  cases q.type with
  | none => rfl
  | some annot => exact resolve_unlessOffending annot

/-- A parameter of a known type has a type. -/
theorem Param.symbol_eq {q : Param} (h : annotationOffences q.type = []) :
    q.symbol = ⟨q.name, some (q.symbol.type.getD .unit), q.isVar⟩ := by
  unfold Param.symbol
  cases htype : q.type with
  | none => rfl
  | some annot =>
    obtain ⟨type, ht⟩ := (annotationOffences_eq_nil _).mp h annot htype
    simp [ht, Except.toOption]

/-- The symbols of parameters are found, or it is the first offence that is reported. -/
theorem paramSymbols_none (params before : List Param) {used : List String}
    (hused : ∀ name, name ∈ used ↔ name ∈ before.map (·.name)) :
    paramSymbols used none params =
      unlessOffending (offencesIn Param.offences before params) (params.map Param.symbol) := by
  induction params generalizing before used with
  | nil => rfl
  | cons q rest ih =>
    rw [paramSymbols, offencesIn, Param.offences]
    by_cases hm : q.name ∈ used
    · rw [if_pos hm, if_pos ((hused _).mp hm)]
      rfl
    · rw [if_neg hm, if_neg fun h => hm ((hused _).mpr h), paramType_none, List.nil_append]
      refine unlessOffending_bind fun hnil => ?_
      have hseen : ∀ name, name ∈ q.name :: used ↔ name ∈ (before ++ [q]).map (·.name) := by
        simp [hused, or_comm]
      rw [Option.map_none, ih (before ++ [q]) hseen, List.map_cons, Param.symbol_eq hnil]
      cases offencesIn Param.offences (before ++ [q]) rest <;> rfl

namespace Check

variable {builtins : Bool} {fs : List FuncDef} {cs : List ConstDecl} {s : AnalysisState}

theorem ofResult_unlessOffending {α : Type} {offences : List Error} {a : α} :
    Ensures (fun e _ => FirstOf offences e) (ofResult (unlessOffending offences a)) s
      fun b t => offences = [] ∧ b = a ∧ t = s := by
  cases offences with
  | nil => exact .pure ⟨rfl, rfl, rfl⟩
  | cons e rest => exact .throw ⟨e, rfl, rfl⟩

theorem denoted?_offences (written : Option TypeExpr) :
    Ensures (fun e _ => FirstOf (annotationOffences written) e) (denoted? written) s
      fun type t => annotationOffences written = [] ∧
        type = (written.bind fun annot => annot.resolve.toOption) ∧ t = s := by
  cases written with
  | none => exact .pure ⟨rfl, rfl, rfl⟩
  | some annot =>
    change Ensures _ (ofResult (annot.resolve.mapError Failure.error) >>= fun type =>
      pure (some type)) s _
    rw [resolve_unlessOffending]
    refine .bind (ofResult_unlessOffending.imp fun type t _ h => .pure ?_)
    obtain ⟨hnil, rfl, rfl⟩ := h
    obtain ⟨type, ht⟩ := (annotationOffences_eq_nil _).mp hnil annot rfl
    exact ⟨hnil, by simp [ht, Except.toOption], rfl⟩

/-- Links of parameters are all that is written for them. -/
theorem linkParams_keeps {refuse : Failure → AnalysisState → Prop} (scope : ScopeId)
    (params : List Param) (index : Nat) :
    Ensures refuse (linkParams scope index params) s fun _ t =>
      t.store = s.store ∧ t.scopes = s.scopes := by
  induction params generalizing s index with
  | nil => exact .pure ⟨rfl, rfl⟩
  | cons q rest ih =>
    have hlink : (s.toResolution.link q.info.id (.var (.param scope index))).store = s.store ∧
        (s.toResolution.link q.info.id (.var (.param scope index))).scopes = s.scopes := by
      unfold Resolution.link
      split <;> exact ⟨rfl, rfl⟩
    refine .bind (.modify ((ih (index + 1)).imp fun _ t _ h => ?_))
    exact ⟨h.1.trans hlink.1, h.2.trans hlink.2⟩

/-- Actions on items one after another, where each is refused for the first of its offences. -/
theorem forM_offences {α : Type} {act : α → Check Unit} {judge : List α → α → List Error}
    (inv : List α → AnalysisState → Prop)
    (hact : ∀ {before a s}, inv before s → Ensures (fun e _ => FirstOf (judge before a) e) (act a) s
      fun _ t => judge before a = [] ∧ inv (before ++ [a]) t)
    {before as : List α} (h : inv before s) :
    Ensures (fun e _ => FirstOf (offencesIn judge before as) e) (as.forM act) s
      fun _ t => offencesIn judge before as = [] ∧ inv (before ++ as) t := by
  induction as generalizing before s with
  | nil => exact .pure ⟨rfl, by rwa [List.append_nil]⟩
  | cons a rest ih =>
    change Ensures _ (act a >>= fun _ => rest.forM act) s _
    refine .bind ((hact h).imp_both (fun e t he => he.append _) fun _ t ha => ?_)
    refine (ih ha.2).imp_both (fun e t he => he.behind ha.1) fun _ u hrest => ?_
    rw [List.append_cons before a rest]
    exact ⟨List.append_eq_nil_iff.mpr ⟨ha.1, hrest.1⟩, hrest.2⟩

/-! ### Constants -/

end Check

/-- A constant is declared just if no constant has its name. -/
theorem Store.registered_defineConstant (builtins : Bool) (fs : List FuncDef) (cs : List ConstDecl)
    (d : ConstDecl) :
    (d.name ∈ cs.map (·.name) ∧
      ∃ existing, (registered builtins fs cs).defineConstant d.symbol = .error existing) ∨
    (d.name ∉ cs.map (·.name) ∧ (registered builtins fs cs).defineConstant d.symbol =
      .ok (.constant cs.length, registered builtins fs (cs ++ [d]))) := by
  have hnames : d.name ∈ cs.map (·.name) ↔
      ((cs.map ConstDecl.symbol).toArray.findIdx? (·.name == d.symbol.name)).isSome := by
    simp [ConstDecl.symbol]
  unfold defineConstant
  cases hfind : (registered builtins fs cs).constants.findIdx? (·.name == d.symbol.name) with
  | some i => exact .inl ⟨hnames.mpr (Option.isSome_iff_exists.mpr ⟨i, hfind⟩), _, rfl⟩
  | none =>
    refine .inr ⟨fun hm => ?_, by simp [registered]⟩
    obtain ⟨i, hi⟩ := Option.isSome_iff_exists.mp (hnames.mp hm)
    cases hfind.symm.trans hi

namespace Check

variable {builtins : Bool} {fs : List FuncDef} {cs : List ConstDecl} {s : AnalysisState}

theorem registerConstant_offences (h : Registered builtins fs cs s) (d : ConstDecl) :
    Ensures (fun e _ => FirstOf (d.offences cs) e) (registerConstant d) s fun _ t =>
      d.offences cs = [] ∧ Registered builtins fs (cs ++ [d]) t := by
  unfold ConstDecl.offences
  refine .bind ((denoted?_offences d.type).imp_both (fun e t he => he.append _) fun type t ht => ?_)
  obtain ⟨hnil, rfl, rfl⟩ := ht
  refine .bind (.store ?_)
  rw [h.store, hnil, List.nil_append]
  obtain ⟨hused, existing, hdefine⟩ | ⟨hused, hdefine⟩ :=
    Store.registered_defineConstant builtins fs cs d
  · rw [ConstDecl.symbol] at hdefine
    rw [if_pos hused]
    simp only [hdefine]
    exact .offence rfl
  · rw [ConstDecl.symbol] at hdefine
    rw [if_neg hused]
    simp only [hdefine]
    refine .bind (.setStore (.modify ⟨trivial, ?_⟩))
    unfold Resolution.link
    split <;> exact ⟨rfl, h.owner, h.other⟩

/-! ### Functions -/

end Check

/-- The store while a function has its symbol and its scope, but is not declared. -/
def Store.announced (builtins : Bool) (fs : List FuncDef) (cs : List ConstDecl) (d : FuncDef) :
    Store :=
  { registered builtins (fs ++ [d]) cs with
    functions := (registered builtins fs cs).functions
    functionScopes := (registered builtins fs cs).functionScopes }

theorem Store.registered_announce (builtins : Bool) (fs : List FuncDef) (cs : List ConstDecl)
    (d : FuncDef) :
    ((registered builtins fs cs).addFunc d.heading).2.openFunction
        (some (registered builtins fs cs).funcs.size) globalScope =
      (fs.length + 1, announced builtins fs cs d) := by
  have hchain : ((registered builtins fs cs).addFunc d.heading).2.chain globalScope =
      [globalScope] := by simp [chain, addFunc, registered, globalScope]
  unfold openFunction
  rw [hchain]
  simp [announced, registered, addFunc, headings, List.range_succ]

/-- The symbols of the first functions of a store, if these are the ones that are declared. -/
theorem Store.globalFuncs_symbols {s : Store} {n : Nat} (h : s.functions = Array.range n) :
    s.globalFuncs.map (·.2) = s.funcs.toList.take n := by
  have hsymbols : s.globalFuncs.map (·.2) = s.functions.toList.filterMap s.func? := by
    unfold globalFuncs
    rw [List.map_filterMap]
    congr 1
    funext id
    rw [Option.map_map]
    exact Option.map_id' ..
  rw [hsymbols, h, Array.toList_range]
  clear h hsymbols
  induction n with
  | zero => rfl
  | succ n ih =>
    rw [List.range_succ, List.filterMap_append, ih, List.take_add_one, Array.getElem?_toList]
    cases hn : s.funcs[n]? <;> simp [func?, hn]

/-- A function is declared unless one that is declared cannot be told from it. -/
theorem Store.defineFunction_cases {s : Store} {id : FuncId} {f : FuncSymbol}
    (hf : s.func? id = some f) :
    (∃ other g, s.defineFunction id = .error other ∧ s.func? other = some g ∧
      (s.globalFuncs.map (·.2)).find? (·.sameDeclaration f) = some g) ∨
    (s.defineFunction id = .ok { s with functions := s.functions.push id } ∧
      (s.globalFuncs.map (·.2)).find? (·.sameDeclaration f) = none) := by
  rw [List.find?_map]
  unfold defineFunction
  simp only [hf, Option.any_some]
  cases hfind : s.globalFuncs.find? fun c => c.2.sameDeclaration f with
  | none => exact .inr ⟨rfl, by rw [Function.comp_def, hfind]; rfl⟩
  | some c =>
    obtain ⟨id, -, hid⟩ := List.mem_filterMap.mp (List.mem_of_find?_eq_some hfind)
    obtain ⟨g, hg, rfl⟩ := Option.map_eq_some_iff.mp hid
    exact .inl ⟨id, g, rfl, hg, by rw [Function.comp_def, hfind]; rfl⟩

/-- A scope is kept for a node that has none. -/
theorem Resolution.setScope_keeps (r : Resolution) (node : Nat) (scope : ScopeId) :
    (r.setScope node scope).store = r.store ∧
      (∀ other, other ≠ node → (r.setScope node scope).scopes[other]? = r.scopes[other]?) ∧
      (r.scopes[node]? = none → (r.setScope node scope).scopes[node]? = some scope) := by
  unfold Resolution.setScope
  split
  · next hcontains =>
    rw [Std.TreeMap.contains_eq_isSome_getElem?] at hcontains
    refine ⟨rfl, fun _ _ => rfl, fun hnone => ?_⟩
    rw [hnone] at hcontains
    cases hcontains
  · refine ⟨rfl, fun other hne => ?_, fun _ => ?_⟩
    · rw [getElem?_insert, if_neg (Ne.symm hne)]
    · rw [getElem?_insert, if_pos rfl]

namespace Check

variable {builtins : Bool} {fs : List FuncDef} {cs : List ConstDecl} {s : AnalysisState}

theorem declareFunction_offences (h : Registered builtins fs cs s) (d : FuncDef) :
    Ensures (fun e _ => FirstOf (offencesIn Param.offences [] d.params ++
        annotationOffences d.resultType) e) (declareFunction d Store.globalScope none) s fun r t =>
      offencesIn Param.offences [] d.params ++ annotationOffences d.resultType = [] ∧
        r = (fs.length + 1, (headings builtins fs).length) ∧
        t.store = Store.announced builtins fs cs d ∧
        (∀ node, node ≠ d.info.id → t.scopes[node]? = s.scopes[node]?) ∧
        (s.scopes[d.info.id]? = none → t.scopes[d.info.id]? = some (fs.length + 1)) := by
  unfold declareFunction
  rw [paramSymbols_none d.params [] (by simp)]
  refine .bind (ofResult_unlessOffending.imp_both (fun e t he => he.append _) fun params t ht => ?_)
  obtain ⟨hparams, rfl, rfl⟩ := ht
  refine .bind ((denoted?_offences d.resultType).imp_both (fun e t he => he.behind hparams)
    fun ret u hu => ?_)
  obtain ⟨hret, rfl, rfl⟩ := hu
  have hannounced : (u.store.addFunc d.heading).2.openFunction (some u.store.funcs.size)
      Store.globalScope = (fs.length + 1, Store.announced builtins fs cs d) := by
    rw [h.store]
    exact Store.registered_announce builtins fs cs d
  have hscope : u.store.scopes.size = fs.length + 1 := congrArg Prod.fst hannounced
  have hfunc : u.store.funcs.size = (headings builtins fs).length := by
    rw [h.store]
    exact List.size_toArray
  refine .bind (.store (.bind (.setStore (.bind ((linkParams_keeps _ d.params 0).imp
    fun _ t _ ht => .bind (.modify (.pure ?_)))))))
  have hset := Resolution.setScope_keeps t.toResolution d.info.id u.store.scopes.size
  refine ⟨by rw [hparams, hret, List.append_nil], Prod.ext hscope hfunc, ?_, fun node hne => ?_,
    fun hnone => ?_⟩
  · exact hset.1.trans (ht.1.trans (congrArg Prod.snd hannounced))
  · exact (hset.2.1 node hne).trans (congrArg (·[node]?) ht.2)
  · refine (hset.2.2 ?_).trans (congrArg some hscope)
    exact (congrArg (·[d.info.id]?) ht.2).trans hnone

theorem registerFunction_offences (h : Registered builtins fs cs s) (d : FuncDef) :
    Ensures (fun e _ => FirstOf (d.offences (headings builtins fs)) e) (registerFunction d) s
      fun _ t => d.offences (headings builtins fs) = [] ∧ Registered builtins (fs ++ [d]) cs t := by
  unfold FuncDef.offences
  refine .bind ((declareFunction_offences h d).imp_both (fun e t he => he.append _)
    fun r t ht => ?_)
  obtain ⟨hnil, rfl, hstore, hother, howner⟩ := ht
  have hfunc : t.store.func? (headings builtins fs).length = some d.heading := by
    rw [hstore]
    simp [Store.func?, Store.announced, Store.registered, headings]
  have hsymbols : t.store.globalFuncs.map (·.2) = headings builtins fs := by
    rw [hstore, Store.globalFuncs_symbols rfl]
    simp [Store.announced, Store.registered, headings_concat]
  refine .bind (.store ?_)
  rw [hnil, List.nil_append]
  obtain ⟨other, g, hdefine, hg, hfind⟩ | ⟨hdefine, hfind⟩ := Store.defineFunction_cases hfunc
  · rw [hsymbols] at hfind
    rw [hdefine, hfind]
    refine .bind (.bind (.store ?_))
    rw [hg]
    exact .pure (.offence rfl)
  · rw [hsymbols] at hfind
    rw [hdefine, hfind]
    refine .setStore ⟨rfl, ?_, fun hnodup {i e} hi => ?_, fun {node} hnode => ?_⟩
    · rw [hstore]
      simp [Store.announced, Store.registered, headings_concat, Array.range_succ,
        List.range_succ]
    · rw [List.map_append, List.map_singleton, ← List.concat_eq_append, List.nodup_concat] at hnodup
      obtain hlt | hge := Nat.lt_or_ge i fs.length
      · rw [List.getElem?_append_left hlt] at hi
        have he : e.info.id ∈ fs.map (·.info.id) := List.mem_map_of_mem (List.mem_of_getElem? hi)
        rw [hother _ fun heq => hnodup.1 (heq ▸ he)]
        exact h.owner hnodup.2 hi
      · have hlen := (List.getElem?_eq_some_iff.mp hi).1
        rw [List.length_append, List.length_singleton] at hlen
        obtain rfl : i = fs.length := Nat.le_antisymm (Nat.le_of_lt_succ hlen) hge
        rw [List.getElem?_concat_length] at hi
        cases hi
        exact howner (h.other hnodup.1)
    · rw [List.map_append, List.mem_append, not_or] at hnode
      have hne : node ≠ d.info.id := fun heq => hnode.2 (List.mem_singleton.mpr heq)
      exact (hother node hne).trans (h.other hnode.1)

/-! ### Programs -/

theorem registerDefinition_offences {ds : List Definition}
    (h : Registered builtins (functionsOf ds) (constantsOf ds) s) (d : Definition) :
    Ensures (fun e _ => FirstOf (d.offences builtins ds) e) (registerDefinition d) s fun _ t =>
      d.offences builtins ds = [] ∧
        Registered builtins (functionsOf (ds ++ [d])) (constantsOf (ds ++ [d])) t := by
  cases d with
  | function d =>
    rw [functionsOf_function, constantsOf_function]
    exact registerFunction_offences h d
  | constant d =>
    rw [functionsOf_constant, constantsOf_constant]
    exact forM_offences (Registered builtins (functionsOf ds))
      (fun h => registerConstant_offences h _) h

/-- Registration declares the definitions of a program, or it stops at the first offence. -/
theorem register_offences (builtins : Bool) (p : Program) (nextId : Nat) :
    Ensures (fun e _ => FirstOf (p.offences builtins) e) (register builtins p) (.initial nextId)
      fun _ t => p.offences builtins = [] ∧
        Registered builtins (functionsOf p.definitions) (constantsOf p.definitions) t := by
  have hinitial : (if builtins then
        { AnalysisState.initial nextId with store := Store.empty.registerBuiltins }
      else AnalysisState.initial nextId) =
      { AnalysisState.initial nextId with store := Store.registered builtins [] [] } := by
    rw [← Store.registered_nil]
    cases builtins <;> rfl
  refine .bind (.modify ?_)
  change Ensures _ _ (if builtins then
    { AnalysisState.initial nextId with store := Store.empty.registerBuiltins }
    else AnalysisState.initial nextId) _
  rw [hinitial]
  exact forM_offences (fun ds => Registered builtins (functionsOf ds) (constantsOf ds))
    (fun h => registerDefinition_offences h _) (registered_initial builtins nextId)

end Check

/-- The global symbols are those that the headers of a program declare, in source order behind the
builtin functions, and each function of the program has a scope of its own. -/
structure AnalysisState.Declares (builtins : Bool) (p : Program) (s : AnalysisState) : Prop where
  functions : s.store.globalFuncs.map (·.2) =
    builtinFunctions builtins ++ p.functions.map FuncDef.heading
  constants : s.store.constants.toList = (constantsOf p.definitions).map ConstDecl.symbol
  scopes : s.store.functionScopes.size = p.functions.length
  matching : ∀ {i d}, p.functions[i]? = some d → ∃ id scope,
    s.store.functions[(builtinFunctions builtins).length + i]? = some id ∧
      s.store.func? id = some d.heading ∧ s.store.functionScopes[i]? = some scope ∧
      s.store.scopes[scope]? = some ⟨.function (some id), [Store.globalScope], #[]⟩ ∧
      s.scopes[d.info.id]? = some scope

/-- Functions of a program have different ids. -/
theorem Program.WellFormed.functions_nodup {p : Program} {n : Nat} (h : p.WellFormed n) :
    (p.functions.map (·.info.id)).Nodup := by
  have hapart := (List.nodup_flatMap.mp h.nodup).2
  rw [List.Nodup, List.pairwise_map, Program.functions, List.pairwise_filterMap]
  refine hapart.imp fun {a b} hab f hf g hg heq => ?_
  cases a <;> cases hf
  cases b <;> cases hg
  have hf := (Definition.function f).info_mem_ids
  have hg := (Definition.function g).info_mem_ids
  exact hab hf (show f.info.id ∈ _ from heq ▸ hg)

/-- The symbols of the global functions. -/
theorem Registered.symbols {builtins : Bool} {fs : List FuncDef} {cs : List ConstDecl}
    {s : AnalysisState} (h : Registered builtins fs cs s) :
    s.store.globalFuncs.map (·.2) = headings builtins fs := by
  rw [h.store, Store.globalFuncs_symbols rfl]
  exact List.take_length

theorem Registered.declares {builtins : Bool} {p : Program} {s : AnalysisState}
    (h : Registered builtins (functionsOf p.definitions) (constantsOf p.definitions) s)
    (hnodup : (p.functions.map (·.info.id)).Nodup) : s.Declares builtins p where
  functions := h.symbols
  constants := by rw [h.store]; rfl
  scopes := by
    rw [h.store]
    simp only [Store.registered, List.size_toArray, List.length_map, List.length_range]
    rfl
  matching {i d} hi := by
    have hlt := (List.getElem?_eq_some_iff.mp hi).1
    refine ⟨(builtinFunctions builtins).length + i, i + 1, ?_, ?_, ?_, ?_, h.owner hnodup hi⟩
    · rw [h.store]
      have hlen : i < (functionsOf p.definitions).length := hlt
      simp [Store.registered, headings, hlen]
    · rw [h.store]
      change (headings builtins p.functions).toArray[_]? = _
      rw [List.getElem?_toArray, headings, List.getElem?_append_right (Nat.le_add_right _ _),
        Nat.add_sub_cancel_left, List.getElem?_map, hi]
      rfl
    · rw [h.store]
      have hlen : i < (functionsOf p.definitions).length := hlt
      simp [Store.registered, hlen]
    · rw [h.store]
      have hlen : i < (functionsOf p.definitions).length := hlt
      simp [Store.registered, hlen]

variable {tokens : List Token} {file : String} {firstId nextId : Nat} {p : Program}

/-- Registration of a program that is read from tokens succeeds just if its headers name known types
only and declare nothing twice, and then its symbols are what the headers declare; otherwise the
first offence is what is reported. In such a program every result type counts. -/
theorem registration_firstOffence (builtins : Bool)
    (h : Program.parse tokens file firstId = .ok (p, nextId)) :
    ((∃ s, Check.register builtins p (.initial nextId) = .ok () s) ↔
      WellDeclared builtins p.definitions) ∧
    (∀ d ∈ p.functions, d.resultType = d.returnType) ∧
    (∀ s, Check.register builtins p (.initial nextId) = .ok () s → s.Declares builtins p) ∧
    ∀ e s, Check.register builtins p (.initial nextId) = .error e s →
      ∃ error, (p.offences builtins).head? = some error ∧ e = .error error := by
  have hrun := Check.register_offences builtins p nextId
  have hwell := p.offences_eq_nil_iff builtins
  refine ⟨⟨fun ⟨s, hs⟩ => ?_, fun hp => ?_⟩, fun d hd => ?_, fun s hs => ?_,
    fun e s hs => hrun.of_error hs⟩
  · exact hwell.mp (hrun.of_ok hs).1
  · cases hs : Check.register builtins p (.initial nextId) with
    | ok _ s => exact ⟨s, rfl⟩
    | error e s =>
      obtain ⟨error, hhead, -⟩ := hrun.of_error hs
      rw [hwell.mpr hp] at hhead
      cases hhead
  · exact ((Program.parse_written h).2 _ (mem_functionsOf hd)).1.resultType_eq
  · exact (hrun.of_ok hs).2.declares (Program.parse_wellFormed h).functions_nodup

/-- A parameter that repeats a name and has an unknown type, in front of a constant that repeats a
name. -/
theorem registration_firstOffence_parameter :
    ∃ (tokens : List Token) (p : Program) (nextId : Nat),
      Program.parse tokens "main" Builtin.firstNodeId = .ok (p, nextId) ∧
      (p.offences true).map (·.cause) = [.variableAlreadyDeclared "a", .unknownType "nope",
        .variableAlreadyDeclared "A"] ∧
      ¬ WellDeclared true p.definitions ∧
      ∃ error s, Check.register true p (.initial nextId) = .error (.error error) s ∧
        error.cause = .variableAlreadyDeclared "a" := by
  have hrun : ((Token.tokenize
      "func f(a: int, a: nope) { return a; } const A = 1; const A = 2;"
      "main").toOption.bind fun tokens =>
        (Program.parse tokens "main" Builtin.firstNodeId).toOption).any (fun r =>
          (r.1.offences true).map (·.cause) = [.variableAlreadyDeclared "a", .unknownType "nope",
            .variableAlreadyDeclared "A"]) = true := by
    decide +kernel
  obtain ⟨⟨p, nextId⟩, hparsed, hcauses⟩ := (Option.any_eq_true _ _).mp hrun
  obtain ⟨tokens, -, hparse⟩ := Option.bind_eq_some_iff.mp hparsed
  have hcauses := of_decide_eq_true hcauses
  cases h : Program.parse tokens "main" Builtin.firstNodeId with
  | error e =>
    rw [h] at hparse
    cases hparse
  | ok r =>
    rw [h] at hparse
    cases hparse
    obtain ⟨haccepts, -, -, hreports⟩ := registration_firstOffence true h
    have hhead := congrArg List.head? hcauses
    rw [List.head?_map] at hhead
    cases hs : Check.register true p (.initial nextId) with
    | ok _ s =>
      rw [(p.offences_eq_nil_iff true).mpr (haccepts.mp ⟨s, hs⟩)] at hcauses
      cases hcauses
    | error e s =>
      obtain ⟨error, hfirst, rfl⟩ := hreports e s hs
      rw [hfirst] at hhead
      refine ⟨tokens, p, nextId, h, hcauses, fun hwell => ?_, error, s, hs, Option.some.inj hhead⟩
      obtain ⟨t, ht⟩ := haccepts.mpr hwell
      cases hs.symm.trans ht

end Frontend
