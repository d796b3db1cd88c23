import Frontend.Proofs.Calls.Instance

/-!
# Calls and demands

What a body asks of its surroundings: the function that a call stands for, its instance, its result
type, the type of a constant. Each of these may analyse other definitions on the way, which is a
step that writes to none of the nodes at hand.
-/

namespace Frontend

/-- Demands are met by steps: visits leave the state alone, and a definition that has not been
begun may be asked for, unless it is a template of the program, where it may be begun inside those
that are under analysis. -/
structure Demand.Sound (p : Program) (stack : List Nat) (w : Demand) : Prop where
  visit : ∀ {s} (v : Visit), Inv p s → Orderly p stack v s →
    Ensures (Rejected p) (w.visit v) s fun _ t => t = s
  definitionOf : ∀ {name d}, w.definitionOf name = some d → .constant d ∈ p.definitions
  constant : ∀ {s d}, Inv p s → .constant d ∈ p.definitions → s.progress[d.info.id]? = none →
    Nested p (d.info.id :: stack) (s.mark d.info.id .inProgress) →
    Ensures (Rejected p) (w.constant d) s fun _ t =>
      Step p none [] s t ∧ t.progress[d.info.id]? = some .done
  function : ∀ {s d}, Inv p s → Defined p s (.function d) →
    (.function d ∈ p.definitions → d.isTemplate = false) → s.progress[d.info.id]? = none →
    Nested p (d.info.id :: stack) (s.mark d.info.id .inProgress) →
    Ensures (Rejected p) (w.function d) s fun _ t =>
      Step p none [] s t ∧ t.progress[d.info.id]? = some .done

/-- A function that can be called as it is: a builtin one, or a definition that is no template. -/
inductive FuncSymbol.Callable (p : Program) (s : AnalysisState) (f : FuncSymbol) : Prop
  | builtin (h : f.isBuiltin = true) (ret : f.kind = .proc ∨ f.ret.isSome)
  | defined {d : FuncDef} (decl : f.decl = some d) (mem : Defined p s (.function d))
    (ht : .function d ∈ p.definitions → d.isTemplate = false)

variable {p : Program} {stack : List Nat} {s t : AnalysisState} {w : Demand}

theorem FuncSymbol.IsGlobal.callable {f : FuncSymbol} (h : f.IsGlobal p)
    (ht : (f.isTemplate && !f.isBuiltin) = false)
    (hb : ∀ d, f.decl = some d → f.isBuiltin = false) :
    f.Callable p s := by
  cases h with
  | builtin h ret => exact .builtin h ret
  | @program d decl mem isTemplate =>
    refine .defined decl (.program mem) fun _ => ?_
    rw [hb d decl] at ht
    rw [← isTemplate]
    simpa using ht

theorem Instantiates.callable {i : Instance} {f : FuncSymbol} {copy template : FuncDef}
    (h : Instantiates p s i f copy template) : f.Callable p s :=
  .defined h.decl (.copy h.copied) fun hm => absurd hm h.foreign

theorem FuncSymbol.Callable.grows {f g : FuncSymbol} (h : f.Callable p s) (hg : s.Grows t)
    (hfg : f.Grows g) : g.Callable p t := by
  cases h with
  | builtin hb ret =>
    refine .builtin (hfg.isBuiltin.trans hb) (ret.imp hfg.kind.trans fun hr => ?_)
    obtain ⟨type, ht⟩ := Option.isSome_iff_exists.mp hr
    exact Option.isSome_iff_exists.mpr ⟨type, hfg.ret ht⟩
  | defined decl mem ht =>
    exact .defined (hfg.decl.trans decl) (mem.grows hg fun _ h => h) ht

/-- A function whose result is known has a type as a value. -/
theorem FuncSymbol.type?_of_result? {f : FuncSymbol} {type : Ty} (h : f.result? = some type) :
    ∃ shown, f.type? = some shown := by
  unfold FuncSymbol.result? at h
  unfold FuncSymbol.type?
  split at h
  · next hk => exact ⟨_, by rw [hk]; rfl⟩
  · rw [h]
    split
    · exact ⟨_, rfl⟩
    · exact ⟨_, rfl⟩

theorem AnalysisState.Understood.of_gives {node : Nat} {id : FuncId} {type : Ty}
    (hl : s.links[node]? = some (.func id)) (hg : s.Gives id type) : s.Understood node := by
  obtain ⟨f, hf, hresult⟩ := hg
  obtain ⟨shown, hshown⟩ := FuncSymbol.type?_of_result? hresult
  exact .of_isOfType hl ⟨f, hf, hshown⟩

/-- A name that has a type by the rule of names is understood. -/
theorem Typing.understood {info : NodeInfo} {name : String} {assigned : Bool} {type : Ty}
    (h : Typing s (.varRef info name assigned) type) : s.Understood info.id := by
  cases h with
  | ofVariable hl => exact fun _ hl' => by cases hl.symm.trans hl'
  | ofFunction hl ht => exact .of_isOfType hl ht
  | ignored hl => exact fun _ hl' => by cases hl.symm.trans hl'

theorem Inv.not_isBuiltin (hi : Inv p s) {id : FuncId} {f : FuncSymbol} {d : FuncDef}
    (hf : s.store.func? id = some f) (hd : f.decl = some d) : f.isBuiltin = false := by
  obtain ⟨scope, h⟩ := hi.declared hf hd
  exact h.isBuiltin

/-- A candidate is a function of the program or a builtin one. -/
theorem Inv.globalFuncs (hi : Inv p s) {id : FuncId} {f : FuncSymbol}
    (h : (id, f) ∈ s.store.globalFuncs) : s.store.func? id = some f ∧ f.IsGlobal p := by
  unfold Store.globalFuncs at h
  obtain ⟨i, hm, hi'⟩ := List.mem_filterMap.mp h
  obtain ⟨g, hg, hglobal⟩ := hi.functions (Array.mem_toList_iff.mp hm)
  rw [hg] at hi'
  cases hi'
  exact ⟨hg, hglobal⟩

/-- A global function with a definition is one of the program. -/
theorem FuncSymbol.IsGlobal.mem_definitions (hi : Inv p s) {id : FuncId} {f : FuncSymbol}
    {d : FuncDef} (h : f.IsGlobal p) (hf : s.store.func? id = some f) (hd : f.decl = some d) :
    .function d ∈ p.definitions := by
  cases h with
  | builtin hb => exact absurd ((hi.not_isBuiltin hf hd).symm.trans hb) nofun
  | program decl mem =>
    rw [hd] at decl
    cases decl
    exact mem

/-- Definitions of the program are told apart by their ids. -/
theorem Inv.eq_of_id_eq (hi : Inv p s) {d e : FuncDef} (hd : .function d ∈ p.definitions)
    (he : .function e ∈ p.definitions) (h : d.info.id = e.info.id) : d = e := by
  have hm : d.info.id ∈ (Definition.function e).ids :=
    h ▸ (Definition.function e).info_mem_ids
  exact Definition.function.inj
    (hi.disjoint (.program hd) (.program he) (Definition.function d).info_mem_ids hm)

/-- What a call by name stands for has the name. -/
theorem AnalysisState.Chosen.namesFunction {name : String} {args : List Ty} {id : FuncId}
    (h : s.Chosen name args id) (hi : Inv p s) : s.NamesFunction name id := by
  cases h with
  | plain hs _ =>
    obtain ⟨hm, hname, -⟩ := Overload.select_eq_some hs
    exact .global hm hname
  | @made c f score d id hs hf hd hk =>
    obtain ⟨hm, hname, -⟩ := Overload.select_eq_some hs
    obtain ⟨hfunc, hglobal⟩ := hi.globalFuncs hm
    obtain ⟨g, copy, template, hinst⟩ := hi.known hk
    obtain ⟨scope, hdeclares⟩ := hi.declared hinst.func hinst.decl
    obtain ⟨scope', hdeclares'⟩ := hi.declared hfunc hd
    have hkey : d.info.id = template.info.id := hinst.key
    have htemplate := hi.eq_of_id_eq (hglobal.mem_definitions hi hfunc hd) hinst.source hkey
    have hgname : g.name = name := by
      rw [hdeclares.name, hinst.name, ← htemplate, ← hdeclares'.name, hname]
    exact .instantiated hm hname hd hk rfl hinst.func hgname

namespace Check

theorem func_ensures {refuse : Failure → AnalysisState → Prop} {id : FuncId} {f : FuncSymbol}
    (hf : s.store.func? id = some f) {post : FuncSymbol → AnalysisState → Prop} (h : post f s) :
    Ensures refuse (func id) s post := by
  refine .bind (.store ?_)
  rw [hf]
  exact .pure h

theorem progress?_ensures {refuse : Failure → AnalysisState → Prop} {node : Nat}
    {post : Option Progress → AnalysisState → Prop} (h : post s.progress[node]? s) :
    Ensures refuse (progress? node) s post := .bind (.get (.pure h))

/-! ### Result types -/

/-- A function whose result type is unknown is analysed. -/
theorem inferResult_ensures (hw : w.Sound p stack) (hi : Inv p s) (hn : Nested p stack s)
    {id : FuncId} {f : FuncSymbol} (hf : s.store.func? id = some f) (hc : f.Callable p s)
    (hk : f.kind ≠ .proc) (hr : f.ret = none) (position : Position) :
    Ensures (Rejected p) (inferResult w f position) s fun _ t => Step p none [] s t ∧
      ∃ g, t.store.func? id = some g ∧ f.Grows g ∧ g.ret.isSome := by
  cases hc with
  | builtin hb hret =>
    rcases hret with hret | hret
    · exact absurd hret hk
    · rw [hr] at hret
      cases hret
  | @defined d hd hmem ht =>
    have hb := hi.not_isBuiltin hf hd
    have hvalue : f.kind.returnsValue = true := by
      cases hkind : f.kind <;> first | rfl | exact absurd hkind hk
    have hdecl : f.declaration.mapError Failure.fault = .ok d := by
      simp only [FuncSymbol.declaration, hb, hd, Bool.false_eq_true, if_false]
      rfl
    unfold inferResult
    rw [hb, if_neg Bool.false_ne_true, hdecl]
    refine .bind (.pure (.bind (progress?_ensures ?_)))
    split
    · exact .fail (hi.rejected _ (by rintro ⟨⟩))
    · next hdone =>
      have hsome := hi.settled hmem hf hd hdone hvalue
      rw [hr] at hsome
      cases hsome
    · next hnone =>
      have hbegin : Nested p (d.info.id :: stack) (s.mark d.info.id .inProgress) := by
        cases hmem with
        | program hm => exact hn.begin (d := .function d) hi hm hnone
        | copy hm => exact absurd hnone (hn.begun hm)
      refine (hw.function hi hmem ht hnone hbegin).imp fun _ t _ h => ⟨h.1, ?_⟩
      obtain ⟨g, hg, hfg⟩ := h.1.grows.store.func hf
      have hmem' := hmem.grows h.1.grows fun _ h => h
      exact ⟨g, hg, hfg,
        h.1.inv.settled hmem' hg (hfg.decl.trans hd) h.2 (hfg.kind.symm ▸ hvalue)⟩

/-- A call of a function has its result type, now and later. -/
theorem callResult_ensures (hw : w.Sound p stack) (hi : Inv p s) (hn : Nested p stack s)
    {id : FuncId} {f : FuncSymbol} (hf : s.store.func? id = some f) (hc : f.Callable p s)
    (position : Position) :
    Ensures (Rejected p) (callResult w id position) s fun type t =>
      Step p none [] s t ∧ t.Gives id type := by
  refine .bind (func_ensures hf ?_)
  split
  · next hk =>
    refine .pure ⟨.refl hi, f, hf, ?_⟩
    rw [FuncSymbol.result?, if_pos hk]
  · next hk =>
    split
    · next type hr =>
      refine .pure ⟨.refl hi, f, hf, ?_⟩
      rw [FuncSymbol.result?, if_neg hk, hr]
    · next hr =>
      refine .bind ((inferResult_ensures hw hi hn hf hc hk hr position).imp fun _ t _ h => ?_)
      obtain ⟨hs, g, hg, hfg, hret⟩ := h
      obtain ⟨type, htype⟩ := Option.isSome_iff_exists.mp hret
      refine .bind (func_ensures hg (.pure ⟨hs, g, hg, ?_⟩))
      rw [FuncSymbol.result?, hfg.kind, if_neg hk, htype, Option.getD_some]

/-- A function as a value has its type, now and later. -/
theorem funcValue_ensures (hw : w.Sound p stack) (hi : Inv p s) (hn : Nested p stack s)
    {id : FuncId} {f : FuncSymbol} (hf : s.store.func? id = some f) (hc : f.Callable p s)
    (position : Position) :
    Ensures (Rejected p) (funcValue w id position) s fun type t =>
      Step p none [] s t ∧ t.IsOfType id type := by
  refine .bind (func_ensures hf ?_)
  split
  · next hk =>
    refine .pure ⟨.refl hi, f, hf, ?_⟩
    rw [FuncSymbol.type?, hk]
    rfl
  · next hk =>
    refine .bind ((callResult_ensures hw hi hn hf hc position).imp fun type t _ h => .pure ?_)
    obtain ⟨hs, g, hg, hr⟩ := h
    obtain ⟨g', hg', hfg⟩ := hs.grows.store.func hf
    rw [hg] at hg'
    cases hg'
    have hvalue : g.kind.returnsValue = true := by
      rw [hfg.kind]
      cases hkind : f.kind <;> first | rfl | exact absurd hkind hk
    rw [FuncSymbol.result?, hfg.kind, if_neg hk] at hr
    refine ⟨hs, g, hg, ?_⟩
    rw [FuncSymbol.type?, hvalue, if_pos rfl, hr, Option.map_some, hfg.paramTypes]

/-! ### Instances -/

/-- The instance that is found is one of the template for the argument types. -/
theorem find?_eq_some_known {known : List Instance} {template : Nat} {args : List Ty}
    {i : Instance}
    (h : known.find? (fun i => i.template == template && decide (i.args = args)) = some i) :
    i ∈ known ∧ i.template = template ∧ i.args = args := by
  have hkey := List.find?_some h
  simp only [Bool.and_eq_true, beq_iff_eq, decide_eq_true_eq] at hkey
  exact ⟨List.mem_of_find?_eq_some h, hkey⟩

/-- Where no instance is found, there is none of the template for the argument types. -/
theorem find?_eq_none_known {known : List Instance} {template : Nat} {args : List Ty}
    (h : known.find? (fun i => i.template == template && decide (i.args = args)) = none) :
    ∀ i ∈ known, i.template = template → i.args ≠ args := by
  intro i hm hk hargs
  have hnone := List.find?_eq_none.mp h i hm
  simp [hk, hargs] at hnone

/-- The invariant does not speak of how many instances are counted. -/
theorem Advance.active (hi : Inv p s) (active : Std.TreeMap Nat Nat) :
    Advance p none [] s { s with active } :=
  { inv := hi.advance ⟨.refl _, id, id, id, id, id, id, id⟩ rfl rfl rfl rfl rfl rfl (fun _ => rfl)
      hi.linked (fun hg _ hnone => absurd (hnone.symm.trans hg) nofun) (fun _ _ _ => rfl)
      (fun _ => id) hi.settled hi.understood hi.outer
    grows := ⟨.refl _, id, id, id, id, id, id, id⟩
    nextId := Nat.le_refl _
    functions := rfl
    constants := rfl
    frame := fun _ _ _ => rfl
    kept := fun ha hb _ => by
      cases ha.symm.trans hb
      rfl
    fresh := fun hd => .inl (by
      cases hd with
      | program h => exact .program h
      | copy h => exact .copy h)
    active := fun _ => id
    running := fun _ => id
    unfinished := fun _ => rfl }

/-- A template has its instance for the argument types, which has been analysed. -/
theorem instantiate_ensures (hw : w.Sound p stack) (hi : Inv p s) (hn : Nested p stack s)
    {f : FuncSymbol} {d : FuncDef} {args : List Ty} (hb : f.isBuiltin = false)
    (hd : f.decl = some d) (hmem : .function d ∈ p.definitions) (ht : d.isTemplate = true)
    (hlen : args.length = d.params.length) (hname : f.name = d.name) (position : Position) :
    Ensures (Rejected p) (instantiate w f args position) s fun id t =>
      Step p none [] s t ∧ ⟨d.info.id, args, id⟩ ∈ t.known := by
  have hdecl : f.declaration.mapError Failure.fault = .ok d := by
    simp only [FuncSymbol.declaration, hb, hd, Bool.false_eq_true, if_false]
    rfl
  have hasked : Orderly p stack (.request d.info.id f.name args position) s :=
    hn.orderly hi nofun nofun fun {_ _ _ _} heq => by
      cases heq
      exact ⟨d, hmem, ht, rfl, hname.symm⟩
  unfold instantiate
  rw [hdecl]
  refine .bind (.pure (.bind ((hw.visit _ hi hasked).imp fun _ u _ heq => ?_)))
  rw [heq]
  refine .bind (.get ?_)
  split
  · next i hfind =>
    obtain ⟨template, args', func⟩ := i
    obtain ⟨hm, rfl, rfl⟩ := find?_eq_some_known hfind
    exact .pure ⟨.refl hi, hm⟩
  · next hfind =>
    have hnew := find?_eq_none_known hfind
    dsimp only
    split
    · exact .fail (hi.rejected _ (by rintro ⟨⟩))
    · next hlt =>
      refine .bind ((makeInstance_ensures hi hn hmem ht hlen hnew (Nat.lt_of_not_le hlt)).imp
        fun r t _ h => ?_)
      obtain ⟨ha, hdef, hcopy, hnone, hforeign, hknown, hactive, hbegin⟩ := h
      refine .bind (.andFinally ?_)
      refine Ensures.imp_both
        (hw.function ha.inv hcopy (fun hm => absurd hm hforeign) hnone hbegin) ?_ ?_
      · exact fun e u h => ⟨h.cause, ⟨h.untouched.refused, h.untouched.template⟩, h.inside⟩
      · intro _ u h
        obtain ⟨hs, hdone⟩ := h
        refine .pure ⟨?_, hs.grows.known hknown⟩
        have hall := (ha.trans hs.toAdvance (.inl rfl)).trans
          (Advance.active hs.inv (u.active.insert d.info.id (s.active.getD d.info.id 0))) (.inl rfl)
        refine { hall with begun := fun {e} he hpending => ?_, counted := fun k => ?_ }
        · have he' : Defined p u e := by
            cases he with
            | program h => exact .program h
            | copy h => exact .copy h
          rcases hdef (hs.begun he' hpending) with he | he
          · exact he
          · cases he
            exact absurd (hdone.symm.trans hpending) nofun
        · have hcounted := hs.counted k
          rw [hactive] at hcounted
          change (u.active.insert _ _).getD k 0 = _
          simp only [Std.TreeMap.getD_insert, Std.compare_eq_iff_eq] at hcounted ⊢
          split
          · next heq => rw [heq]
          · next hne => rw [hcounted, if_neg hne]

/-! ### The function that a call stands for -/

theorem selected_ensures (hw : w.Sound p stack) (hi : Inv p s) (hn : Nested p stack s)
    {name : String} {args : List Ty} {id : FuncId} {f : FuncSymbol} {score : Nat}
    (hs : Overload.select s.store.globalFuncs name args = some ((id, f), score))
    (position : Position) :
    Ensures (Rejected p) (selected w id f args position) s fun func t =>
      Step p none [] s t ∧ t.Chosen name args func ∧
        ∃ g, t.store.func? func = some g ∧ g.Callable p t := by
  obtain ⟨hm, -, haccepts⟩ := Overload.select_eq_some hs
  obtain ⟨hf, hglobal⟩ := hi.globalFuncs hm
  unfold selected
  split
  · next ht =>
    simp only [Bool.and_eq_true, Bool.not_eq_true'] at ht
    cases hglobal with
    | builtin hb => exact absurd (ht.2.symm.trans hb) nofun
    | @program d hd hmem htemplate =>
      obtain ⟨scope, hdeclares⟩ := hi.declared hf hd
      have hnames := congrArg List.length (hdeclares.params_names hf)
      have hlen := haccepts.length_eq
      simp only [FuncSymbol.paramTypes, List.length_map] at hnames hlen
      refine (instantiate_ensures hw hi hn ht.2 hd hmem (htemplate.symm.trans ht.1)
        (hlen.symm.trans hnames) hdeclares.name position).imp fun func t _ h => ?_
      obtain ⟨hstep, hknown⟩ := h
      obtain ⟨g, copy, template, hinst⟩ := hstep.inv.known hknown
      obtain ⟨f', hff', hs'⟩ := Overload.select_later (hstep.later hi).candidates hs
      refine ⟨hstep, .made hs' ?_ (hff'.decl.trans hd) hknown, g, hinst.func, hinst.callable⟩
      rw [hff'.isTemplate, hff'.isBuiltin, ht.1, ht.2]
      rfl
  · next ht =>
    have ht' : (f.isTemplate && !f.isBuiltin) = false := by simpa using ht
    refine .pure ⟨.refl hi, .plain hs ht', f, hf, ?_⟩
    exact hglobal.callable ht' fun d hd => hi.not_isBuiltin hf hd

/-- A call by name stands for the chosen function and has its result type. -/
theorem callFunction_ensures (hw : w.Sound p stack) (hi : Inv p s) (hn : Nested p stack s)
    (name : String) (args : List Ty) (position : Position) :
    Ensures (Rejected p) (callFunction w name args position) s fun r t =>
      Step p none [] s t ∧ t.Chosen name args r.1 ∧ t.Gives r.1 r.2 := by
  refine .bind (.store ?_)
  dsimp only
  split
  · exact .fail (hi.rejected _ (by rintro ⟨⟩))
  · have hselect : Overload.select (s.store.lookupFunctions name) name args =
        Overload.select s.store.globalFuncs name args := Overload.select_filter _
    rw [hselect]
    split
    · exact .fail (hi.rejected _ (by rintro ⟨⟩))
    · next id f score hs =>
      refine .bind ((selected_ensures hw hi hn hs position).imp fun func t _ h => ?_)
      obtain ⟨hst, hchosen, g, hg, hcallable⟩ := h
      refine .bind ((callResult_ensures hw hst.inv (hn.step hst) hg hcallable
        position).imp fun type u _ h => ?_)
      exact .pure ⟨hst.trans h.1, (h.1.later hst.inv).chosen hchosen, h.2⟩

/-! ### Names -/

theorem demandVariable_ensures (hw : w.Sound p stack) (hi : Inv p s) (hn : Nested p stack s)
    (handle : VarHandle) (name : String) :
    Ensures (Rejected p) (demandVariable w handle name) s fun _ t => Step p none [] s t := by
  refine .bind (.store ?_)
  split
  · unfold demandConstant
    split
    · exact .pure (.refl hi)
    · next d hd =>
      refine .bind (progress?_ensures ?_)
      split
      · exact .pure (.refl hi)
      · next hnone =>
        have hm := hw.definitionOf hd
        have hnone' : s.progress[d.info.id]? = none := by simpa using hnone
        exact (hw.constant hi hm hnone' (hn.begin (d := .constant d) hi hm hnone')).imp
          fun _ _ _ h => h.1
  · exact .pure (.refl hi)

/-- A variable used as a value has its type. -/
theorem variableType_ensures (hw : w.Sound p stack) (hi : Inv p s) (hn : Nested p stack s)
    (handle : VarHandle) (name : String) (position : Position) :
    Ensures (Rejected p) (variableType w handle name position) s fun type t =>
      Step p none [] s t ∧ ∃ v, t.store.var? handle = some v ∧ v.type = some type := by
  refine .bind ((demandVariable_ensures hw hi hn handle name).imp fun _ t _ hs => .bind (.store ?_))
  split
  · next type htype =>
    obtain ⟨v, hv, ht⟩ := Option.bind_eq_some_iff.mp htype
    exact .pure ⟨hs, v, hv, ht⟩
  · exact .fail (hs.inv.rejected _ (by rintro ⟨⟩))

/-- A name used as a value is linked to what it stands for and has its type. -/
theorem nameType_ensures (hw : w.Sound p stack) {env : Env} {scope : ScopeId} {info : NodeInfo}
    (hr : Ready p stack s env scope [info.id]) (name : String) (assigned : Bool) :
    Ensures (Rejected p) (nameType w scope info name) s fun type t =>
      Step p none [info.id] s t ∧ t.types[info.id]? = none ∧ t.Reference env info name ∧
        Typing t (.varRef info name assigned) type := by
  have hi := hr.inv
  have ho := hr.writable.owned info.id List.mem_cons_self
  have hslots := hr.writable.empty info.id List.mem_cons_self
  have hnolink : s.links[info.id]? = none := congrArg Slots.link hslots
  have hnotype : s.types[info.id]? = none := congrArg Slots.type hslots
  have hlookup := hr.env.lookupVar name
  refine .bind (.store ?_)
  dsimp only
  split
  · next handle hhandle =>
    obtain ⟨-, hnone⟩ | ⟨owner, node, handle', hfind, hlook, hd⟩ := hlookup
    · rw [hhandle] at hnone
      cases hnone
    · rw [hhandle] at hlook
      cases hlook
      refine .bind ((link_ensures hi ho hnolink hnotype _).imp fun _ t _ h => ?_)
      obtain ⟨hst, hl, htypes⟩ := h
      refine (variableType_ensures hw hst.inv (hr.nested.step hst) handle name _).imp
        fun type u _ h => ?_
      obtain ⟨hs, v, hv, ht⟩ := h
      have hslots' := hs.slots_eq hst.inv (hst.owns ho) List.not_mem_nil
      refine ⟨hst.trans hs, ?_, .ofVariable hfind (hd.grows (hst.trans hs).grows) ?_,
        .ofVariable (hs.grows.link hl) hv ht⟩
      · rw [show u.types[info.id]? = t.types[info.id]? from congrArg Slots.type hslots', htypes]
        exact hnotype
      · exact hs.grows.link hl
  · next hhandle =>
    obtain ⟨hfind, -⟩ | ⟨owner, node, handle, -, hlook, -⟩ := hlookup
    · split
      · next hn =>
        subst hn
        exact .pure ⟨(Step.refl hi).mono (List.nil_subset _), hnotype,
          .ignored hfind rfl hnolink, .ignored hnolink fun _ => rfl⟩
      · split
        · exact .fail (hi.rejected _ (by rintro ⟨⟩))
        · split
          · next id f hone =>
            have hmem : (id, f) ∈ (s.store.lookupFunctions name).filter fun c =>
                !c.2.isTemplate := by
              rw [hone]
              exact List.mem_cons_self
            obtain ⟨hmem, ht⟩ := List.mem_filter.mp hmem
            obtain ⟨hmem, hname⟩ := List.mem_filter.mp hmem
            obtain ⟨hf, hglobal⟩ := hi.globalFuncs hmem
            have ht' : (f.isTemplate && !f.isBuiltin) = false := by
              rw [show f.isTemplate = false by simpa using ht]
              rfl
            have hcallable : f.Callable p s :=
              hglobal.callable ht' fun d hd => hi.not_isBuiltin hf hd
            refine .bind ((link_ensures hi ho hnolink hnotype _).imp fun _ t _ h => ?_)
            obtain ⟨hst, hl, htypes⟩ := h
            obtain ⟨g, hg, hfg⟩ := hst.grows.store.func hf
            refine (funcValue_ensures hw hst.inv (hr.nested.step hst) hg
              (hcallable.grows hst.grows hfg) _).imp
              fun type u _ h => ?_
            obtain ⟨hs, ht⟩ := h
            have hslots' := hs.slots_eq hst.inv (hst.owns ho) List.not_mem_nil
            have hnames : s.NamesFunction name id := .global hmem (by simpa using hname)
            refine ⟨hst.trans hs, ?_, .ofFunction hfind (hs.grows.link hl) ?_,
              .ofFunction (hs.grows.link hl) ht⟩
            · rw [show u.types[info.id]? = t.types[info.id]? from congrArg Slots.type hslots',
                htypes]
              exact hnotype
            · exact ((hst.trans hs).later hi).namesFunction hnames
          · exact .fail (hi.rejected _ (by rintro ⟨⟩))
    · rw [hhandle] at hlook
      cases hlook

/-- A call by name links the name and the call to the chosen function. -/
theorem callByName_ensures (hw : w.Sound p stack) (hi : Inv p s) (hn : Nested p stack s)
    {site callee : NodeInfo} (hwr : Writable p s [callee.id, site.id]) (name : String)
    (args : List Ty) :
    Ensures (Rejected p) (callByName w site callee name args) s fun type t =>
      Step p none [callee.id, site.id] s t ∧ t.types[site.id]? = none ∧
        ∃ id, t.links[callee.id]? = some (.func id) ∧ t.links[site.id]? = some (.func id) ∧
          t.Chosen name args id ∧ t.Gives id type ∧
          ∃ shown, t.types[callee.id]? = some shown ∧ t.IsOfType id shown := by
  refine .bind ((callFunction_ensures hw hi hn name args _).imp fun r t _ h => ?_)
  obtain ⟨id, type⟩ := r
  obtain ⟨hst, hchosen, hgives⟩ := h
  have hwt : Writable p t [callee.id, site.id] := Writable.right hwr hi hst
  have hcallee := hwt.empty callee.id List.mem_cons_self
  refine .bind ((link_ensures hst.inv (hwt.owned _ List.mem_cons_self)
    (congrArg Slots.link hcallee) (congrArg Slots.type hcallee) _).imp fun _ u _ h => ?_)
  obtain ⟨hsu, hlcallee, hutypes⟩ := h
  have hwu : Writable p u [site.id] := Writable.right hwt hst.inv hsu
  have hsite := hwu.empty site.id List.mem_cons_self
  refine .bind ((link_ensures hsu.inv (hwu.owned _ List.mem_cons_self)
    (congrArg Slots.link hsite) (congrArg Slots.type hsite) _).imp fun _ v _ h => ?_)
  obtain ⟨hsv, hlsite, hvtypes⟩ := h
  have htypes : v.types = t.types := hvtypes.trans hutypes
  have hlater := (hsu.trans hsv).later hst.inv
  obtain ⟨f, hf, hresult⟩ := hlater.gives hgives
  obtain ⟨shown, hshown⟩ := FuncSymbol.type?_of_result? hresult
  have hvcallee : v.types[callee.id]? = none := by
    rw [htypes]
    exact congrArg Slots.type hcallee
  have hocallee : Owned p v callee.id :=
    hsv.owns (hsu.owns (hwt.owned _ List.mem_cons_self))
  refine .bind (.bind (func_ensures hf ?_))
  rw [hshown]
  have hunderstood : v.Understood callee.id :=
    .of_isOfType (hsv.grows.link hlcallee) ⟨f, hf, hshown⟩
  refine (setType_ensures hsv.inv hocallee hvcallee hunderstood shown).imp fun _ x _ h => ?_
  obtain ⟨hsx, hshowncallee, hlinks⟩ := h
  have hsite' : site.id ∉ [callee.id] := fun hm =>
    (List.nodup_cons.mp hwt.nodup).1 (List.mem_singleton.mp hm ▸ List.mem_cons_self)
  have hslots := hsx.slots_eq hsv.inv (hsv.owns (hwu.owned _ List.mem_cons_self)) hsite'
  have hall := hst.trans (hsu.trans (hsv.trans hsx))
  refine .pure ⟨hall.mono ?_, ?_, id, ?_, ?_, ?_, ?_, shown, hshowncallee, ?_⟩
  · intro n hn
    simp only [List.nil_append, List.cons_append, List.mem_cons, List.not_mem_nil] at hn ⊢
    tauto
  · rw [show x.types[site.id]? = v.types[site.id]? from congrArg Slots.type hslots, hvtypes]
    exact congrArg Slots.type hsite
  · exact hsx.grows.link (hsv.grows.link hlcallee)
  · exact hsx.grows.link hlsite
  · exact (hsx.later hsv.inv).chosen (hlater.chosen hchosen)
  · exact (hsx.later hsv.inv).gives (hlater.gives hgives)
  · exact (hsx.later hsv.inv).isOfType ⟨f, hf, hshown⟩

end Check

end Frontend
