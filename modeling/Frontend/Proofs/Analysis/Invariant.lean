import Frontend.Proofs.Scoping.Assignment

/-!
# The invariant of the analysis

What holds of the state between any two steps of the second pass. The definitions at hand have
pairwise different ids; nothing is known of a body before its definition is begun, and all its
sites are resolved, and its assignments have admissible targets, once its definition is done; each
function has one symbol and one scope; where an expression with a type stands for a function, the
type of the function is known; instances are recorded once. `Inv.carry` is the one place where the
invariant is carried over to a later state.
-/

namespace Frontend

/-- The definitions at hand: those of the program and the copies of templates. -/
inductive Defined (p : Program) (s : AnalysisState) : Definition → Prop
  | program {d : Definition} (h : d ∈ p.definitions) : Defined p s d
  | copy {template : Nat} {c : FuncDef} (h : c ∈ s.copies.getD template #[]) :
    Defined p s (.function c)

/-- A node of a definition whose analysis has not been begun. -/
def Pending (p : Program) (s : AnalysisState) (node : Nat) : Prop :=
  ∃ d, Defined p s d ∧ s.progress[d.info.id]? = none ∧ node ∈ d.ids

/-- A node in the body of a definition that is under analysis. -/
def Owned (p : Program) (s : AnalysisState) (node : Nat) : Prop :=
  ∃ d, Defined p s d ∧ s.progress[d.info.id]? = some .inProgress ∧ node ∈ d.bodyIds

/-- A function symbol and a scope belong to a definition. -/
structure Declares (s : AnalysisState) (id : FuncId) (f : FuncSymbol) (d : FuncDef)
    (scope : ScopeId) : Prop where
  func : s.store.scopeFuncId? scope = some id
  isBuiltin : f.isBuiltin = false
  kind : f.kind = d.kind
  name : f.name = d.name
  layer : d.layer.Matches s scope

/-- A function that calls can select: a builtin one, or one of the program. -/
inductive FuncSymbol.IsGlobal (p : Program) (f : FuncSymbol) : Prop
  | builtin (h : f.isBuiltin = true) (ret : f.kind = .proc ∨ f.ret.isSome)
  | program {d : FuncDef} (decl : f.decl = some d) (mem : .function d ∈ p.definitions)
    (isTemplate : f.isTemplate = d.isTemplate)

/-- A recorded instance, its symbol, and the copy it was made as of a template. -/
structure Instantiates (p : Program) (s : AnalysisState) (i : Instance) (f : FuncSymbol)
    (copy template : FuncDef) : Prop where
  func : s.store.func? i.func = some f
  decl : f.decl = some copy
  types : f.paramTypes = i.args
  key : i.template = template.info.id
  copied : copy ∈ s.copies.getD template.info.id #[]
  source : .function template ∈ p.definitions
  isTemplate : template.isTemplate = true
  name : copy.name = template.name
  foreign : .function copy ∉ p.definitions

/-- Every site of a definition is resolved. -/
def Analysed (p : Program) (s : AnalysisState) (d : Definition) : Prop :=
  ∀ site ∈ d.sites p, site.id ∈ d.ids ∧ site.Resolved s

/-- Where a node stands for a function, the type of the function is known. -/
def AnalysisState.Understood (s : AnalysisState) (node : Nat) : Prop :=
  ∀ id, s.links[node]? = some (.func id) → ∃ type, s.IsOfType id type

namespace AnalysisState.Understood

variable {s : AnalysisState} {node : Nat}

theorem of_empty (h : s.slots node = .empty) : s.Understood node := fun _ hl => by
  cases (congrArg Slots.link h).symm.trans hl

theorem of_isOfType {id : FuncId} {type : Ty} (hl : s.links[node]? = some (.func id))
    (ht : s.IsOfType id type) : s.Understood node := fun _ hl' => by
  cases hl.symm.trans hl'
  exact ⟨type, ht⟩

end AnalysisState.Understood

/-- What holds between any two steps of the second pass. -/
structure Inv (p : Program) (s : AnalysisState) : Prop where
  nodup : ∀ {d}, Defined p s d → d.ids.Nodup
  bounded : ∀ {d node}, Defined p s d → node ∈ d.ids → node < s.nextId
  disjoint : ∀ {d e node}, Defined p s d → Defined p s e → node ∈ d.ids → node ∈ e.ids → d = e
  shaped : ∀ {d}, Defined p s d → d.WellShaped
  unused : ∀ {node}, s.nextId ≤ node → s.slots node = .empty
  empty : ∀ {d node}, Defined p s d → s.progress[d.info.id]? = none → node ∈ d.bodyIds →
    s.slots node = .empty
  template : ∀ {d : FuncDef}, .function d ∈ p.definitions → d.isTemplate = true →
    s.progress[d.info.id]? = none
  analysed : ∀ {d}, Defined p s d → s.progress[d.info.id]? = some .done → Analysed p s d
  assigned : ∀ {d}, Defined p s d → s.progress[d.info.id]? = some .done → Assigned s d
  fixed : s.store.Fixed
  refused : s.refused = []
  linked : ∀ {scope id}, s.store.scopeFuncId? scope = some id → (s.store.func? id).isSome
  declared : ∀ {id f d}, s.store.func? id = some f → f.decl = some d →
    ∃ scope, Declares s id f d scope
  homed : ∀ {d}, Defined p s (.function d) → ∃ id f scope, s.store.func? id = some f ∧
    f.decl = some d ∧ Declares s id f d scope ∧
      s.store.chain scope = [scope, Store.globalScope]
  functions : ∀ {id}, id ∈ s.store.functions → ∃ f, s.store.func? id = some f ∧ f.IsGlobal p
  known : ∀ {i}, i ∈ s.known → ∃ f copy template, Instantiates p s i f copy template
  copied : ∀ {k c}, c ∈ s.copies.getD k #[] →
    ∃ i ∈ s.known, ∃ f template, i.template = k ∧ Instantiates p s i f c template
  unique : ∀ {i j}, i ∈ s.known → j ∈ s.known → i.template = j.template → i.args = j.args → i = j
  settled : ∀ {id f d}, Defined p s (.function d) → s.store.func? id = some f →
    f.decl = some d → s.progress[d.info.id]? = some .done → f.kind.returnsValue = true →
      f.ret.isSome
  understood : ∀ {node}, (s.types[node]?).isSome → s.Understood node
  global : ∃ blocks, s.store.scopes[Store.globalScope]? = some ⟨.global, [], blocks⟩
  constants : p.layer.Matches s Store.globalScope
  outer : ∀ {id o : ScopeId} {a : Scope}, s.store.scopes[id]? = some a → o ∈ a.outer → o < id

/-! ### Ids of definitions -/

/-- The ids of nodes are among those of the nodes and their parts. -/
theorem heads_sublist {α : Type} {head : α → Nat} {all : α → List Nat}
    (h : ∀ a, [head a].Sublist (all a)) (as : List α) :
    (as.map head).Sublist (as.flatMap all) := by
  induction as with
  | nil => exact List.Sublist.refl []
  | cons a rest ih =>
    rw [List.map_cons, List.flatMap_cons]
    exact (h a).append ih

theorem Param.head_sublist (q : Param) : [q.info.id].Sublist q.ids :=
  (List.nil_sublist _).cons_cons q.info.id

theorem VarDecl.head_sublist (d : VarDecl) : [d.info.id].Sublist d.ids :=
  (List.nil_sublist _).cons_cons d.info.id

theorem ConstDecl.head_sublist (d : ConstDecl) : [d.info.id].Sublist d.ids :=
  (List.nil_sublist _).cons_cons d.info.id

namespace Definition

theorem info_mem_ids (d : Definition) : d.info.id ∈ d.ids := by
  cases d with
  | function d =>
    obtain ⟨info, _, _, _, _, _, _⟩ := d
    simp [ids, FuncDef.ids, Definition.info]
  | constant d => simp [ids, ConstDef.ids, Definition.info]

theorem mem_ids_of_mem_bodyIds {d : Definition} {node : Nat} (h : node ∈ d.bodyIds) :
    node ∈ d.ids := by
  cases d with
  | function d =>
    obtain ⟨info, _, _, _, _, _, _⟩ := d
    simp only [bodyIds, List.mem_append] at h
    simp only [ids, FuncDef.ids, List.mem_cons, List.mem_append]
    tauto
  | constant d =>
    simp only [bodyIds] at h
    simp only [ids, ConstDef.ids, List.mem_cons, List.mem_append]
    tauto

theorem nodup_bodyIds {d : Definition} (h : d.ids.Nodup) : d.bodyIds.Nodup := by
  cases d with
  | function d =>
    obtain ⟨info, _, _, _, _, _, _⟩ := d
    simp only [ids, FuncDef.ids, List.nodup_cons, List.append_assoc] at h
    exact (List.nodup_append.mp (List.nodup_append.mp h.2).2.1).2.1
  | constant d =>
    simp only [ids, ConstDef.ids, List.nodup_cons] at h
    exact (List.nodup_append.mp h.2).2.1

theorem info_not_mem_bodyIds {d : Definition} (h : d.ids.Nodup) : d.info.id ∉ d.bodyIds := by
  intro hm
  cases d with
  | function d =>
    obtain ⟨info, _, _, _, _, _, _⟩ := d
    simp only [ids, FuncDef.ids, List.nodup_cons, List.mem_append] at h
    simp only [bodyIds, List.mem_append, Definition.info] at hm
    tauto
  | constant d =>
    simp only [ids, ConstDef.ids, List.nodup_cons, List.mem_append] at h
    simp only [bodyIds, Definition.info] at hm
    tauto

end Definition

/-! ### Growth of what the invariant speaks of -/

theorem Defined.grows {p q : Program} {s t : AnalysisState} (hg : s.Grows t)
    (hp : ∀ d ∈ p.definitions, d ∈ q.definitions) {d : Definition} (h : Defined p s d) :
    Defined q t d := by
  cases h with
  | program h => exact .program (hp _ h)
  | copy h => exact .copy (hg.copies h)

namespace Store.Grows

variable {s t : Store}

theorem isFunction_body (h : s.Grows t) {id : ScopeId} {f : FuncId}
    (hf : s.scopeFuncId? id = some f) :
    (∃ o b, s.scopes[id]? = some ⟨.function (some f), o, b⟩) ∧
      ∃ o b, t.scopes[id]? = some ⟨.function (some f), o, b⟩ := by
  unfold Store.scopeFuncId? at hf
  split at hf
  · next heq =>
    subst hf
    refine ⟨⟨_, _, heq⟩, ?_⟩
    obtain ⟨⟨body, outer, blocks⟩, hb, hab⟩ := h.scope heq
    have hbody := hab.body
    cases hbody
    exact ⟨outer, blocks, hb⟩
  · cases hf

/-- The parameters of a function keep their names and handles. -/
theorem namesIn_function (h : s.Grows t) {id : ScopeId} {f : FuncId} {symbol : FuncSymbol}
    (hf : s.scopeFuncId? id = some f) (hs : s.func? f = some symbol) :
    t.namesIn id = s.namesIn id ∧ t.handleIn id = s.handleIn id := by
  obtain ⟨⟨o, b, hsc⟩, o', b', hsc'⟩ := h.isFunction_body hf
  obtain ⟨g, hg, hfg⟩ := h.func hs
  have hs' : s.scopeFunc? id = some symbol := by rw [Store.scopeFunc?, hf]; exact hs
  have ht' : t.scopeFunc? id = some g := by rw [Store.scopeFunc?, h.scopeFuncId? hf]; exact hg
  refine ⟨?_, ?_⟩
  · simp only [Store.namesIn, hsc, hsc', hs', ht', Option.map_some, hfg.params]
  · funext i
    simp only [Store.handleIn, hsc, hsc']

/-- The constants keep their names as long as there are no more of them. -/
theorem constants_names (h : s.Grows t) (hc : t.constants.size = s.constants.size) :
    t.constants.toList.map (·.name) = s.constants.toList.map (·.name) := by
  refine List.ext_getElem? fun i => ?_
  simp only [List.getElem?_map, Array.getElem?_toList]
  cases hv : s.constants[i]? with
  | none =>
    have hi : s.constants.size ≤ i := Array.getElem?_eq_none_iff.mp hv
    rw [Array.getElem?_eq_none_iff.mpr (by omega)]
  | some v =>
    obtain ⟨w, hw, hvw⟩ := h.constant hv
    simp only [hw, Option.map_some, hvw.name]

/-- A scope whose own body has stayed the same declares the same names. -/
theorem namesIn_kept (h : s.Grows t) (hc : t.constants.size = s.constants.size) {id : ScopeId}
    {a b : Scope} (ha : s.scopes[id]? = some a) (hb : t.scopes[id]? = some b)
    (hab : b.body = a.body) (hf : ∀ f, s.scopeFuncId? id = some f → (s.func? f).isSome) :
    t.namesIn id = s.namesIn id ∧ t.handleIn id = s.handleIn id := by
  obtain ⟨body, outer, blocks⟩ := a
  obtain ⟨body', outer', blocks'⟩ := b
  cases hab
  have hhandle : t.handleIn id = s.handleIn id := by
    funext i
    simp only [Store.handleIn, ha, hb]
    cases body <;> rfl
  refine ⟨?_, hhandle⟩
  cases body with
  | global => simp only [Store.namesIn, ha, hb, h.constants_names hc]
  | function f =>
    cases f with
    | none =>
      have hs : s.scopeFunc? id = none := by simp [Store.scopeFunc?, Store.scopeFuncId?, ha]
      have ht : t.scopeFunc? id = none := by simp [Store.scopeFunc?, Store.scopeFuncId?, hb]
      simp only [Store.namesIn, ha, hb, hs, ht]
    | some f =>
      have hid : s.scopeFuncId? id = some f := by simp [Store.scopeFuncId?, ha]
      obtain ⟨symbol, hsym⟩ := Option.isSome_iff_exists.mp (hf f hid)
      exact (h.namesIn_function hid hsym).1
  | block vars => simp only [Store.namesIn, ha, hb]

end Store.Grows

/-- A layer is matched by the same scope as long as the scope declares the same names. -/
theorem Layer.Matches.grows {s t : AnalysisState} {l : Layer} {id : ScopeId}
    (h : l.Matches s id)
    (hlink : ∀ {node : Nat} {target : Link}, s.links[node]? = some target →
      t.links[node]? = some target)
    (hscope : ∀ {node : Nat} {id : ScopeId}, s.scopes[node]? = some id →
      t.scopes[node]? = some id)
    (hn : t.store.namesIn id = s.store.namesIn id ∧ t.store.handleIn id = s.store.handleIn id) :
    l.Matches t id where
  owner hl := hscope (h.owner hl)
  root hl := h.root hl
  home i := by rw [hn.2]; exact h.home i
  names := hn.1.trans h.names
  links hi := by rw [hn.2]; exact hlink (h.links hi)

theorem Declares.grows {s t : AnalysisState} {id : FuncId} {f g : FuncSymbol} {d : FuncDef}
    {scope : ScopeId} (h : Declares s id f d scope) (hs : s.store.Grows t.store)
    (hlink : ∀ {node : Nat} {target : Link}, s.links[node]? = some target →
      t.links[node]? = some target)
    (hscope : ∀ {node : Nat} {id : ScopeId}, s.scopes[node]? = some id →
      t.scopes[node]? = some id)
    (hf : s.store.func? id = some f) (hfg : f.Grows g) : Declares t id g d scope where
  func := hs.scopeFuncId? h.func
  isBuiltin := hfg.isBuiltin.trans h.isBuiltin
  kind := hfg.kind.trans h.kind
  name := hfg.name.trans h.name
  layer := h.layer.grows hlink hscope (hs.namesIn_function h.func hf)

theorem Instantiates.grows {p : Program} {s t : AnalysisState} (hg : s.Grows t) {i : Instance}
    {f : FuncSymbol} {copy template : FuncDef} (h : Instantiates p s i f copy template) :
    ∃ g, f.Grows g ∧ Instantiates p t i g copy template := by
  obtain ⟨g, hfunc, hfg⟩ := hg.store.func h.func
  exact ⟨g, hfg, hfunc, hfg.decl.trans h.decl, hfg.paramTypes.trans h.types, h.key,
    hg.copies h.copied, h.source, h.isTemplate, h.name, h.foreign⟩

theorem FuncSymbol.IsGlobal.grows {p q : Program} {f g : FuncSymbol} (h : f.IsGlobal p)
    (hp : ∀ d ∈ p.definitions, d ∈ q.definitions) (hfg : f.Grows g) : g.IsGlobal q := by
  cases h with
  | builtin h ret =>
    refine .builtin (hfg.isBuiltin.trans h) (ret.imp hfg.kind.trans fun hr => ?_)
    obtain ⟨type, ht⟩ := Option.isSome_iff_exists.mp hr
    exact Option.isSome_iff_exists.mpr ⟨type, hfg.ret ht⟩
  | program decl mem ht => exact .program (hfg.decl.trans decl) (hp _ mem) (hfg.isTemplate.trans ht)

namespace Inv

variable {p q : Program} {s t : AnalysisState}

/-- A node in a body under analysis is not pending. -/
theorem not_pending (hi : Inv p s) {node : Nat} (ho : Owned p s node) : ¬ Pending p s node := by
  rintro ⟨e, he, hnone, hm⟩
  obtain ⟨d, hd, hprogress, hb⟩ := ho
  have hde := hi.disjoint hd he (Definition.mem_ids_of_mem_bodyIds hb) hm
  rw [hde, hnone] at hprogress
  cases hprogress

theorem lt_nextId (hi : Inv p s) {node : Nat} (ho : Owned p s node) : node < s.nextId := by
  obtain ⟨d, hd, _, hb⟩ := ho
  exact hi.bounded hd (Definition.mem_ids_of_mem_bodyIds hb)

/-- What a node stands for is still understood where nothing is written to the node. -/
theorem understood_of_slots (hi : Inv p s) (hg : s.store.Grows t.store) {node : Nat}
    (hslots : t.slots node = s.slots node) (ht : (t.types[node]?).isSome) : t.Understood node := by
  intro id hl
  have ht' : (s.types[node]?).isSome := by
    rwa [show s.types[node]? = t.types[node]? from (congrArg Slots.type hslots).symm]
  obtain ⟨type, h⟩ := hi.understood ht' id ((congrArg Slots.link hslots).symm.trans hl)
  exact ⟨type, h.grows hg⟩

/-- A definition has one symbol. -/
theorem id_eq_of_decl (hi : Inv p s) {id id' : FuncId} {f f' : FuncSymbol} {d : FuncDef}
    (hf : s.store.func? id = some f) (hd : f.decl = some d)
    (hf' : s.store.func? id' = some f') (hd' : f'.decl = some d) : id = id' := by
  obtain ⟨scope, h⟩ := hi.declared hf hd
  obtain ⟨scope', h'⟩ := hi.declared hf' hd'
  have hs := h.layer.owner rfl
  have hs' := h'.layer.owner rfl
  rw [hs] at hs'
  cases hs'
  exact Option.some.inj (h.func.symm.trans h'.func)

theorem eq_of_decl (hi : Inv p s) {id id' : FuncId} {f f' : FuncSymbol} {d : FuncDef}
    (hf : s.store.func? id = some f) (hd : f.decl = some d)
    (hf' : s.store.func? id' = some f') (hd' : f'.decl = some d) : f = f' := by
  have hid := hi.id_eq_of_decl hf hd hf' hd'
  rw [hid, hf'] at hf
  exact (Option.some.inj hf).symm

/-- The scopes around a scope exist. -/
theorem scope_of_mem_chain (hi : Inv p s) {id o : ScopeId} (h : o ∈ s.store.chain id) :
    ∃ a, s.store.scopes[o]? = some a := by
  unfold Store.chain at h
  split at h
  · next a ha =>
    rcases List.mem_cons.mp h with rfl | ho
    · exact ⟨a, ha⟩
    · have hlt := hi.outer ha ho
      have hsize : id < s.store.scopes.size := (Array.getElem?_eq_some_iff.mp ha).1
      exact ⟨_, Array.getElem?_eq_getElem (Nat.lt_trans hlt hsize)⟩
  · cases h

/-- The global functions are found at a later moment. -/
theorem later (hi : Inv p s) (hg : s.Grows t) (hf : t.store.functions = s.store.functions) :
    s.Later t where
  grows := hg
  candidates := by
    unfold Store.globalFuncs
    rw [hf]
    have hmem : ∀ id ∈ s.store.functions.toList, ∃ f, s.store.func? id = some f := by
      intro id hid
      obtain ⟨f, hf, -⟩ := hi.functions (Array.mem_toList_iff.mp hid)
      exact ⟨f, hf⟩
    generalize s.store.functions.toList = ids at hmem
    induction ids with
    | nil => exact .nil
    | cons id rest ih =>
      obtain ⟨f, hf⟩ := hmem id List.mem_cons_self
      obtain ⟨g, hg', hfg⟩ := hg.store.func hf
      rw [List.filterMap_cons, List.filterMap_cons, hf, hg']
      exact .cons ⟨rfl, hfg⟩ (ih fun id hid => hmem id (List.mem_cons_of_mem _ hid))

end Inv

/-- A definition that has just been added. -/
structure Newcomer (p : Program) (s t : AnalysisState) (d : Definition) : Prop where
  nodup : d.ids.Nodup
  bounded : ∀ {node}, node ∈ d.ids → node < t.nextId
  apart : ∀ {e node}, Defined p s e → node ∈ d.ids → node ∉ e.ids
  shaped : d.WellShaped
  begun : t.progress[d.info.id]? = none
  empty : ∀ {node}, node ∈ d.bodyIds → t.slots node = .empty
  homed : ∀ {f : FuncDef}, d = .function f → ∃ id g scope, t.store.func? id = some g ∧
    g.decl = some f ∧ Declares t id g f scope ∧ t.store.chain scope = [scope, Store.globalScope]

namespace Inv

variable {p q : Program} {s t : AnalysisState}

/-- The invariant carries over to a later state, in which one definition may be new. -/
theorem carry (hi : Inv p s) (hg : s.Grows t) (new : Option Definition)
    (hp : ∀ d ∈ p.definitions, d ∈ q.definitions)
    (hdef : ∀ {d}, Defined q t d → Defined p s d ∨ new = some d)
    (hnew : ∀ {d}, new = some d → Newcomer p s t d)
    (hnext : s.nextId ≤ t.nextId) (hrefused : t.refused = s.refused)
    (hunused : ∀ {node}, t.nextId ≤ node → t.slots node = s.slots node)
    (hlinked : ∀ {scope id}, t.store.scopeFuncId? scope = some id → (t.store.func? id).isSome)
    (hdeclared : ∀ {id g d}, t.store.func? id = some g → g.decl = some d →
      s.store.func? id = none → ∃ scope, Declares t id g d scope)
    (hfunctions : ∀ {id}, id ∈ t.store.functions → id ∈ s.store.functions ∨
      ∃ f, t.store.func? id = some f ∧ f.IsGlobal q)
    (hknown : ∀ {i}, i ∈ t.known → ∃ f copy template, Instantiates q t i f copy template)
    (hcopied : ∀ {k c}, c ∈ t.copies.getD k #[] →
      ∃ i ∈ t.known, ∃ f template, i.template = k ∧ Instantiates q t i f c template)
    (hunique : ∀ {i j}, i ∈ t.known → j ∈ t.known → i.template = j.template →
      i.args = j.args → i = j)
    (hempty : ∀ {d node}, Defined p s d → t.progress[d.info.id]? = none → node ∈ d.bodyIds →
      t.slots node = s.slots node)
    (htemplate : ∀ {d : FuncDef}, .function d ∈ q.definitions → d.isTemplate = true →
      t.progress[d.info.id]? = none)
    (hanalysed : ∀ {d}, Defined p s d → t.progress[d.info.id]? = some .done → Analysed q t d)
    (hassigned : ∀ {d}, Defined p s d → t.progress[d.info.id]? = some .done → Assigned t d)
    (hfixed : t.store.Fixed)
    (hsettled : ∀ {id f d}, Defined q t (.function d) → t.store.func? id = some f →
      f.decl = some d → t.progress[d.info.id]? = some .done → f.kind.returnsValue = true →
      f.ret.isSome)
    (hunderstood : ∀ {node}, (t.types[node]?).isSome → t.Understood node)
    (hconstants : q.layer.Matches t Store.globalScope)
    (houter : ∀ {id o : ScopeId} {a : Scope}, t.store.scopes[id]? = some a → o ∈ a.outer →
      o < id) : Inv q t where
  nodup hd := by
    rcases hdef hd with hd | hd
    · exact hi.nodup hd
    · exact (hnew hd).nodup
  bounded hd hm := by
    rcases hdef hd with hd | hd
    · exact Nat.lt_of_lt_of_le (hi.bounded hd hm) hnext
    · exact (hnew hd).bounded hm
  disjoint hd he hm hm' := by
    rcases hdef hd with hd | hd <;> rcases hdef he with he | he
    · exact hi.disjoint hd he hm hm'
    · exact absurd hm ((hnew he).apart hd hm')
    · exact absurd hm' ((hnew hd).apart he hm)
    · exact Option.some.inj (hd.symm.trans he)
  shaped hd := by
    rcases hdef hd with hd | hd
    · exact hi.shaped hd
    · exact (hnew hd).shaped
  unused hn := by
    rw [hunused hn]
    exact hi.unused (Nat.le_trans hnext hn)
  empty hd hprogress hm := by
    rcases hdef hd with hd | hd
    · rw [hempty hd hprogress hm]
      exact hi.empty hd (hg.progress_eq_none hprogress) hm
    · exact (hnew hd).empty hm
  template := htemplate
  analysed hd hprogress := by
    rcases hdef hd with hd | hd
    · exact hanalysed hd hprogress
    · rw [(hnew hd).begun] at hprogress
      cases hprogress
  assigned hd hprogress := by
    rcases hdef hd with hd | hd
    · exact hassigned hd hprogress
    · rw [(hnew hd).begun] at hprogress
      cases hprogress
  fixed := hfixed
  refused := hrefused.trans hi.refused
  linked := hlinked
  declared {id g d} hf hd := by
    cases hs : s.store.func? id with
    | none => exact hdeclared hf hd hs
    | some f =>
      obtain ⟨g', hg', hfg⟩ := hg.store.func hs
      rw [hf] at hg'
      cases hg'
      obtain ⟨scope, hdecl⟩ := hi.declared hs (hfg.decl.symm.trans hd)
      exact ⟨scope, hdecl.grows hg.store hg.link hg.scope hs hfg⟩
  homed hd := by
    rcases hdef hd with hd | hd
    · obtain ⟨id, f, scope, hf, hd', hdecl, hchain⟩ := hi.homed hd
      obtain ⟨g, hg', hfg⟩ := hg.store.func hf
      obtain ⟨⟨o, b, hsc⟩, _⟩ := hg.store.isFunction_body hdecl.func
      exact ⟨id, g, scope, hg', hfg.decl.trans hd',
        hdecl.grows hg.store hg.link hg.scope hf hfg, (hg.store.chain_eq hsc).trans hchain⟩
    · exact (hnew hd).homed rfl
  functions hm := by
    rcases hfunctions hm with hm | hm
    · obtain ⟨f, hf, hglob⟩ := hi.functions hm
      obtain ⟨g, hg', hfg⟩ := hg.store.func hf
      exact ⟨g, hg', hglob.grows hp hfg⟩
    · exact hm
  known := hknown
  copied := hcopied
  unique := hunique
  settled := hsettled
  understood := hunderstood
  global := by
    obtain ⟨blocks, hb⟩ := hi.global
    obtain ⟨⟨body, outer, blocks'⟩, hb', hbody, houter⟩ := hg.store.scope hb
    cases hbody
    cases houter
    exact ⟨blocks', hb'⟩
  constants := hconstants
  outer := houter

/-- The invariant carries over when only definitions under analysis are written to. -/
theorem advance (hi : Inv p s) (hg : s.Grows t) (hcopies : t.copies = s.copies)
    (hknown : t.known = s.known) (hnext : t.nextId = s.nextId) (hrefused : t.refused = s.refused)
    (hfunctions : t.store.functions = s.store.functions)
    (hconstants : t.store.constants.size = s.store.constants.size)
    (hunused : ∀ {node}, s.nextId ≤ node → t.slots node = s.slots node)
    (hlinked : ∀ {scope id}, t.store.scopeFuncId? scope = some id → (t.store.func? id).isSome)
    (hdeclared : ∀ {id g d}, t.store.func? id = some g → g.decl = some d →
      s.store.func? id = none → ∃ scope, Declares t id g d scope)
    (hframe : ∀ {d node}, Defined p s d → s.progress[d.info.id]? ≠ some .inProgress →
      node ∈ d.ids → t.slots node = s.slots node)
    (hrunning : ∀ {d}, Defined p s d → s.progress[d.info.id]? = some .inProgress →
      t.progress[d.info.id]? = some .inProgress)
    (hsettled : ∀ {id f d}, Defined p s (.function d) → t.store.func? id = some f →
      f.decl = some d → t.progress[d.info.id]? = some .done → f.kind.returnsValue = true →
      f.ret.isSome)
    (hunderstood : ∀ {node}, (t.types[node]?).isSome → t.Understood node)
    (houter : ∀ {id o : ScopeId} {a : Scope}, t.store.scopes[id]? = some a → o ∈ a.outer →
      o < id) : Inv p t := by
  have hprogress : ∀ {d}, Defined p s d → t.progress[d.info.id]? = s.progress[d.info.id]? := by
    intro d hd
    by_cases hin : s.progress[d.info.id]? = some .inProgress
    · rw [hin]
      exact hrunning hd hin
    · exact congrArg Slots.progress (hframe hd hin d.info_mem_ids)
  have hdef : ∀ {d}, Defined p t d → Defined p s d := by
    intro d hd
    cases hd with
    | program h => exact .program h
    | copy h => exact .copy (by rw [← hcopies]; exact h)
  refine hi.carry hg none (fun _ => id) (fun hd => .inl (hdef hd)) nofun (Nat.le_of_eq hnext.symm)
    hrefused (fun hn => hunused (by rw [← hnext]; exact hn)) hlinked hdeclared ?_ ?_ ?_ ?_ ?_ ?_ ?_
    ?_ (hi.fixed.grows hg.store hconstants) (fun hd => hsettled (hdef hd)) hunderstood ?_ houter
  · intro id hm
    left
    rw [← hfunctions]
    exact hm
  · intro i hm
    rw [hknown] at hm
    obtain ⟨f, copy, template, h⟩ := hi.known hm
    obtain ⟨g, _, h'⟩ := h.grows hg
    exact ⟨g, copy, template, h'⟩
  · intro k c hm
    rw [hcopies] at hm
    obtain ⟨i, him, f, template, hk, h⟩ := hi.copied hm
    obtain ⟨g, _, h'⟩ := h.grows hg
    exact ⟨i, by rw [hknown]; exact him, g, template, hk, h'⟩
  · rw [hknown]
    exact hi.unique
  · intro d node hd hnone hm
    rw [hprogress hd] at hnone
    exact hframe hd (by rw [hnone]; nofun) (Definition.mem_ids_of_mem_bodyIds hm)
  · intro d hd ht
    exact (hprogress (.program hd)).trans (hi.template hd ht)
  · intro d hd hdone site hm
    rw [hprogress hd] at hdone
    obtain ⟨hid, hr⟩ := hi.analysed hd hdone site hm
    have hslots := hframe hd (by rw [hdone]; nofun) hid
    exact ⟨hid, (hi.later hg hfunctions).resolved (congrArg Slots.link hslots) hr⟩
  · intro d hd hdone e hm
    rw [hprogress hd] at hdone
    obtain ⟨hid, hassignable⟩ := hi.assigned hd hdone e hm
    have hslots := hframe hd (by rw [hdone]; nofun) hid
    exact ⟨hid, hassignable.grows hg (congrArg Slots.link hslots)⟩
  · obtain ⟨blocks, hb⟩ := hi.global
    obtain ⟨⟨body, outer, blocks'⟩, hb', hbody, houter'⟩ := hg.store.scope hb
    cases hbody
    exact hi.constants.grows hg.link hg.scope
      (hg.store.namesIn_kept hconstants hb hb' rfl fun f => hi.linked)

end Inv

end Frontend
