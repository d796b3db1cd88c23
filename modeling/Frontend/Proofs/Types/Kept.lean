import Frontend.Proofs.Ids.Numbered
import Frontend.Proofs.Types.Proper

/-!
# What the analysis keeps of its types

`AnalysisState.Kept` holds between any two steps, and also where the analysis gives up: the symbols
have proper types but for the placeholders of templates and builtin functions, no scope of a
template is ever entered, the type of a node is proper unless a builtin function is called there,
and nodes and placeholders have ids of their own. `AnalysisState.Roster` says that the lists of instances and of copies record the same. Both
are carried over to later states, which only add to what is there.
-/

namespace Frontend

/-! ### Symbols and scopes without placeholders -/

namespace Store

/-- A function without a placeholder among its parameters. -/
def IsConcrete (s : Store) (id : FuncId) : Prop := ∃ f, s.func? id = some f ∧ f.isTemplate = false

/-- A scope that is not the scope of a template. -/
def Plain (s : Store) (id : ScopeId) : Prop :=
  ∃ a, s.scopes[id]? = some a ∧ ∀ func, a.body = .function (some func) → s.IsConcrete func

/-- A scope that does not lie in a template. -/
structure Concrete (s : Store) (scope : ScopeId) : Prop where
  opened : ∃ a, s.scopes[scope]? = some a
  plain : ∀ o ∈ s.chain scope, s.Plain o

/-- A variable that is no parameter of a template. -/
def Sound (s : Store) : VarHandle → Prop
  | .param scope _ => s.Plain scope
  | _ => True

/-- A variable of a block. -/
def HasLocal (s : Store) (v : VarSymbol) : Prop :=
  ∃ (id : ScopeId) (vars : Array VarSymbol) (outer : List ScopeId) (blocks : Array ScopeId),
    s.scopes[id]? = some ⟨.block vars, outer, blocks⟩ ∧ v ∈ vars

/-- The symbol of a definition. -/
def IsSymbolOf (s : Store) (id : FuncId) (d : FuncDef) : Prop :=
  ∃ f, s.func? id = some f ∧ f.decl = some d

end Store

/-- A variable has a type, and that is proper. -/
def VarSymbol.Typed (v : VarSymbol) : Prop := ∃ type, v.type = some type ∧ type.Proper

/-! ### What is kept -/

/-- A node plays a role in the definitions at hand. -/
def Plays (p : Program) (s : AnalysisState) (role : Role) (node : Nat) : Prop :=
  ∃ d, Defined p s d ∧ (role, node) ∈ d.roles

/-- A function whose parts are regular, with roles that they play in the definitions at hand. -/
structure FuncDef.Readable (p : Program) (l : Terrain) (s : AnalysisState) (d : FuncDef) :
    Prop where
  place : l.place d.info.span.start
  regular : ∃ plays, d.Regular ⟨l, plays⟩ ∧ ∀ role node, plays role node → Plays p s role node

/-- The symbol of a function is that of its definition, and its types are proper but for the
placeholders of a template or a builtin function. -/
structure FuncSymbol.Kept (p : Program) (l : Terrain) (s : AnalysisState) (f : FuncSymbol) :
    Prop where
  ret : HintProper f.ret
  params : ∀ v ∈ f.params, ∃ type, v.type = some type ∧ (type.Proper ∨ type.isTemplate = true)
  template : f.isTemplate = true →
    f.isBuiltin = true ∨ ∃ d, f.decl = some d ∧ d.isTemplate = true
  readable : ∀ d, f.decl = some d → d.Readable p l s
  free : ∀ d, f.decl = some d → f.isTemplate = true ∨ l.free d.info.id

namespace AnalysisState

/-- A node stands for a builtin function and has its type. -/
def IsBuiltin (s : AnalysisState) (node : Nat) (type : Ty) : Prop :=
  ∃ id f, s.links[node]? = some (.func id) ∧ s.store.func? id = some f ∧ f.isBuiltin = true ∧
    f.type? = some type

/-- What the analysis keeps between any two steps and when it gives up. -/
structure Kept (p : Program) (l : Terrain) (s : AnalysisState) : Prop where
  func : ∀ {id f}, s.store.func? id = some f → f.Kept p l s
  constant : ∀ {i : Nat} {v}, s.store.constants[i]? = some v → HintProper v.type
  block : ∀ {v}, s.store.HasLocal v → v.Typed
  global : s.store.Concrete Store.globalScope
  instances : ∀ id ∈ s.store.instances, s.store.IsConcrete id
  lambdas : ∀ id ∈ s.store.lambdas, s.store.IsConcrete id
  known : ∀ i ∈ s.known, s.store.IsConcrete i.func
  scope : ∀ {node : Nat} {scope}, s.scopes[node]? = some scope →
    s.store.Concrete scope ∨ ¬ l.free node
  type : ∀ {node : Nat} {type}, s.types[node]? = some type →
    type.Proper ∨ node ∈ s.refused ∨ Plays p s .callee node ∧ s.IsBuiltin node type
  fresh : ∀ node, s.nextId ≤ node → l.free node
  numbered : s.Numbered p
  placed : s.store.Placed p

/-- The lists of instances, of their scopes and of the copies of templates record the same
instances, each of which has a symbol of its own. -/
structure Roster (s : AnalysisState) : Prop where
  instances : s.store.instances.toList = s.known.reverse.map (·.func)
  scopes : List.Forall₂ (fun scope id => s.store.scopeFuncId? scope = some id)
    s.store.instanceScopes.toList s.store.instances.toList
  copies : ∀ k, List.Forall₂ (fun i copy => s.store.IsSymbolOf i.func copy)
    (s.known.reverse.filter (·.template == k)) (s.copies.getD k #[]).toList
  distinct : (s.known.map (·.func)).Nodup

/-- Symbols, scopes and copies stay. -/
structure Extends (s t : AnalysisState) : Prop where
  store : s.store.Grows t.store
  copies : ∀ {k c}, c ∈ s.copies.getD k #[] → c ∈ t.copies.getD k #[]

end AnalysisState

/-! ### Facts that last -/

variable {p : Program} {l : Terrain} {s t u : AnalysisState}

namespace Store

variable {s t : Store}

theorem IsConcrete.grows {id : FuncId} (h : s.IsConcrete id) (hg : s.Grows t) :
    t.IsConcrete id := by
  obtain ⟨f, hf, hconcrete⟩ := h
  obtain ⟨g, hgf, hfg⟩ := hg.func hf
  exact ⟨g, hgf, hfg.isTemplate.trans hconcrete⟩

theorem Plain.grows {id : ScopeId} (h : s.Plain id) (hg : s.Grows t) : t.Plain id := by
  obtain ⟨⟨body, outer, blocks⟩, ha, hplain⟩ := h
  obtain ⟨⟨body', outer', blocks'⟩, hb, hab⟩ := hg.scope ha
  refine ⟨_, hb, fun func hfunc => ?_⟩
  have hbody : body.Grows body' := hab.body
  cases hbody with
  | refl => exact (hplain func hfunc).grows hg
  | block => cases hfunc

theorem Concrete.grows {scope : ScopeId} (h : s.Concrete scope) (hg : s.Grows t) :
    t.Concrete scope := by
  obtain ⟨a, ha⟩ := h.opened
  obtain ⟨b, hb, -⟩ := hg.scope ha
  refine ⟨⟨b, hb⟩, fun o ho => ?_⟩
  rw [hg.chain_eq ha] at ho
  exact (h.plain o ho).grows hg

theorem Sound.grows {handle : VarHandle} (h : s.Sound handle) (hg : s.Grows t) :
    t.Sound handle := by
  cases handle with
  | param scope i => exact Plain.grows h hg
  | _ => trivial

theorem IsSymbolOf.grows {id : FuncId} {d : FuncDef} (h : s.IsSymbolOf id d) (hg : s.Grows t) :
    t.IsSymbolOf id d := by
  obtain ⟨f, hf, hd⟩ := h
  obtain ⟨g, hgf, hfg⟩ := hg.func hf
  exact ⟨g, hgf, hfg.decl.trans hd⟩

/-- What a name stands for in a scope that lies in no template is no parameter of a template. -/
theorem Concrete.lookupVar {scope : ScopeId} (h : s.Concrete scope) {name : String}
    {handle : VarHandle} (hv : s.lookupVar scope name = some handle) : s.Sound handle := by
  obtain ⟨o, ho, hin⟩ := List.exists_of_findSome?_eq_some hv
  unfold lookupIn at hin
  split at hin
  · obtain ⟨i, -, rfl⟩ := Option.map_eq_some_iff.mp hin
    trivial
  · obtain ⟨f, -, hin⟩ := Option.bind_eq_some_iff.mp hin
    obtain ⟨i, -, hin⟩ := Option.bind_eq_some_iff.mp hin
    cases hin
    exact h.plain o ho
  · unfold lookupOwn at hin
    split at hin
    · obtain ⟨i, -, rfl⟩ := Option.map_eq_some_iff.mp hin
      trivial
    · cases hin
  · cases hin

end Store

namespace AnalysisState.Extends

theorem refl (s : AnalysisState) : s.Extends s := ⟨.refl _, id⟩

theorem trans (hst : s.Extends t) (htu : t.Extends u) : s.Extends u :=
  ⟨hst.store.trans htu.store, fun h => htu.copies (hst.copies h)⟩

end AnalysisState.Extends

theorem Plays.extends {role : Role} {node : Nat} (h : Plays p s role node) (he : s.Extends t) :
    Plays p t role node := by
  obtain ⟨d, hd, hrole⟩ := h
  cases hd with
  | program hm => exact ⟨_, .program hm, hrole⟩
  | copy hm => exact ⟨_, .copy (he.copies hm), hrole⟩

theorem FuncDef.Readable.extends {d : FuncDef} (h : d.Readable p l s) (he : s.Extends t) :
    d.Readable p l t := by
  obtain ⟨plays, hregular, hplays⟩ := h.regular
  exact ⟨h.place, plays, hregular, fun role node hn => (hplays role node hn).extends he⟩

theorem FuncSymbol.Kept.extends {f : FuncSymbol} (h : f.Kept p l s) (he : s.Extends t) :
    f.Kept p l t where
  ret := h.ret
  params := h.params
  template := h.template
  readable d hd := (h.readable d hd).extends he
  free := h.free

/-- A function may get a proper result type. -/
theorem FuncSymbol.Kept.withRet {f : FuncSymbol} (h : f.Kept p l s) {type : Ty} (ht : type.Proper) :
    FuncSymbol.Kept p l s { f with ret := some type } where
  ret := hintProper_some ht
  params := h.params
  template := h.template
  readable := h.readable
  free := h.free

/-- The parameters of a function without placeholders have proper types. -/
theorem FuncSymbol.Kept.typed {f : FuncSymbol} (h : f.Kept p l s) (hf : f.isTemplate = false) :
    ∀ v ∈ f.params, v.Typed := by
  intro v hv
  obtain ⟨type, htype, hproper | htemplate⟩ := h.params v hv
  · exact ⟨type, htype, hproper⟩
  · have hnot := List.any_eq_false.mp hf v hv
    simp only [VarSymbol.isTemplate, htype, Option.any_some, htemplate, not_true_eq_false] at hnot

theorem FuncSymbol.Kept.paramTypes {f : FuncSymbol} (h : f.Kept p l s) (hf : f.isTemplate = false) :
    typesProper f.paramTypes := by
  rw [typesProper_iff]
  intro t ht
  obtain ⟨v, hv, rfl⟩ := List.mem_map.mp ht
  obtain ⟨type, htype, hproper⟩ := h.typed hf v hv
  rw [htype]
  exact hproper

/-- The type of a function without placeholders is proper. -/
theorem FuncSymbol.Kept.type? {f : FuncSymbol} (h : f.Kept p l s) (hf : f.isTemplate = false)
    {type : Ty} (ht : f.type? = some type) : type.Proper := by
  unfold FuncSymbol.type? at ht
  split at ht
  · obtain ⟨ret, hret, rfl⟩ := Option.map_eq_some_iff.mp ht
    exact func_proper (h.paramTypes hf) (hintProper_some (h.ret ret hret))
  · cases ht
    exact func_proper (h.paramTypes hf) hintProper_none

namespace AnalysisState

/-- A node that stands for a builtin function goes on to do so. -/
theorem IsBuiltin.grows {node : Nat} {type : Ty} (h : s.IsBuiltin node type)
    (hg : s.store.Grows t.store)
    (hl : ∀ {target}, s.links[node]? = some target → t.links[node]? = some target) :
    t.IsBuiltin node type := by
  obtain ⟨id, f, hlink, hf, hbuiltin, htype⟩ := h
  obtain ⟨g, hgf, hfg⟩ := hg.func hf
  exact ⟨id, g, hl hlink, hgf, hfg.isBuiltin.trans hbuiltin, hfg.type? htype⟩

/-- The type of a variable is proper, unless it is a parameter of a template. -/
theorem Kept.var? (h : s.Kept p l) {handle : VarHandle} (hs : s.store.Sound handle)
    {v : VarSymbol} (hv : s.store.var? handle = some v) : HintProper v.type := by
  cases handle with
  | constant i => exact h.constant hv
  | param scope i =>
    obtain ⟨f, hf, hparam⟩ := Option.bind_eq_some_iff.mp hv
    obtain ⟨id, hid, hf⟩ := Option.bind_eq_some_iff.mp hf
    obtain ⟨⟨body, outer, blocks⟩, ha, hplain⟩ := hs
    have hbody : body = .function (some id) := by
      unfold Store.scopeFuncId? at hid
      rw [ha] at hid
      split at hid
      · next heq =>
        cases heq
        rw [hid]
      · cases hid
    obtain ⟨g, hg, hconcrete⟩ := hplain id hbody
    rw [hf] at hg
    cases hg
    obtain ⟨type, htype, hproper⟩ := (h.func hf).typed hconcrete v (List.mem_of_getElem? hparam)
    rw [htype]
    exact hintProper_some hproper
  | inner scope i =>
    simp only [Store.var?] at hv
    split at hv
    · next heq =>
      obtain ⟨type, htype, hproper⟩ := h.block ⟨_, _, _, _, heq, Array.mem_of_getElem? hv⟩
      rw [htype]
      exact hintProper_some hproper
    · cases hv

/-- Slots and symbols that change must be as they should, the rest stays. -/
theorem Kept.of_store (h : s.Kept p l) {st : Store} (hg : s.store.Grows st)
    (hfunc : ∀ {id f}, st.func? id = some f → s.store.func? id = some f ∨ f.Kept p l s)
    (hconstant : ∀ {i : Nat} {v}, st.constants[i]? = some v →
      s.store.constants[i]? = some v ∨ HintProper v.type)
    (hblock : ∀ {v}, st.HasLocal v → s.store.HasLocal v ∨ v.Typed)
    (hinstances : st.instances = s.store.instances) (hlambdas : st.lambdas = s.store.lambdas)
    (hplaced : st.Placed p) : Kept p l { s with store := st } where
  func hf := ((hfunc hf).elim (fun hf => h.func hf) fun hf => hf).extends ⟨hg, id⟩
  constant hv := (hconstant hv).elim (fun hv => h.constant hv) fun hv => hv
  block hv := (hblock hv).elim (fun hv => h.block hv) fun hv => hv
  global := h.global.grows hg
  instances id hm := (h.instances id (hinstances ▸ hm)).grows hg
  lambdas id hm := (h.lambdas id (hlambdas ▸ hm)).grows hg
  known i hm := (h.known i hm).grows hg
  scope hs := (h.scope hs).imp_left fun hc => hc.grows hg
  type ht := (h.type ht).imp_right fun ht => ht.imp_right fun ht =>
    ⟨ht.1.extends ⟨hg, id⟩, ht.2.grows hg id⟩
  fresh := h.fresh
  numbered := h.numbered.of_eq rfl rfl
  placed := hplaced

/-- The lists of instances stay as they are. -/
theorem Roster.carry (h : s.Roster) (hg : s.store.Grows t.store)
    (hinstances : t.store.instances = s.store.instances)
    (hscopes : t.store.instanceScopes = s.store.instanceScopes) (hknown : t.known = s.known)
    (hcopies : t.copies = s.copies) : t.Roster where
  instances := by rw [hinstances, hknown, h.instances]
  scopes := by
    rw [hinstances, hscopes]
    exact h.scopes.imp fun _ _ => hg.scopeFuncId?
  copies k := by
    rw [hknown, hcopies]
    exact (h.copies k).imp fun _ _ hi => hi.grows hg
  distinct := by rw [hknown]; exact h.distinct

end AnalysisState

end Frontend
