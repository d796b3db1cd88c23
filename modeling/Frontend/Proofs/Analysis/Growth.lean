import Frontend.Analysis.Program

/-!
# Growth of the analysis state

Analysis only adds: a symbol or a scope that is there stays under its index, an unknown type may
become known, a block scope may get further variables, and a slot of a node that has been written
keeps its content. `Store.Grows` and `AnalysisState.Grows` say so, and what has been looked up
once can be looked up later.
-/

namespace Frontend

/-- What analysis may find out about a node. -/
structure Slots where
  type : Option Ty
  link : Option Link
  scope : Option ScopeId
  progress : Option Progress

/-- Nothing is known about a node. -/
def Slots.empty : Slots := ⟨none, none, none, none⟩

/-- What is known about a node. -/
def AnalysisState.slots (s : AnalysisState) (node : Nat) : Slots :=
  ⟨s.types[node]?, s.links[node]?, s.scopes[node]?, s.progress[node]?⟩

/-- Between two moments of a function only its result type may have become known. -/
structure FuncSymbol.Grows (f g : FuncSymbol) : Prop where
  eq : g = { f with ret := g.ret }
  ret : ∀ {type}, f.ret = some type → g.ret = some type

/-- Between two moments of a variable only its type may have become known. -/
structure VarSymbol.Grows (v w : VarSymbol) : Prop where
  eq : w = { v with type := w.type }
  type : ∀ {type}, v.type = some type → w.type = some type

/-- A block scope may get further variables, behind those it has. -/
inductive ScopeBody.Grows : ScopeBody → ScopeBody → Prop
  | refl (b : ScopeBody) : Grows b b
  | block {vs ws : Array VarSymbol} (h : vs.toList <+: ws.toList) : Grows (.block vs) (.block ws)

/-- Whether a scope is that of a function or of a block, so that blocks may be opened in it. -/
def Store.isInner (s : Store) (id : ScopeId) : Bool := s.isFunction id || s.isBlock id

/-- A scope lies in the body of a function, with only blocks in between. -/
def Store.Within (s : Store) (scope : ScopeId) (home : FuncId) : Prop :=
  ∃ blocks inside outer, s.chain scope = blocks ++ inside :: outer ∧
    (∀ b ∈ blocks, s.isBlock b = true) ∧ s.scopeFuncId? inside = some home

/-- What a scope declares may grow; the scopes around it stay the same. -/
structure Scope.Grows (a b : Scope) : Prop where
  body : a.body.Grows b.body
  outer : b.outer = a.outer

/-- Symbols and scopes stay under their indices. -/
structure Store.Grows (s t : Store) : Prop where
  func : ∀ {id : FuncId} {f}, s.func? id = some f → ∃ g, t.func? id = some g ∧ f.Grows g
  scope : ∀ {id : ScopeId} {a : Scope}, s.scopes[id]? = some a →
    ∃ b, t.scopes[id]? = some b ∧ a.Grows b
  constant : ∀ {i : Nat} {v : VarSymbol}, s.constants[i]? = some v →
    ∃ w, t.constants[i]? = some w ∧ v.Grows w

theorem Store.isInner_of_isBlock {s : Store} {id : ScopeId} (h : s.isBlock id = true) :
    s.isInner id = true := by
  rw [Store.isInner, h, Bool.or_true]

theorem Store.isInner_of_scopeFuncId? {s : Store} {id : ScopeId} {f : FuncId}
    (h : s.scopeFuncId? id = some f) : s.isInner id = true := by
  unfold Store.scopeFuncId? at h
  split at h
  · next heq => simp only [Store.isInner, Store.isFunction, heq, Bool.true_or]
  · cases h

theorem FuncSymbol.Grows.refl (f : FuncSymbol) : f.Grows f := ⟨rfl, id⟩

theorem FuncSymbol.Grows.trans {f g h : FuncSymbol} (hf : f.Grows g) (hg : g.Grows h) :
    f.Grows h := by
  refine ⟨?_, fun hr => hg.ret (hf.ret hr)⟩
  have hfg := hf.eq
  have hgh := hg.eq
  rw [hfg] at hgh
  exact hgh

theorem VarSymbol.Grows.refl (v : VarSymbol) : v.Grows v := ⟨rfl, id⟩

theorem VarSymbol.Grows.trans {v w x : VarSymbol} (hv : v.Grows w) (hw : w.Grows x) :
    v.Grows x := by
  refine ⟨?_, fun ht => hw.type (hv.type ht)⟩
  have hvw := hv.eq
  have hwx := hw.eq
  rw [hvw] at hwx
  exact hwx

theorem VarSymbol.Grows.name {v w : VarSymbol} (h : v.Grows w) : w.name = v.name := by
  rw [h.eq]

namespace FuncSymbol.Grows

variable {f g : FuncSymbol}

theorem name (h : f.Grows g) : g.name = f.name := by rw [h.eq]

theorem params (h : f.Grows g) : g.params = f.params := by rw [h.eq]

theorem kind (h : f.Grows g) : g.kind = f.kind := by rw [h.eq]

theorem isBuiltin (h : f.Grows g) : g.isBuiltin = f.isBuiltin := by rw [h.eq]

theorem decl (h : f.Grows g) : g.decl = f.decl := by rw [h.eq]

theorem paramTypes (h : f.Grows g) : g.paramTypes = f.paramTypes := by
  simp only [FuncSymbol.paramTypes, h.params]

theorem isTemplate (h : f.Grows g) : g.isTemplate = f.isTemplate := by
  simp only [FuncSymbol.isTemplate, h.params]

end FuncSymbol.Grows

theorem ScopeBody.Grows.trans {a b c : ScopeBody} (hab : a.Grows b) (hbc : b.Grows c) :
    a.Grows c := by
  cases hab with
  | refl => exact hbc
  | block h =>
    cases hbc with
    | refl => exact .block h
    | block h' => exact .block (h.trans h')

theorem Scope.Grows.refl (a : Scope) : a.Grows a := ⟨.refl _, rfl⟩

theorem Scope.Grows.trans {a b c : Scope} (hab : a.Grows b) (hbc : b.Grows c) : a.Grows c :=
  ⟨hab.body.trans hbc.body, hbc.outer.trans hab.outer⟩

namespace Store.Grows

variable {s t u : Store}

theorem refl (s : Store) : s.Grows s :=
  ⟨fun h => ⟨_, h, .refl _⟩, fun h => ⟨_, h, .refl _⟩, fun h => ⟨_, h, .refl _⟩⟩

theorem trans (hst : s.Grows t) (htu : t.Grows u) : s.Grows u := by
  refine ⟨fun h => ?_, fun h => ?_, fun h => ?_⟩
  · obtain ⟨g, hg, hfg⟩ := hst.func h
    obtain ⟨g', hg', hgg⟩ := htu.func hg
    exact ⟨g', hg', hfg.trans hgg⟩
  · obtain ⟨b, hb, hab⟩ := hst.scope h
    obtain ⟨c, hc, hbc⟩ := htu.scope hb
    exact ⟨c, hc, hab.trans hbc⟩
  · obtain ⟨w, hw, hvw⟩ := hst.constant h
    obtain ⟨x, hx, hwx⟩ := htu.constant hw
    exact ⟨x, hx, hvw.trans hwx⟩

theorem chain_eq (h : s.Grows t) {id : ScopeId} {a : Scope} (ha : s.scopes[id]? = some a) :
    t.chain id = s.chain id := by
  obtain ⟨b, hb, hab⟩ := h.scope ha
  simp only [chain, ha, hb, hab.outer]

theorem scopeFuncId? (h : s.Grows t) {scope : ScopeId} {id : FuncId}
    (hs : s.scopeFuncId? scope = some id) : t.scopeFuncId? scope = some id := by
  unfold Store.scopeFuncId? at hs ⊢
  split at hs
  · next heq =>
    subst hs
    obtain ⟨⟨body, outer, blocks⟩, hb, hab⟩ := h.scope heq
    have hbody := hab.body
    cases hbody
    rw [hb]
  · cases hs

theorem scopeFunc? (h : s.Grows t) {scope : ScopeId} {f : FuncSymbol}
    (hs : s.scopeFunc? scope = some f) : ∃ g, t.scopeFunc? scope = some g ∧ f.Grows g := by
  obtain ⟨id, hid, hf⟩ := Option.bind_eq_some_iff.mp hs
  obtain ⟨g, hg, hfg⟩ := h.func hf
  exact ⟨g, by rw [Store.scopeFunc?, h.scopeFuncId? hid]; exact hg, hfg⟩

theorem isFunction (h : s.Grows t) {id : ScopeId} (hs : s.isFunction id = true) :
    t.isFunction id = true := by
  unfold Store.isFunction at hs ⊢
  split at hs
  · next heq =>
    obtain ⟨⟨body, outer, blocks⟩, hb, hab⟩ := h.scope heq
    have hbody := hab.body
    cases hbody
    rw [hb]
  · cases hs

theorem isBlock (h : s.Grows t) {id : ScopeId} (hs : s.isBlock id = true) :
    t.isBlock id = true := by
  unfold Store.isBlock at hs ⊢
  split at hs
  · next heq =>
    obtain ⟨⟨body, outer, blocks⟩, hb, hab⟩ := h.scope heq
    have hbody := hab.body
    cases hbody <;> rw [hb]
  · cases hs

theorem isInner (h : s.Grows t) {id : ScopeId} (hs : s.isInner id = true) :
    t.isInner id = true := by
  unfold Store.isInner at hs ⊢
  rw [Bool.or_eq_true] at hs ⊢
  exact hs.imp h.isFunction h.isBlock

/-- A variable stays under its handle. -/
theorem var? (h : s.Grows t) {handle : VarHandle} {v : VarSymbol}
    (hv : s.var? handle = some v) : ∃ w, t.var? handle = some w ∧ v.Grows w := by
  cases handle with
  | constant i => exact h.constant hv
  | param scope i =>
    obtain ⟨f, hf, hp⟩ := Option.bind_eq_some_iff.mp hv
    obtain ⟨g, hg, hfg⟩ := h.scopeFunc? hf
    refine ⟨v, ?_, .refl v⟩
    simp only [Store.var?, hg, Option.bind_eq_bind, Option.bind_some, hfg.params]
    exact hp
  | inner scope i =>
    simp only [Store.var?] at hv ⊢
    split at hv
    · next heq =>
      obtain ⟨⟨body, outer, blocks⟩, hb, hab⟩ := h.scope heq
      have hbody := hab.body
      cases hbody with
      | refl => exact ⟨v, by rw [hb]; exact hv, .refl v⟩
      | @block _ ws hpre =>
        refine ⟨v, ?_, .refl v⟩
        rw [hb]
        change ws[i]? = some v
        rw [← Array.getElem?_toList] at hv ⊢
        obtain ⟨rest, hrest⟩ := hpre
        rw [← hrest, List.getElem?_append_left (List.getElem?_eq_some_iff.mp hv).1]
        exact hv
    · cases hv

end Store.Grows

/-! ### Scopes in functions -/

namespace Store.Within

variable {s t : Store} {scope : ScopeId} {home : FuncId}

/-- Blocks may be opened wherever a function is at work. -/
theorem isInner (h : s.Within scope home) : s.isInner scope = true := by
  obtain ⟨blocks, inside, outer, hchain, hblocks, hid⟩ := h
  unfold Store.chain at hchain
  split at hchain
  · cases blocks with
    | nil =>
      rw [(List.cons.inj hchain).1]
      exact isInner_of_scopeFuncId? hid
    | cons b blocks =>
      rw [(List.cons.inj hchain).1]
      exact isInner_of_isBlock (hblocks b List.mem_cons_self)
  · exact absurd hchain.symm (by simp)

theorem grows (h : s.Within scope home) (hg : s.Grows t) :
    t.Within scope home := by
  obtain ⟨blocks, inside, outer, hchain, hblocks, hid⟩ := h
  have hscope : ∃ a, s.scopes[scope]? = some a := by
    unfold Store.chain at hchain
    split at hchain
    · exact ⟨_, ‹_›⟩
    · exact absurd hchain.symm (by simp)
  obtain ⟨a, ha⟩ := hscope
  exact ⟨blocks, inside, outer, (hg.chain_eq ha).trans hchain,
    fun b hb => hg.isBlock (hblocks b hb), hg.scopeFuncId? hid⟩

/-- The function that a return statement belongs to is the one that its scope lies in. -/
theorem enclosingFunction (h : s.Within scope home) :
    (s.enclosingFunction scope).bind s.scopeFuncId? = some home := by
  obtain ⟨blocks, inside, outer, hchain, hblocks, hid⟩ := h
  have hinside : s.isFunction inside = true := by
    unfold Store.scopeFuncId? at hid
    split at hid
    · next heq => simp only [Store.isFunction, heq]
    · cases hid
  have hfind : s.enclosingFunction scope = some inside := by
    rw [Store.enclosingFunction, hchain, List.find?_append, List.find?_eq_none.mpr fun b hb => ?_]
    · simp only [List.find?_cons, hinside, Option.none_or]
    · have hblock := hblocks b hb
      unfold Store.isBlock at hblock
      unfold Store.isFunction
      split at hblock
      · next heq => simp only [heq, Bool.false_eq_true, not_false_eq_true]
      · cases hblock
  rw [hfind]
  exact hid

theorem of_function (h : s.scopeFuncId? scope = some home) :
    s.Within scope home := by
  have hscope : ∃ a, s.scopes[scope]? = some a := by
    unfold Store.scopeFuncId? at h
    split at h
    · exact ⟨_, ‹_›⟩
    · cases h
  obtain ⟨a, ha⟩ := hscope
  exact ⟨[], scope, a.outer, by simp only [Store.chain, ha, List.nil_append], nofun, h⟩

end Store.Within

/-! ### The state as a whole -/

/-- Whatever is known stays known. -/
structure AnalysisState.Grows (s t : AnalysisState) : Prop where
  store : s.store.Grows t.store
  type : ∀ {node : Nat} {type : Ty}, s.types[node]? = some type → t.types[node]? = some type
  link : ∀ {node : Nat} {target : Link}, s.links[node]? = some target →
    t.links[node]? = some target
  scope : ∀ {node : Nat} {id : ScopeId}, s.scopes[node]? = some id → t.scopes[node]? = some id
  done : ∀ {node : Nat}, s.progress[node]? = some .done → t.progress[node]? = some .done
  begun : ∀ {node : Nat}, (s.progress[node]?).isSome → (t.progress[node]?).isSome
  copies : ∀ {template : Nat} {copy : FuncDef}, copy ∈ s.copies.getD template #[] →
    copy ∈ t.copies.getD template #[]
  known : ∀ {i}, i ∈ s.known → i ∈ t.known

namespace AnalysisState.Grows

variable {s t u : AnalysisState}

theorem refl (s : AnalysisState) : s.Grows s := ⟨.refl _, id, id, id, id, id, id, id⟩

theorem trans (hst : s.Grows t) (htu : t.Grows u) : s.Grows u where
  store := hst.store.trans htu.store
  type h := htu.type (hst.type h)
  link h := htu.link (hst.link h)
  scope h := htu.scope (hst.scope h)
  done h := htu.done (hst.done h)
  begun h := htu.begun (hst.begun h)
  copies h := htu.copies (hst.copies h)
  known h := htu.known (hst.known h)

theorem progress_eq_none (h : s.Grows t) {node : Nat} (hn : t.progress[node]? = none) :
    s.progress[node]? = none := by
  cases hs : s.progress[node]? with
  | none => rfl
  | some p =>
    have hsome := h.begun (Option.isSome_iff_exists.mpr ⟨p, hs⟩)
    rw [hn] at hsome
    cases hsome

end AnalysisState.Grows

end Frontend
