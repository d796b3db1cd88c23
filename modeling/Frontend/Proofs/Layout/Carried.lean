import Frontend.Proofs.Analysis.Stateless
import Frontend.Proofs.Layout.Scopes

/-!
# Plans that are carried out

What a stretch of analysis does to the scopes is what the plan of the text asks for: the shapes are
laid out, the blocks and names of the text are added to the scope around it, each behind those that
are there, and nothing else is opened or declared, except for definitions that are analysed on
demand, which are carried out as a whole. All of this is about what never changes later, so it lasts,
and stretches are put together by `Plan.Carried.append`. `Follows` says so of the runs of an action.
-/

namespace Frontend

/-- What any stretch of analysis keeps, whatever it meets: what is there stays, and a slot that was
to be written a second time is not forgotten. -/
structure Continues (s t : AnalysisState) : Prop where
  store : s.store.Grows t.store
  scope : ∀ {node : Nat} {id : ScopeId}, s.scopes[node]? = some id → t.scopes[node]? = some id
  link : ∀ {node : Nat} {target : Link}, s.links[node]? = some target →
    t.links[node]? = some target
  begun : ∀ {node : Nat}, s.progress[node]? ≠ none → t.progress[node]? ≠ none
  copies : ∀ {template : Nat} {copy : FuncDef}, copy ∈ s.copies.getD template #[] →
    copy ∈ t.copies.getD template #[]
  refused : t.refused = [] → s.refused = []

namespace AnalysisState

/-- A construct has this scope; where there is none, it is the global scope. -/
def Owns (s : AnalysisState) : Option Nat → ScopeId → Prop
  | some node, id => s.scopes[node]? = some id
  | none, id => id = Store.globalScope

/-- The scope of a block or `let` statement lies directly in a scope. -/
structure Nests (s : AnalysisState) (outer : ScopeId) (node : Nat) (inner : ScopeId) : Prop where
  owner : s.scopes[node]? = some inner
  block : s.store.isBlock inner = true
  encloses : s.store.Encloses outer inner

/-- The node that declares a name is linked to a variable of a block, which has this name. -/
structure Binds (s : AnalysisState) (scope : ScopeId) (declared : String × Nat) (index : Nat) :
    Prop where
  link : s.links[declared.2]? = some (.var (.inner scope index))
  symbol : ∃ v, s.store.var? (.inner scope index) = some v ∧ v.name = declared.1

end AnalysisState

/-- The scope of a construct lies where the text says, and so do its blocks and variables. -/
structure Shape.Laid (σ : Shape) (s : AnalysisState) (id : ScopeId) : Prop where
  owner : s.scopes[σ.node]? = some id
  function : σ.isFunction = true → s.store.isFunction id = true
  block : σ.isFunction = false → s.store.isBlock id = true
  home : ∃ outer, s.Owns σ.home outer ∧ s.store.Encloses outer id
  children : Placed (s.Nests id) 0 σ.children
  names : Placed (s.Binds id) 0 σ.names

/-- The scopes of nodes are there, and each belongs to one node. -/
structure AnalysisState.Housed (s : AnalysisState) : Prop where
  placed : ∀ {node : Nat} {id : ScopeId}, s.scopes[node]? = some id → id < s.store.scopes.size
  single : ∀ {m n : Nat} {id : ScopeId}, s.scopes[m]? = some id → s.scopes[n]? = some id → m = n

/-- What holds of the scopes between any two steps: the store is tidy, a scope belongs to one node,
the functions that wait for their analysis are definitions of the program or copies of templates,
and the scope of each of these lies in the global one. -/
structure Arranged (p : Program) (s : AnalysisState) : Prop extends s.Housed where
  tidy : s.store.Tidy
  waiting : ∀ {id : FuncId} {f : FuncSymbol} {d : FuncDef}, s.store.func? id = some f →
    f.decl = some d → s.progress[d.info.id]? = none → Defined p s (.function d)
  homed : ∀ {d : FuncDef}, Defined p s (.function d) → ∃ scope, s.scopes[d.info.id]? = some scope ∧
    s.store.isFunction scope = true ∧ s.store.Encloses Store.globalScope scope

/-- The scopes of a plan and of definitions. -/
def Plan.all (q : Plan) (es : List Definition) : List Shape :=
  q.shapes ++ es.flatMap Definition.shapes

/-- Between two states a plan is carried out in a scope, with the definitions `es` analysed on the
way, and nothing else happens to the scopes. -/
structure Plan.Carried (p : Program) (cur : ScopeId) (q : Plan) (es : List Definition)
    (s t : AnalysisState) : Prop where
  defined : ∀ e ∈ es, Defined p t e ∧ t.progress[e.info.id]? ≠ none
  laid : ∀ σ ∈ q.all es, ∃ id, σ.Laid t id
  children : Placed (t.Nests cur) s.store.scopes.size q.children
  names : Placed (t.Binds cur) (s.store.varCount cur) q.names
  blocks : ∀ {c : ScopeId}, t.store.isBlock c = true → s.store.isBlock c = true ∨
    ∃ σ ∈ q.all es, σ.isFunction = false ∧ t.scopes[σ.node]? = some c
  vars : ∀ {c : ScopeId} {i : Nat}, i < t.store.varCount c → i < s.store.varCount c ∨
    (c = cur ∧ ∃ declared ∈ q.names, t.Binds cur declared i) ∨
      ∃ σ ∈ q.all es, t.scopes[σ.node]? = some c ∧ ∃ declared ∈ σ.names, t.Binds c declared i
  begun : ∀ {node : Nat}, t.progress[node]? ≠ none → s.progress[node]? ≠ none ∨
    (∃ e ∈ es, e.info.id = node) ∨ ∃ σ ∈ q.all es, σ.isFunction = true ∧ σ.node = node

/-- A stretch of analysis in the scope of a construct carries out a plan. -/
structure Plan.Realised (p : Program) (home : Option Nat) (cur : ScopeId) (q : Plan)
    (s t : AnalysisState) : Prop where
  continues : Continues s t
  carried : t.refused = [] → Arranged p s → s.Owns home cur →
    Arranged p t ∧ ∃ es, q.Carried p cur es s t

/-- Each run of an action in the scope of a construct carries out a plan. -/
def Follows {α : Type} (p : Program) (home : Option Nat) (cur : ScopeId) (q : Plan)
    (act : Check α) : Prop :=
  ∀ s, Ensures (fun _ _ => True) act s fun _ t => q.Realised p home cur s t

variable {p : Program} {home : Option Nat} {cur : ScopeId} {q r : Plan} {es es' : List Definition}
  {s t u : AnalysisState}

/-! ### What lasts -/

namespace Continues

theorem refl (s : AnalysisState) : Continues s s := ⟨.refl _, id, id, id, id, id⟩

theorem trans (hst : Continues s t) (htu : Continues t u) : Continues s u where
  store := hst.store.trans htu.store
  scope h := htu.scope (hst.scope h)
  link h := htu.link (hst.link h)
  begun h := htu.begun (hst.begun h)
  copies h := htu.copies (hst.copies h)
  refused h := hst.refused (htu.refused h)

/-- Nothing but the symbols and scopes has changed. -/
theorem of_store {st : Store} (h : s.store.Grows st) : Continues s { s with store := st } :=
  ⟨h, id, id, id, id, id⟩

theorem mark (s : AnalysisState) (node : Nat) (progress : Progress) :
    Continues s (s.mark node progress) := by
  refine ⟨.refl _, id, id, fun {n} hn => ?_, id, id⟩
  by_cases heq : n = node
  · rw [heq, AnalysisState.progress_mark_self]
    exact Option.some_ne_none _
  · rwa [AnalysisState.progress_mark heq]

variable (h : Continues s t)
include h

theorem defined {d : Definition} (hd : Defined p s d) : Defined p t d := by
  cases hd with
  | program hm => exact .program hm
  | copy hm => exact .copy (h.copies hm)

theorem owns {id : ScopeId} (ho : s.Owns home id) : t.Owns home id := by
  cases home with
  | none => exact ho
  | some node => exact h.scope ho

theorem nests {outer inner : ScopeId} {node : Nat} (hn : s.Nests outer node inner) :
    t.Nests outer node inner :=
  ⟨h.scope hn.owner, h.store.isBlock hn.block, hn.encloses.grows h.store⟩

theorem binds {scope : ScopeId} {declared : String × Nat} {index : Nat}
    (hb : s.Binds scope declared index) : t.Binds scope declared index := by
  obtain ⟨v, hv, hname⟩ := hb.symbol
  obtain ⟨w, hw, hvw⟩ := h.store.var? hv
  exact ⟨h.link hb.link, w, hw, hvw.name.trans hname⟩

theorem laid {σ : Shape} {id : ScopeId} (hl : σ.Laid s id) : σ.Laid t id where
  owner := h.scope hl.owner
  function hσ := h.store.isFunction (hl.function hσ)
  block hσ := h.store.isBlock (hl.block hσ)
  home := by
    obtain ⟨outer, howns, hencloses⟩ := hl.home
    exact ⟨outer, h.owns howns, hencloses.grows h.store⟩
  children := hl.children.mono (fun _ _ => h.nests) (Nat.le_refl _)
  names := hl.names.mono (fun _ _ => h.binds) (Nat.le_refl _)

end Continues

/-- A function that still waits is a definition of the program or a copy of a template. -/
theorem Arranged.waits (ha : Arranged p s) (h : Continues s t) {id : FuncId} {f : FuncSymbol}
    {d : FuncDef} (hf : s.store.func? id = some f) (hd : f.decl = some d)
    (hnone : t.progress[d.info.id]? = none) : Defined p t (.function d) := by
  have hnone' : s.progress[d.info.id]? = none := by
    by_contra hbegun
    exact h.begun hbegun hnone
  exact h.defined (ha.waiting hf hd hnone')

/-- The scopes of definitions stay where they are. -/
theorem Arranged.stays_homed (ha : Arranged p s) (h : Continues s t) {d : FuncDef}
    (hd : Defined p s (.function d)) : ∃ scope, t.scopes[d.info.id]? = some scope ∧
      t.store.isFunction scope = true ∧ t.store.Encloses Store.globalScope scope := by
  obtain ⟨scope, hscope, hfunction, hencloses⟩ := ha.homed hd
  exact ⟨scope, h.scope hscope, h.store.isFunction hfunction, hencloses.grows h.store⟩

namespace AnalysisState.Housed

theorem carry (hs : s.Housed) (h : Continues s t) (hnodes : t.scopes = s.scopes) : t.Housed where
  placed hn := by
    rw [hnodes] at hn
    exact Nat.lt_of_lt_of_le (hs.placed hn) h.store.size_le
  single hm hn := by
    rw [hnodes] at hm hn
    exact hs.single hm hn

/-- A node gets the scope that has just been opened. -/
theorem opens (hs : s.Housed) (h : Continues s t) {parent : ScopeId} {body : ScopeBody} {node : Nat}
    (hin : s.store.OpensIn t.store parent body)
    (hscopes : ∀ n : Nat, t.scopes[n]? =
      if n = node then some s.store.scopes.size else s.scopes[n]?) : t.Housed where
  placed {n id} hn := by
    rw [hscopes] at hn
    split at hn
    · cases hn
      exact (Array.getElem?_eq_some_iff.mp hin.opened).1
    · exact Nat.lt_of_lt_of_le (hs.placed hn) h.store.size_le
  single {m n id} hm hn := by
    have hnew : ∀ {n : Nat}, s.scopes[n]? ≠ some s.store.scopes.size := fun hn =>
      Nat.lt_irrefl _ (hs.placed hn)
    rw [hscopes] at hm hn
    split at hm <;> split at hn
    · next hm' hn' => rw [hm', hn']
    · cases hm
      exact absurd hn hnew
    · cases hn
      exact absurd hm hnew
    · exact hs.single hm hn

end AnalysisState.Housed

/-- The scopes stay arranged when a tidy store only gets further variables and types. -/
theorem Arranged.carry (ha : Arranged p s) (h : Continues s t) (htidy : t.store.Tidy)
    (hnodes : t.scopes = s.scopes) (hcopied : t.copies = s.copies)
    (hsymbols : ∀ {id : FuncId} {g : FuncSymbol}, t.store.func? id = some g →
      ∃ f, s.store.func? id = some f ∧ f.decl = g.decl) : Arranged p t where
  toHoused := ha.toHoused.carry h hnodes
  tidy := htidy
  waiting {id g d} hg hd hnone := by
    obtain ⟨f, hf, hfg⟩ := hsymbols hg
    exact ha.waits h hf (hfg.trans hd) hnone
  homed {d} hd := by
    have hd' : Defined p s (.function d) := by
      cases hd with
      | program hm => exact .program hm
      | copy hm =>
        rw [hcopied] at hm
        exact .copy hm
    exact ha.stays_homed h hd'

/-- The scopes stay arranged when a node gets a new one. -/
theorem Arranged.opens (ha : Arranged p s) (h : Continues s t) {parent : ScopeId}
    {body : ScopeBody} {node : Nat} (hin : s.store.OpensIn t.store parent body)
    (hvars : ∀ vars, body = .block vars → vars = #[])
    (hscopes : ∀ n : Nat, t.scopes[n]? =
      if n = node then some s.store.scopes.size else s.scopes[n]?)
    (hwaiting : ∀ {id : FuncId} {g : FuncSymbol} {d : FuncDef}, t.store.func? id = some g →
      g.decl = some d → t.progress[d.info.id]? = none → Defined p t (.function d))
    (hhomed : ∀ {d : FuncDef}, Defined p t (.function d) → Defined p s (.function d) ∨
      (d.info.id = node ∧ (∃ f, body = .function f) ∧ parent = Store.globalScope)) :
    Arranged p t where
  toHoused := ha.toHoused.opens h hin hscopes
  tidy := hin.tidy ha.tidy hvars
  waiting := hwaiting
  homed {d} hd := by
    rcases hhomed hd with hd | ⟨hnode, ⟨f, rfl⟩, rfl⟩
    · exact ha.stays_homed h hd
    · refine ⟨s.store.scopes.size, by rw [hscopes, if_pos hnode], ?_, hin.encloses⟩
      simp only [Store.isFunction, hin.opened]

/-- A definition that is begun does not wait any longer. -/
theorem Arranged.mark (ha : Arranged p s) (node : Nat) (progress : Progress) :
    Arranged p (s.mark node progress) :=
  ha.carry (.mark s node progress) (ha.tidy.of_scopes rfl) rfl rfl fun {_ g} hg => ⟨g, hg, rfl⟩

/-- The construct around a scope has a scope. -/
theorem Arranged.exists_scope (h : Arranged p s) (ho : s.Owns home cur) :
    ∃ a, s.store.scopes[cur]? = some a := by
  cases home with
  | none =>
    subst ho
    exact h.tidy.root
  | some node => exact ⟨_, Array.getElem?_eq_getElem (h.placed ho)⟩

/-! ### Plans one after another -/

namespace Plan

theorem mem_all {σ : Shape} : σ ∈ q.all es ↔ σ ∈ q.shapes ∨ ∃ e ∈ es, σ ∈ e.shapes := by
  rw [all, List.mem_append, List.mem_flatMap]

theorem all_append_left {σ : Shape} (h : σ ∈ q.all es) : σ ∈ (q ++ r).all (es ++ es') := by
  rw [mem_all] at h ⊢
  refine h.imp (List.mem_append_left _) ?_
  rintro ⟨e, he, hσ⟩
  exact ⟨e, List.mem_append_left _ he, hσ⟩

theorem all_append_right {σ : Shape} (h : σ ∈ r.all es') : σ ∈ (q ++ r).all (es ++ es') := by
  rw [mem_all] at h ⊢
  refine h.imp (List.mem_append_right _) ?_
  rintro ⟨e, he, hσ⟩
  exact ⟨e, List.mem_append_right _ he, hσ⟩

theorem forall_mem_all_append {P : Shape → Prop} (h : ∀ σ ∈ q.all es, P σ)
    (h' : ∀ σ ∈ r.all es', P σ) : ∀ σ ∈ (q ++ r).all (es ++ es'), P σ := by
  intro σ hm
  simp only [mem_all, append_def, List.mem_append] at hm
  rcases hm with (hm | hm) | ⟨e, he | he, hm⟩
  · exact h σ (mem_all.mpr (.inl hm))
  · exact h' σ (mem_all.mpr (.inl hm))
  · exact h σ (mem_all.mpr (.inr ⟨e, he, hm⟩))
  · exact h' σ (mem_all.mpr (.inr ⟨e, he, hm⟩))

namespace Carried

/-- Where no block, variable or begun definition is new, nothing has been carried out. -/
theorem nothing (hblocks : ∀ c, t.store.isBlock c = true → s.store.isBlock c = true)
    (hvars : ∀ c, t.store.varCount c ≤ s.store.varCount c)
    (hbegun : ∀ n : Nat, t.progress[n]? ≠ none → s.progress[n]? ≠ none) :
    (Plan.of []).Carried p cur [] s t where
  defined := List.forall_mem_nil _
  laid := List.forall_mem_nil _
  children := .nil
  names := .nil
  blocks h := .inl (hblocks _ h)
  vars h := .inl (Nat.lt_of_lt_of_le h (hvars _))
  begun h := .inl (hbegun _ h)

theorem refl (s : AnalysisState) : (Plan.of []).Carried p cur [] s s :=
  nothing (fun _ => id) (fun _ => Nat.le_refl _) fun _ => id

/-- One plan is carried out after another. -/
theorem append (h : q.Carried p cur es s t) (h' : r.Carried p cur es' t u) (hst : Continues s t)
    (htu : Continues t u) : (q ++ r).Carried p cur (es ++ es') s u where
  defined := List.forall_mem_append.mpr
    ⟨fun e he => ⟨htu.defined (h.defined e he).1, htu.begun (h.defined e he).2⟩, h'.defined⟩
  laid := forall_mem_all_append
    (fun σ hσ => by
      obtain ⟨id, hl⟩ := h.laid σ hσ
      exact ⟨id, htu.laid hl⟩) h'.laid
  children := h.children.append (fun _ _ => htu.nests) h'.children
    (fun _ _ hn => Store.lt_size_of_isBlock hn.block) hst.store.size_le
  names := h.names.append (fun _ _ => htu.binds) h'.names
    (fun _ _ hb => by
      obtain ⟨v, hv, -⟩ := hb.symbol
      exact Store.lt_varCount_of_var? hv) (hst.store.varCount cur)
  blocks {c} hc := by
    rcases h'.blocks hc with hc | ⟨σ, hσ, hblock, hscope⟩
    · refine (h.blocks hc).imp_right ?_
      rintro ⟨σ, hσ, hblock, hscope⟩
      exact ⟨σ, all_append_left hσ, hblock, htu.scope hscope⟩
    · exact .inr ⟨σ, all_append_right hσ, hblock, hscope⟩
  vars {c i} hi := by
    rcases h'.vars hi with hi | ⟨hc, x, hx, hb⟩ | ⟨σ, hσ, hscope, x, hx, hb⟩
    · rcases h.vars hi with hi | ⟨hc, x, hx, hb⟩ | ⟨σ, hσ, hscope, x, hx, hb⟩
      · exact .inl hi
      · exact .inr (.inl ⟨hc, x, List.mem_append_left _ hx, htu.binds hb⟩)
      · exact .inr (.inr ⟨σ, all_append_left hσ, htu.scope hscope, x, hx, htu.binds hb⟩)
    · exact .inr (.inl ⟨hc, x, List.mem_append_right _ hx, hb⟩)
    · exact .inr (.inr ⟨σ, all_append_right hσ, hscope, x, hx, hb⟩)
  begun {node} hn := by
    rcases h'.begun hn with hn | ⟨e, he, heq⟩ | ⟨σ, hσ, hfunction, heq⟩
    · rcases h.begun hn with hn | ⟨e, he, heq⟩ | ⟨σ, hσ, hfunction, heq⟩
      · exact .inl hn
      · exact .inr (.inl ⟨e, List.mem_append_left _ he, heq⟩)
      · exact .inr (.inr ⟨σ, all_append_left hσ, hfunction, heq⟩)
    · exact .inr (.inl ⟨e, List.mem_append_right _ he, heq⟩)
    · exact .inr (.inr ⟨σ, all_append_right hσ, hfunction, heq⟩)

/-- The order in which scopes are told of does not matter. -/
theorem congr (h : q.Carried p cur es s t) (hchildren : r.children = q.children)
    (hnames : r.names = q.names) (hshapes : ∀ σ, σ ∈ r.shapes ↔ σ ∈ q.shapes) :
    r.Carried p cur es s t := by
  have hall : ∀ σ, σ ∈ r.all es ↔ σ ∈ q.all es := fun σ => by rw [mem_all, mem_all, hshapes]
  constructor
  · exact h.defined
  · exact fun σ hσ => h.laid σ ((hall σ).mp hσ)
  · rw [hchildren]
    exact h.children
  · rw [hnames]
    exact h.names
  · simp only [hall]
    exact h.blocks
  · simp only [hall, hnames]
    exact h.vars
  · simp only [hall]
    exact h.begun

/-- A construct with a scope of its own: the scope has been made between the first two states. -/
theorem within {inner : ScopeId} {node : Nat} {isFunction : Bool}
    (h : q.Carried p inner es t u) (howner : u.scopes[node]? = some inner)
    (hfunction : isFunction = true → u.store.isFunction inner = true)
    (hblock : isFunction = false → u.store.isBlock inner = true)
    (hhome : ∃ outer, u.Owns home outer ∧ u.store.Encloses outer inner)
    (hblocks : ∀ c, t.store.isBlock c = true →
      s.store.isBlock c = true ∨ (isFunction = false ∧ c = inner))
    (hvars : ∀ c, t.store.varCount c ≤ s.store.varCount c)
    (hbegun : ∀ n : Nat, t.progress[n]? ≠ none →
      s.progress[n]? ≠ none ∨ (isFunction = true ∧ n = node)) :
    (Plan.of (⟨node, isFunction, home, q.children, q.names⟩ :: q.shapes)).Carried p cur es s u := by
  have hself : (⟨node, isFunction, home, q.children, q.names⟩ : Shape) ∈
      (Plan.of (⟨node, isFunction, home, q.children, q.names⟩ :: q.shapes)).all es :=
    List.mem_cons_self
  have hinside : ∀ σ ∈ q.all es,
      σ ∈ (Plan.of (⟨node, isFunction, home, q.children, q.names⟩ :: q.shapes)).all es :=
    fun σ hσ => List.mem_cons_of_mem _ hσ
  refine ⟨h.defined, ?_, .nil, .nil, fun {c} hc => ?_, fun {c i} hi => ?_, fun {n} hn => ?_⟩
  · refine List.forall_mem_cons.mpr ⟨⟨inner, howner, hfunction, hblock, hhome, ?_, ?_⟩, h.laid⟩
    · exact h.children.mono (fun _ _ => id) (Nat.zero_le _)
    · exact h.names.mono (fun _ _ => id) (Nat.zero_le _)
  · rcases h.blocks hc with hc | ⟨σ, hσ, hσblock, hscope⟩
    · rcases hblocks c hc with hc | ⟨hkind, rfl⟩
      · exact .inl hc
      · exact .inr ⟨_, hself, hkind, howner⟩
    · exact .inr ⟨σ, hinside σ hσ, hσblock, hscope⟩
  · rcases h.vars hi with hi | ⟨rfl, x, hx, hb⟩ | ⟨σ, hσ, hscope, x, hx, hb⟩
    · exact .inl (Nat.lt_of_lt_of_le hi (hvars c))
    · exact .inr (.inr ⟨_, hself, howner, x, hx, hb⟩)
    · exact .inr (.inr ⟨σ, hinside σ hσ, hscope, x, hx, hb⟩)
  · rcases h.begun hn with hn | ⟨e, he, heq⟩ | ⟨σ, hσ, hσfunction, heq⟩
    · rcases hbegun n hn with hn | ⟨hkind, rfl⟩
      · exact .inl hn
      · exact .inr (.inr ⟨_, hself, hkind, rfl⟩)
    · exact .inr (.inl ⟨e, he, heq⟩)
    · exact .inr (.inr ⟨σ, hinside σ hσ, hσfunction, heq⟩)

/-- A definition that is analysed on demand, from when it is begun. -/
theorem demanded {e : Definition}
    (h : (Plan.of e.shapes).Carried p cur es (s.mark e.info.id .inProgress) t)
    (he : Defined p t e) (hbegun : t.progress[e.info.id]? ≠ none) :
    (Plan.of []).Carried p cur (e :: es) s t := by
  have hall : (Plan.of []).all (e :: es) = (Plan.of e.shapes).all es := by
    simp only [all, of, List.flatMap_cons, List.nil_append]
  refine ⟨List.forall_mem_cons.mpr ⟨⟨he, hbegun⟩, h.defined⟩, hall ▸ h.laid, .nil, .nil,
    hall ▸ h.blocks, hall ▸ h.vars, fun {n} hn => ?_⟩
  rw [hall]
  rcases h.begun hn with hn | ⟨e', he', heq⟩ | hσ
  · by_cases heq : n = e.info.id
    · exact .inr (.inl ⟨e, List.mem_cons_self, heq.symm⟩)
    · rw [AnalysisState.progress_mark heq] at hn
      exact .inl hn
  · exact .inr (.inl ⟨e', List.mem_cons_of_mem _ he', heq⟩)
  · exact .inr (.inr hσ)

end Carried

/-- Where nothing is added to the scope around, it does not matter which one it is. -/
theorem Carried.anywhere {shapes : List Shape} (h : (Plan.of shapes).Carried p cur es s t)
    (other : ScopeId) : (Plan.of shapes).Carried p other es s t where
  defined := h.defined
  laid := h.laid
  children := .nil
  names := .nil
  blocks := h.blocks
  vars hi := (h.vars hi).imp_right fun hi =>
    .inr (hi.resolve_left fun ⟨_, _, hm, _⟩ => List.not_mem_nil hm)
  begun := h.begun

namespace Realised

theorem refl (s : AnalysisState) : (Plan.of []).Realised p home cur s s where
  continues := .refl s
  carried _ ha _ := ⟨ha, [], .refl s⟩

theorem append (h : q.Realised p home cur s t) (h' : r.Realised p home cur t u) :
    (q ++ r).Realised p home cur s u where
  continues := h.continues.trans h'.continues
  carried hr ha ho := by
    obtain ⟨ha', es, hcarried⟩ := h.carried (h'.continues.refused hr) ha ho
    obtain ⟨ha'', es', hcarried'⟩ := h'.carried hr ha' (h.continues.owns ho)
    exact ⟨ha'', es ++ es', hcarried.append hcarried' h.continues h'.continues⟩

/-- A mark on what has been begun changes nothing. -/
theorem mark {node : Nat} (h : s.progress[node]? ≠ none) (progress : Progress) :
    (Plan.of []).Realised p home cur s (s.mark node progress) where
  continues := .mark s node progress
  carried _ ha _ :=
    ⟨ha.mark node progress, [], .nothing (fun _ => id) (fun _ => Nat.le_refl _) fun n hn => by
      by_cases heq : n = node
      · rwa [heq]
      · rwa [AnalysisState.progress_mark heq] at hn⟩

end Realised

end Plan

/-- A change that does not concern scopes, marks and what functions there are. -/
structure Still (s t : AnalysisState) : Prop extends Continues s t where
  scopes : t.store.scopes = s.store.scopes
  nodes : t.scopes = s.scopes
  marks : t.progress = s.progress
  copied : t.copies = s.copies
  symbols : ∀ {id : FuncId} {g : FuncSymbol}, t.store.func? id = some g →
    ∃ f, s.store.func? id = some f ∧ f.decl = g.decl

namespace Still

theorem of_eq (h : Continues s t) (hscopes : t.store.scopes = s.store.scopes)
    (hfuncs : t.store.funcs = s.store.funcs) (hnodes : t.scopes = s.scopes)
    (hmarks : t.progress = s.progress) (hcopied : t.copies = s.copies) : Still s t :=
  { h with
    scopes := hscopes
    nodes := hnodes
    marks := hmarks
    copied := hcopied
    symbols := fun {id g} hg => ⟨g, by rwa [Store.func?, ← hfuncs], rfl⟩ }

theorem refl (s : AnalysisState) : Still s s := .of_eq (.refl s) rfl rfl rfl rfl rfl

theorem trans (hst : Still s t) (htu : Still t u) : Still s u :=
  { hst.toContinues.trans htu.toContinues with
    scopes := htu.scopes.trans hst.scopes
    nodes := htu.nodes.trans hst.nodes
    marks := htu.marks.trans hst.marks
    copied := htu.copied.trans hst.copied
    symbols := fun {id g} hg => by
      obtain ⟨f, hf, hfg⟩ := htu.symbols hg
      obtain ⟨e, he, hef⟩ := hst.symbols hf
      exact ⟨e, he, hef.trans hfg⟩ }

theorem isBlock (h : Still s t) (c : ScopeId) : t.store.isBlock c = s.store.isBlock c := by
  simp only [Store.isBlock, h.scopes]

theorem arranged (h : Still s t) (ha : Arranged p s) : Arranged p t :=
  ha.carry h.toContinues (ha.tidy.of_scopes h.scopes) h.nodes h.copied h.symbols

/-- Such a change carries out nothing. -/
theorem realised (h : Still s t) : (Plan.of []).Realised p home cur s t where
  continues := h.toContinues
  carried _ ha _ :=
    ⟨h.arranged ha, [], .nothing (fun c hc => h.isBlock c ▸ hc)
      (fun c => by simp only [Store.varCount, h.scopes, le_refl])
      fun n hn => by rwa [h.marks] at hn⟩

end Still

/-! ### Actions -/

namespace Follows

variable {α β : Type} {act : Check α}

theorem pure (a : α) : Follows p home cur (.of []) (pure a : Check α) := fun s => .pure (.refl s)

theorem throw (e : Failure) : Follows p home cur q (throw e : Check α) := fun _ => .throw trivial

theorem fail {cause : Cause} {position : Position} :
    Follows p home cur q (Check.fail cause position : Check α) := .throw _

theorem bind {f : α → Check β} (h : Follows p home cur q act)
    (hf : ∀ a, Follows p home cur r (f a)) : Follows p home cur (q ++ r) (act >>= f) :=
  fun s => .bind ((h s).imp fun a t _ hst => (hf a t).imp fun _ _ _ htu => hst.append htu)

/-- Behind an action nothing is left to carry out. -/
theorem thenPure {f : α → Check β} (h : Follows p home cur q act)
    (hf : ∀ a, Follows p home cur (.of []) (f a)) : Follows p home cur q (act >>= f) :=
  q.append_of_nil ▸ h.bind hf

/-- An action that carries out nothing comes first. -/
theorem after {f : α → Check β} (h : Follows p home cur (.of []) act)
    (hf : ∀ a, Follows p home cur q (f a)) : Follows p home cur q (act >>= f) :=
  q.of_nil_append ▸ h.bind hf

theorem map {f : α → β} (h : Follows p home cur q act) : Follows p home cur q (f <$> act) :=
  fun s => .map (h s)

theorem congr (h : Follows p home cur q act) (hchildren : r.children = q.children)
    (hnames : r.names = q.names) (hshapes : ∀ σ, σ ∈ r.shapes ↔ σ ∈ q.shapes) :
    Follows p home cur r act := by
  refine fun s => (h s).imp fun _ t _ hst => ⟨hst.continues, fun hr ha ho => ?_⟩
  obtain ⟨ha', es, hcarried⟩ := hst.carried hr ha ho
  exact ⟨ha', es, hcarried.congr hchildren hnames hshapes⟩

theorem still (h : ∀ s, Ensures (fun _ _ => True) act s fun _ t => Still s t) :
    Follows p home cur (.of []) act := fun s => (h s).imp fun _ _ _ hst => hst.realised

theorem readsOnly (h : ReadsOnly act) : Follows p home cur (.of []) act :=
  fun s => (h s).imp_both (fun _ _ _ => trivial) fun _ t (ht : t = s) => by
    rw [ht]
    exact .refl s

theorem stateless (h : Stateless act) : Follows p home cur (.of []) act := .readsOnly h.readsOnly

/-- A look at the state comes first. -/
theorem store {f : Store → Check β} (hf : ∀ st, Follows p home cur q (f st)) :
    Follows p home cur q (Check.store >>= f) := fun s => .bind (.store (hf s.store s))

theorem func {id : FuncId} {f : FuncSymbol → Check β}
    (hf : ∀ symbol, Follows p home cur q (f symbol)) :
    Follows p home cur q (Check.func id >>= f) :=
  .after (.readsOnly (Check.func_readsOnly id)) hf

end Follows

end Frontend
