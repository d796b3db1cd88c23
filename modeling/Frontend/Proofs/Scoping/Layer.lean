import Mathlib.Data.List.Forall2
import Frontend.Proofs.Analysis.Growth

/-!
# Lexical environments

The names that are visible at a place of a program, layer by layer from the inside out, each with
the node that declares it. A layer stands for one scope; `Layer.Matches` says that the scope
declares just the names of the layer, in order, and that the declaring nodes are linked to its
variables. A look-up along the scopes then finds what a look-up in the environment says.
-/

namespace Frontend

/-- The names that one construct declares, in order, each with the id of the declaring node. -/
structure Layer where
  /-- The id of the function, block or `let` statement; the global constants have none. -/
  owner : Option Nat
  names : List (String × Nat)

/-- The node that declares a name in a layer. -/
def Layer.find? (l : Layer) (name : String) : Option Nat :=
  (l.names.find? (·.1 == name)).map (·.2)

/-- The layers around a place, the innermost first. -/
abbrev Env := List Layer

namespace Env

/-- The innermost declaration of a name, with the owner of its layer. -/
def find? (env : Env) (name : String) : Option (Option Nat × Nat) :=
  env.findSome? fun l => (l.find? name).map fun node => (l.owner, node)

/-- The environment behind declarations in the innermost layer. -/
def declare (names : List (String × Nat)) : Env → Env
  | [] => []
  | l :: outer => { l with names := l.names ++ names } :: outer

end Env

/-- The layer of the parameters of a function. -/
def FuncDef.layer (d : FuncDef) : Layer :=
  ⟨some d.info.id, d.params.map fun p => (p.name, p.info.id)⟩

/-- The layer of the constants of a program. -/
def Program.layer (p : Program) : Layer :=
  ⟨none, p.constants.flatMap fun d => d.decls.map fun c => (c.name, c.info.id)⟩

namespace Store

/-- The names that a scope declares itself, in order. -/
def namesIn (s : Store) (id : ScopeId) : List String :=
  match s.scopes[id]? with
  | some ⟨.global, _, _⟩ => s.constants.toList.map (·.name)
  | some ⟨.function _, _, _⟩ =>
    ((s.scopeFunc? id).map fun f => f.params.map (·.name)).getD []
  | some ⟨.block vars, _, _⟩ => vars.toList.map (·.name)
  | none => []

/-- The handle of the variable that a scope declares at a place. -/
def handleIn (s : Store) (id : ScopeId) (index : Nat) : VarHandle :=
  match s.scopes[id]? with
  | some ⟨.function _, _, _⟩ => .param id index
  | some ⟨.block _, _, _⟩ => .inner id index
  | _ => .constant index

private theorem findIdx?_array_map (vs : Array VarSymbol) (name : String) :
    vs.findIdx? (·.name == name) = (vs.toList.map (·.name)).findIdx? (· == name) := by
  rw [List.findIdx?_map, ← List.findIdx?_toArray, Array.toArray_toList]
  rfl

private theorem findIdx?_list_map (vs : List VarSymbol) (name : String) :
    vs.findIdx? (·.name == name) = (vs.map (·.name)).findIdx? (· == name) := by
  rw [List.findIdx?_map]
  rfl

/-- A look-up in one scope finds the first of its names that fits. -/
theorem lookupIn_eq (s : Store) (name : String) (id : ScopeId) :
    s.lookupIn name id =
      ((s.namesIn id).findIdx? (· == name)).map (s.handleIn id) := by
  unfold lookupIn namesIn handleIn
  rcases hs : s.scopes[id]? with _ | ⟨body, outer, blocks⟩
  · rfl
  · cases body with
    | global =>
      simp only [lookupConstant, findIdx?_array_map]
    | function func =>
      simp only [lookupParam]
      cases hf : s.scopeFunc? id with
      | none => rfl
      | some f =>
        simp only [Option.bind_eq_bind, Option.bind_some, Option.map_some, Option.getD_some,
          findIdx?_list_map]
        cases List.findIdx? (· == name) (f.params.map (·.name)) <;> rfl
    | block vars =>
      simp only [lookupOwn, hs, findIdx?_array_map]

end Store

/-- A scope declares the names of a layer, in order, and the declaring nodes are linked to its
variables. -/
structure Layer.Matches (s : AnalysisState) (l : Layer) (id : ScopeId) : Prop where
  owner : ∀ {node : Nat}, l.owner = some node → s.scopes[node]? = some id
  root : l.owner = none → id = Store.globalScope
  home : ∀ i, Store.owner (s.store.handleIn id i) = id
  names : s.store.namesIn id = l.names.map (·.1)
  links : ∀ {i : Nat} {name : String} {node : Nat}, l.names[i]? = some (name, node) →
    s.links[node]? = some (Link.var (s.store.handleIn id i))

/-- The scopes around a scope, which come first, declare what the layers say. -/
structure Env.Matches (s : AnalysisState) (env : Env) (id : ScopeId) : Prop where
  scope : ∃ a, s.store.scopes[id]? = some a
  layers : List.Forall₂ (Layer.Matches s) env (s.store.chain id)

/-- A handle belongs to a declaration of a name: the declaring node is linked to it, the variable
is there under the name, and it is kept in the scope of the layer. -/
structure Denotes (s : AnalysisState) (name : String) (owner : Option Nat) (node : Nat)
    (handle : VarHandle) : Prop where
  link : s.links[node]? = some (.var handle)
  symbol : ∃ v, s.store.var? handle = some v ∧ v.name = name
  scope : ∀ {o : Nat}, owner = some o → s.scopes[o]? = some (Store.owner handle)
  root : owner = none → Store.owner handle = Store.globalScope

theorem Store.var?_handleIn (s : Store) {id : ScopeId} {i : Nat} {name : String}
    (h : (s.namesIn id)[i]? = some name) :
    ∃ v, s.var? (s.handleIn id i) = some v ∧ v.name = name := by
  unfold namesIn at h
  unfold handleIn
  rcases hs : s.scopes[id]? with _ | ⟨body, outer, blocks⟩ <;> rw [hs] at h
  · cases h
  · cases body with
    | global =>
      rw [List.getElem?_map, Option.map_eq_some_iff] at h
      obtain ⟨v, hv, hn⟩ := h
      exact ⟨v, by simpa [var?] using hv, hn⟩
    | function func =>
      cases hf : s.scopeFunc? id with
      | none => rw [hf] at h; cases h
      | some f =>
        rw [hf] at h
        simp only [Option.map_some, Option.getD_some, List.getElem?_map,
          Option.map_eq_some_iff] at h
        obtain ⟨v, hv, hn⟩ := h
        exact ⟨v, by simpa [var?, hf] using hv, hn⟩
    | block vars =>
      rw [List.getElem?_map, Option.map_eq_some_iff] at h
      obtain ⟨v, hv, hn⟩ := h
      exact ⟨v, by simpa [var?, hs] using hv, hn⟩

namespace Layer.Matches

variable {s : AnalysisState} {l : Layer} {id : ScopeId}

/-- The names of a layer denote the variables of its scope. -/
theorem denotes (h : l.Matches s id) {i : Nat} {name : String} {node : Nat}
    (hi : l.names[i]? = some (name, node)) :
    Denotes s name l.owner node (s.store.handleIn id i) where
  link := h.links hi
  symbol := s.store.var?_handleIn (by rw [h.names, List.getElem?_map, hi]; rfl)
  scope hl := by rw [h.home]; exact h.owner hl
  root hl := by rw [h.home]; exact h.root hl

/-- A scope finds what its layer says. -/
theorem lookupIn (h : l.Matches s id) (name : String) :
    (l.find? name = none ∧ s.store.lookupIn name id = none) ∨
      ∃ node handle, l.find? name = some node ∧ s.store.lookupIn name id = some handle ∧
        Denotes s name l.owner node handle := by
  rw [Store.lookupIn_eq, h.names, List.findIdx?_map, Layer.find?]
  cases hi : l.names.findIdx? ((· == name) ∘ (·.1)) with
  | none =>
    left
    have hnone : l.names.find? (·.1 == name) = none := by
      rw [List.find?_eq_none]
      intro declared hm
      simpa using List.findIdx?_eq_none_iff.mp hi declared hm
    exact ⟨by rw [hnone]; rfl, rfl⟩
  | some i =>
    right
    obtain ⟨hlt, hp, hbefore⟩ := List.findIdx?_eq_some_iff_getElem.mp hi
    have hfind : l.names.find? (·.1 == name) = some l.names[i] :=
      List.find?_eq_some_iff_getElem.mpr ⟨hp, i, hlt, rfl, fun j hj => by simpa using hbefore j hj⟩
    have hname : l.names[i].1 = name := by simpa using hp
    refine ⟨l.names[i].2, s.store.handleIn id i, by rw [hfind]; rfl, rfl, h.denotes ?_⟩
    rw [List.getElem?_eq_getElem hlt, ← hname]

end Layer.Matches

/-- A look-up along the scopes finds what the environment says. -/
theorem Env.Matches.lookupVar {s : AnalysisState} {env : Env} {id : ScopeId}
    (h : env.Matches s id) (name : String) :
    (env.find? name = none ∧ s.store.lookupVar id name = none) ∨
      ∃ owner node handle, env.find? name = some (owner, node) ∧
        s.store.lookupVar id name = some handle ∧ Denotes s name owner node handle := by
  obtain ⟨-, hlayers⟩ := h
  unfold Env.find? Store.lookupVar
  generalize s.store.chain id = ids at hlayers
  induction hlayers with
  | nil => exact .inl ⟨rfl, rfl⟩
  | @cons l id env ids hl _ ih =>
    rw [List.findSome?_cons, List.findSome?_cons]
    rcases hl.lookupIn name with ⟨hnone, hnone'⟩ | ⟨node, handle, hsome, hsome', hd⟩
    · rw [hnone, hnone']
      exact ih
    · rw [hsome, hsome']
      exact .inr ⟨l.owner, node, handle, rfl, rfl, hd⟩

/-- What is denoted stays denoted. -/
theorem Denotes.grows {s t : AnalysisState} (hg : s.Grows t) {name : String} {owner : Option Nat}
    {node : Nat} {handle : VarHandle} (h : Denotes s name owner node handle) :
    Denotes t name owner node handle where
  link := hg.link h.link
  symbol := by
    obtain ⟨v, hv, hn⟩ := h.symbol
    obtain ⟨w, hw, hvw⟩ := hg.store.var? hv
    exact ⟨w, hw, hvw.name.trans hn⟩
  scope ho := hg.scope (h.scope ho)
  root := h.root

end Frontend
