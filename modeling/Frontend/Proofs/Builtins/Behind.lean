import Frontend.Proofs.Builtins.Names
import Frontend.Resolution

/-!
# Symbols behind the builtin functions

`Store.behind` has the builtin functions in front of the functions of a store. A name that no
builtin function has stands for the same in both, and every operation on the one is the operation
on the other, up to the ids of functions.
-/

namespace Frontend

/-- The id that a function has behind the builtin functions. -/
def Builtin.behind (id : FuncId) : FuncId := Builtin.all.length + id

/-- What a node is linked to, behind the builtin functions. -/
def Link.behind : Link → Link
  | .var handle => .var handle
  | .func id => .func (Builtin.behind id)

/-- What a scope declares, behind the builtin functions. -/
def ScopeBody.behind : ScopeBody → ScopeBody
  | .global => .global
  | .function func => .function (func.map Builtin.behind)
  | .block vars => .block vars

/-- A scope behind the builtin functions. -/
def Scope.behind (a : Scope) : Scope := { a with body := a.body.behind }

/-- All symbols and scopes behind the builtin functions. -/
def Store.behind (s : Store) : Store :=
  { s with
    funcs := Builtin.all.toArray ++ s.funcs
    scopes := s.scopes.map Scope.behind
    functions := Array.range Builtin.all.length ++ s.functions.map Builtin.behind
    instances := s.instances.map Builtin.behind
    lambdas := s.lambdas.map Builtin.behind }

/-! ### Declaring the builtin functions -/

/-- A function that is unlike those of a store, all of which are declared, is declared behind
them. -/
theorem Store.defineFunction_addFunc {s : Store} {f : FuncSymbol}
    (hall : s.functions = Array.range s.funcs.size)
    (hf : ∀ g ∈ s.funcs.toList, g.sameDeclaration f = false) :
    (s.addFunc f).2.defineFunction (s.addFunc f).1 =
      .ok { s with funcs := s.funcs.push f, functions := Array.range (s.funcs.size + 1) } := by
  have hnone : (s.addFunc f).2.globalFuncs.find? (fun c =>
      ((s.addFunc f).2.func? (s.addFunc f).1).any fun f => c.2.sameDeclaration f) = none := by
    rw [List.find?_eq_none]
    intro c hc
    obtain ⟨id, hid, hg⟩ := List.mem_filterMap.mp hc
    obtain ⟨g, hg, rfl⟩ := Option.map_eq_some_iff.mp hg
    have hlt : id < s.funcs.size := by simpa [addFunc, hall] using hid
    have hmem : g ∈ s.funcs.toList := by
      rw [func?, addFunc, Array.getElem?_push_lt hlt] at hg
      cases hg
      exact Array.getElem_mem_toList hlt
    simp [func?, addFunc, hf g hmem]
  unfold defineFunction
  simp only [hnone]
  simp [addFunc, hall, Array.range_succ]

/-- Functions that are pairwise unlike each other are declared one behind the other. -/
theorem Store.foldl_defineFunction (fs : List FuncSymbol) {s : Store}
    (hall : s.functions = Array.range s.funcs.size)
    (hpair : (s.funcs.toList ++ fs).Pairwise fun f g => f.sameDeclaration g = false) :
    fs.foldl (fun s f =>
        match (s.addFunc f).2.defineFunction (s.addFunc f).1 with
        | .ok t => t
        | .error _ => (s.addFunc f).2) s =
      { s with
        funcs := s.funcs ++ fs.toArray
        functions := Array.range (s.funcs.size + fs.length) } := by
  induction fs generalizing s with
  | nil => simp [← hall]
  | cons f rest ih =>
    have hf : ∀ g ∈ s.funcs.toList, g.sameDeclaration f = false := fun g hg =>
      (List.pairwise_append.mp hpair).2.2 g hg f List.mem_cons_self
    rw [List.foldl_cons, defineFunction_addFunc hall hf]
    simp only
    rw [ih (by simp) (by simpa using hpair)]
    simp [Nat.add_assoc, Nat.add_comm 1]

/-- Declaring the builtin functions puts them in front of nothing. -/
theorem Store.registerBuiltins_empty : Store.empty.registerBuiltins = Store.empty.behind := by
  have hpair : (Store.empty.funcs.toList ++ Builtin.all).Pairwise fun f g =>
      f.sameDeclaration g = false := by decide +kernel
  refine (Store.foldl_defineFunction Builtin.all rfl hpair).trans ?_
  simp [Store.behind, Store.empty, Scope.behind, ScopeBody.behind]

namespace Overload

variable {κ ι : Type}

theorem foldl_better_map (g : κ → ι) (args : List Ty) (candidates : List (κ × FuncSymbol))
    (best : Option ((κ × FuncSymbol) × Nat)) :
    (candidates.map fun c => (g c.1, c.2)).foldl (better args)
        (best.map fun b => ((g b.1.1, b.1.2), b.2)) =
      (candidates.foldl (better args) best).map fun b => ((g b.1.1, b.1.2), b.2) := by
  induction candidates generalizing best with
  | nil => rfl
  | cons c rest ih =>
    rw [List.map_cons, List.foldl_cons, List.foldl_cons, ← ih]
    congr 1
    simp only [better, Option.map_map, Function.comp_def]
    split <;> rfl

/-- What is selected does not depend on the keys. -/
theorem select_map (g : κ → ι) (candidates : List (κ × FuncSymbol)) (name : String)
    (args : List Ty) :
    select (candidates.map fun c => (g c.1, c.2)) name args =
      (select candidates name args).map fun b => ((g b.1.1, b.1.2), b.2) := by
  unfold select
  rw [List.filter_map]
  exact foldl_better_map g args _ none

end Overload

namespace Store

variable (s : Store)

theorem scopes_behind (id : ScopeId) : s.behind.scopes[id]? = s.scopes[id]?.map Scope.behind :=
  Array.getElem?_map

@[simp] theorem func?_behind (id : FuncId) : s.behind.func? (Builtin.behind id) = s.func? id := by
  unfold func? Builtin.behind behind
  rw [Array.getElem?_append_right (by simp)]
  simp

@[simp] theorem chain_behind (id : ScopeId) : s.behind.chain id = s.chain id := by
  unfold chain
  rw [scopes_behind]
  cases s.scopes[id]? <;> rfl

@[simp] theorem scopeFuncId?_behind (id : ScopeId) :
    s.behind.scopeFuncId? id = (s.scopeFuncId? id).map Builtin.behind := by
  unfold scopeFuncId?
  rw [scopes_behind]
  rcases s.scopes[id]? with _ | ⟨_ | _ | _, _, _⟩ <;> rfl

@[simp] theorem scopeFunc?_behind (id : ScopeId) : s.behind.scopeFunc? id = s.scopeFunc? id := by
  unfold scopeFunc?
  rw [scopeFuncId?_behind]
  cases s.scopeFuncId? id with
  | none => rfl
  | some id => exact func?_behind s id

@[simp] theorem var?_behind (handle : VarHandle) : s.behind.var? handle = s.var? handle := by
  cases handle with
  | constant i => rfl
  | param scope i => simp only [var?, scopeFunc?_behind]
  | inner scope i =>
    simp only [var?, scopes_behind]
    rcases s.scopes[scope]? with _ | ⟨_ | _ | _, _, _⟩ <;> rfl

/-! ### Functions -/

theorem addFunc_behind (f : FuncSymbol) :
    s.behind.addFunc f = (Builtin.behind (s.addFunc f).1, (s.addFunc f).2.behind) := by
  unfold addFunc behind Builtin.behind
  simp

/-- In front of the global functions there are builtin functions. -/
theorem globalFuncs_behind : ∃ builtins : List (FuncId × FuncSymbol),
    (∀ c ∈ builtins, c.2 ∈ Builtin.all) ∧ s.behind.globalFuncs =
      builtins ++ s.globalFuncs.map fun c => (Builtin.behind c.1, c.2) := by
  refine ⟨(List.range Builtin.all.length).filterMap fun id =>
    (s.behind.func? id).map fun f => (id, f), ?_, ?_⟩
  · intro c hc
    obtain ⟨id, hid, hf⟩ := List.mem_filterMap.mp hc
    obtain ⟨f, hf, rfl⟩ := Option.map_eq_some_iff.mp hf
    rw [List.mem_range] at hid
    rw [func?, behind, Array.getElem?_append_left (by simpa using hid)] at hf
    exact List.mem_of_getElem? (by simpa using hf)
  · unfold globalFuncs
    rw [show s.behind.functions.toList = List.range Builtin.all.length ++
      s.functions.toList.map Builtin.behind by simp [behind], List.filterMap_append]
    congr 1
    rw [List.filterMap_map, List.map_filterMap]
    congr 1
    funext id
    simp only [Function.comp_apply, func?_behind, Option.map_map]
    rfl

variable {s} {name : String}

theorem lookupFunctions_behind (hname : name ∉ Builtin.names) : s.behind.lookupFunctions name =
    (s.lookupFunctions name).map fun c => (Builtin.behind c.1, c.2) := by
  obtain ⟨builtins, hbuiltins, heq⟩ := s.globalFuncs_behind
  unfold lookupFunctions
  rw [heq, List.filter_append, List.filter_map]
  have hnone : builtins.filter (fun c => c.2.name == name) = [] := by
    rw [List.filter_eq_nil_iff]
    intro c hc heq
    rw [beq_iff_eq] at heq
    subst heq
    exact hname (List.mem_map_of_mem (hbuiltins c hc))
  rw [hnone]
  rfl

/-- A function that is not named like a builtin function is declared twice in both or in neither. -/
theorem defineFunction_behind {id : FuncId} {f : FuncSymbol} (hf : s.func? id = some f)
    (hname : f.name ∉ Builtin.names) : s.behind.defineFunction (Builtin.behind id) =
      match s.defineFunction id with
      | .ok t => .ok t.behind
      | .error other => .error (Builtin.behind other) := by
  obtain ⟨builtins, hbuiltins, heq⟩ := s.globalFuncs_behind
  have hnone : builtins.find? (fun c => c.2.sameDeclaration f) = none := by
    rw [List.find?_eq_none]
    intro c hc hsame
    simp only [FuncSymbol.sameDeclaration, Bool.and_eq_true, beq_iff_eq] at hsame
    rw [← hsame.1.1] at hname
    exact hname (List.mem_map_of_mem (hbuiltins c hc))
  unfold defineFunction
  simp only [func?_behind, hf, Option.any_some, heq, List.find?_append, hnone, Option.none_or,
    List.find?_map, Function.comp_def]
  cases s.globalFuncs.find? fun c => c.2.sameDeclaration f with
  | some c => rfl
  | none =>
    simp only [Option.map_none, behind, Array.map_push, Array.push_append]

/-! ### Variables and scopes -/

variable (s)

theorem defineConstant_behind (v : VarSymbol) : s.behind.defineConstant v =
    (s.defineConstant v).map fun r => (r.1, r.2.behind) := by
  unfold defineConstant
  have hconstants : s.behind.constants = s.constants := rfl
  rw [hconstants]
  cases s.constants.findIdx? fun c => c.name == v.name <;> rfl

theorem openFunction_behind (func : FuncId) (enclosing : ScopeId) :
    s.behind.openFunction (some (Builtin.behind func)) enclosing =
      ((s.openFunction (some func) enclosing).1,
        (s.openFunction (some func) enclosing).2.behind) := by
  unfold openFunction
  rw [chain_behind]
  simp [behind, Scope.behind, ScopeBody.behind]

/-- A change of one scope that does not look at functions is the same change in both. -/
theorem modify_scopes_behind (id : ScopeId) {f : Scope → Scope}
    (hf : ∀ a, (f a).behind = f a.behind) :
    (s.scopes.map Scope.behind).modify id f = (s.scopes.modify id f).map Scope.behind := by
  apply Array.ext_getElem?
  intro i
  simp only [Array.getElem?_modify, Array.getElem?_map, apply_ite (Option.map Scope.behind),
    Option.map_map, Function.comp_def, hf]

theorem openBlock_behind (parent : ScopeId) : s.behind.openBlock parent =
    (s.openBlock parent).map fun r => (r.1, r.2.behind) := by
  unfold openBlock
  rw [scopes_behind, chain_behind]
  rcases s.scopes[parent]? with _ | ⟨_ | _ | _, _, _⟩ <;> try rfl
  all_goals
    simp only [Option.map_some, Scope.behind, ScopeBody.behind, Except.map, behind, Array.size_map,
      Array.map_push]
    rw [modify_scopes_behind]
    exact fun _ => rfl

theorem lookupOwn_behind (id : ScopeId) (name : String) :
    s.behind.lookupOwn id name = s.lookupOwn id name := by
  unfold lookupOwn
  rw [scopes_behind]
  rcases s.scopes[id]? with _ | ⟨_ | _ | _, _, _⟩ <;> rfl

theorem lookupParam_behind (id : ScopeId) (name : String) :
    s.behind.lookupParam id name = s.lookupParam id name := by
  unfold lookupParam
  rw [scopeFunc?_behind]

theorem lookupIn_behind (name : String) (id : ScopeId) :
    s.behind.lookupIn name id = s.lookupIn name id := by
  unfold lookupIn
  rw [scopes_behind, lookupParam_behind, lookupOwn_behind]
  rcases s.scopes[id]? with _ | ⟨_ | _ | _, _, _⟩ <;> rfl

theorem lookupVar_behind (id : ScopeId) (name : String) :
    s.behind.lookupVar id name = s.lookupVar id name := by
  unfold lookupVar
  rw [chain_behind]
  congr 1
  funext id
  exact s.lookupIn_behind name id

theorem isFunction_behind (id : ScopeId) : s.behind.isFunction id = s.isFunction id := by
  unfold isFunction
  rw [scopes_behind]
  rcases s.scopes[id]? with _ | ⟨_ | _ | _, _, _⟩ <;> rfl

theorem isBlock_behind (id : ScopeId) : s.behind.isBlock id = s.isBlock id := by
  unfold isBlock
  rw [scopes_behind]
  rcases s.scopes[id]? with _ | ⟨_ | _ | _, _, _⟩ <;> rfl

theorem enclosingFunction_behind (id : ScopeId) :
    s.behind.enclosingFunction id = s.enclosingFunction id := by
  unfold enclosingFunction
  rw [chain_behind]
  congr 1
  funext id
  exact s.isFunction_behind id

theorem defineVar_behind (id : ScopeId) (v : VarSymbol) : s.behind.defineVar id v =
    (s.defineVar id v).map fun r => (r.1, r.2.behind) := by
  unfold defineVar
  rw [lookupOwn_behind, scopes_behind]
  cases s.lookupOwn id v.name with
  | some existing => rfl
  | none =>
    simp only [Except.map, behind]
    rw [modify_scopes_behind]
    · rcases s.scopes[id]? with _ | ⟨_ | _ | _, _, _⟩ <;> rfl
    · rintro ⟨_ | _ | _, _, _⟩ <;> rfl

/-! ### Types that are found out -/

theorem setConstantType?_behind (index : Nat) (type : Ty) :
    s.behind.setConstantType? index type = (s.setConstantType? index type).map behind := by
  unfold setConstantType?
  change (s.constants[index]? >>= _) = _
  rcases s.constants[index]? with _ | v
  · rfl
  · cases h : v.withType? type <;> simp [h, behind]

theorem setRet?_behind (id : FuncId) (type : Ty) :
    s.behind.setRet? (Builtin.behind id) type = (s.setRet? id type).map behind := by
  unfold setRet?
  rw [func?_behind]
  cases s.func? id with
  | none => rfl
  | some f =>
    cases h : f.withRet? type with
    | none => simp [h]
    | some g =>
      simp [h, behind, Builtin.behind, Array.setIfInBounds_append_right]

end Store

end Frontend
