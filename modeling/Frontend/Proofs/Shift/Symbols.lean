import Frontend.Proofs.Shift.Rules
import Frontend.Scope.Store

/-!
# Symbols with later ids

A store whose symbols are shifted looks up and declares as the store does. Names are compared only
between functions that are declared globally, none of which is a lambda.
-/

namespace Frontend

variable (d : Nat)

/-- A variable with its type shifted. -/
def VarSymbol.shift (v : VarSymbol) : VarSymbol := { v with type := v.type.map (Ty.shift d) }

/-- A function with its types and its definition shifted. -/
def FuncSymbol.shift (f : FuncSymbol) : FuncSymbol :=
  { f with
    name := shiftName d f.kind f.name
    params := f.params.map (VarSymbol.shift d)
    ret := f.ret.map (Ty.shift d)
    decl := f.decl.map (FuncDef.shift d) }

/-- What a scope declares, with types shifted. -/
def ScopeBody.shift : ScopeBody → ScopeBody
  | .global => .global
  | .function func => .function func
  | .block vars => .block (vars.map (VarSymbol.shift d))

/-- A scope with the types in it shifted. -/
def Scope.shift (a : Scope) : Scope := { a with body := a.body.shift d }

/-- All symbols and scopes with their ids shifted. -/
def Store.shift (s : Store) : Store :=
  { s with
    funcs := s.funcs.map (FuncSymbol.shift d)
    scopes := s.scopes.map (Scope.shift d)
    constants := s.constants.map (VarSymbol.shift d) }

/-- All global functions are there, and none is a lambda. -/
def Store.Named (s : Store) : Prop :=
  ∀ id ∈ s.functions, ∃ f, s.func? id = some f ∧ f.kind ≠ .lambda

variable {d}

/-! ### Symbols -/

@[simp] theorem VarSymbol.isTemplate_shift (v : VarSymbol) :
    (v.shift d).isTemplate = v.isTemplate := by
  rcases v with ⟨_, _ | t, _⟩
  · rfl
  · exact t.isTemplate_shift

theorem VarSymbol.withType?_shift (v : VarSymbol) (t : Ty) :
    (v.shift d).withType? (t.shift d) = (v.withType? t).map (VarSymbol.shift d) := by
  rcases v with ⟨name, _ | u, isVar⟩ <;> rfl

namespace FuncSymbol

theorem name_shift {f : FuncSymbol} (h : f.kind ≠ .lambda) : (f.shift d).name = f.name :=
  shiftName_of_ne d h f.name

theorem paramTypes_shift (f : FuncSymbol) :
    (f.shift d).paramTypes = f.paramTypes.map (Ty.shift d) := by
  simp only [paramTypes, shift, List.map_map]
  congr 1
  funext p
  exact Ty.getD_unit_shift p.type

@[simp] theorem isTemplate_shift (f : FuncSymbol) : (f.shift d).isTemplate = f.isTemplate := by
  simp only [isTemplate, shift, List.any_map]
  congr 1
  funext p
  exact p.isTemplate_shift

theorem type?_shift (f : FuncSymbol) : (f.shift d).type? = f.type?.map (Ty.shift d) := by
  have hret : (f.shift d).ret = f.ret.map (Ty.shift d) := rfl
  have hkind : (f.shift d).kind = f.kind := rfl
  simp only [type?, paramTypes_shift, hret, hkind]
  split
  · cases f.ret <;> simp
  · simp

theorem withRet?_shift (f : FuncSymbol) (t : Ty) :
    (f.shift d).withRet? (t.shift d) = (f.withRet? t).map (FuncSymbol.shift d) := by
  simp only [withRet?, shift, Option.isSome_map]
  split <;> rfl

theorem sameParam_shift (p q : VarSymbol) :
    sameParam (p.shift d) (q.shift d) = sameParam p q := by
  have heq : (p.shift d).type = (q.shift d).type ↔ p.type = q.type :=
    Option.map_inj_right fun _ _ h => Ty.shift_inj.mp h
  simp only [sameParam, VarSymbol.isTemplate_shift, heq]

theorem sameDeclaration_shift {f g : FuncSymbol} (hf : f.kind ≠ .lambda) (hg : g.kind ≠ .lambda) :
    (f.shift d).sameDeclaration (g.shift d) = f.sameDeclaration g := by
  have hfparams : (f.shift d).params = f.params.map (VarSymbol.shift d) := rfl
  have hgparams : (g.shift d).params = g.params.map (VarSymbol.shift d) := rfl
  simp only [sameDeclaration, name_shift hf, name_shift hg, hfparams, hgparams, List.length_map,
    List.zip_map, List.all_map]
  congr 1
  congr 1
  funext p
  exact sameParam_shift p.1 p.2

end FuncSymbol

/-! ### Overloads -/

namespace Overload

variable {κ : Type}

theorem score_shift (f : FuncSymbol) (args : List Ty) :
    score (f.shift d) (args.map (Ty.shift d)) = score f args := by
  rw [score, f.paramTypes_shift, scoreParams_shift]
  rfl

theorem foldl_better_shift (args : List Ty) (candidates : List (κ × FuncSymbol))
    (best : Option ((κ × FuncSymbol) × Nat)) :
    (candidates.map fun c => (c.1, c.2.shift d)).foldl (better (args.map (Ty.shift d)))
        (best.map fun b => ((b.1.1, b.1.2.shift d), b.2)) =
      (candidates.foldl (better args) best).map fun b => ((b.1.1, b.1.2.shift d), b.2) := by
  induction candidates generalizing best with
  | nil => rfl
  | cons c rest ih =>
    rw [List.map_cons, List.foldl_cons, List.foldl_cons, ← ih]
    congr 1
    simp only [better, Option.map_map, Function.comp_def, score_shift]
    split <;> rfl

/-- Among shifted candidates the shifted one is selected. -/
theorem select_shift {candidates : List (κ × FuncSymbol)}
    (h : ∀ c ∈ candidates, c.2.kind ≠ .lambda) (name : String) (args : List Ty) :
    select (candidates.map fun c => (c.1, c.2.shift d)) name (args.map (Ty.shift d)) =
      (select candidates name args).map fun b => ((b.1.1, b.1.2.shift d), b.2) := by
  unfold select
  rw [List.filter_map, ← foldl_better_shift args _ none]
  have hnames : candidates.filter ((fun c : κ × FuncSymbol => c.2.name == name) ∘
      fun c => (c.1, c.2.shift d)) = candidates.filter fun c => c.2.name == name :=
    List.filter_congr fun c hc => by rw [Function.comp_apply, FuncSymbol.name_shift (h c hc)]
  rw [hnames]
  rfl

end Overload

namespace Store

variable (s : Store)

theorem scopes_shift (id : ScopeId) : (s.shift d).scopes[id]? = s.scopes[id]?.map (Scope.shift d) :=
  Array.getElem?_map

@[simp] theorem func?_shift (id : FuncId) :
    (s.shift d).func? id = (s.func? id).map (FuncSymbol.shift d) := Array.getElem?_map

@[simp] theorem chain_shift (id : ScopeId) : (s.shift d).chain id = s.chain id := by
  unfold chain
  rw [scopes_shift]
  cases s.scopes[id]? <;> rfl

@[simp] theorem scopeFuncId?_shift (id : ScopeId) :
    (s.shift d).scopeFuncId? id = s.scopeFuncId? id := by
  unfold scopeFuncId?
  rw [scopes_shift]
  rcases s.scopes[id]? with _ | ⟨_ | _ | _, _, _⟩ <;> rfl

@[simp] theorem scopeFunc?_shift (id : ScopeId) :
    (s.shift d).scopeFunc? id = (s.scopeFunc? id).map (FuncSymbol.shift d) := by
  unfold scopeFunc?
  rw [scopeFuncId?_shift]
  cases s.scopeFuncId? id with
  | none => rfl
  | some id => exact func?_shift s id

@[simp] theorem var?_shift (handle : VarHandle) :
    (s.shift d).var? handle = (s.var? handle).map (VarSymbol.shift d) := by
  cases handle with
  | constant i => exact Array.getElem?_map
  | param scope i =>
    simp only [var?, scopeFunc?_shift]
    cases s.scopeFunc? scope with
    | none => rfl
    | some f => exact List.getElem?_map
  | inner scope i =>
    simp only [var?, scopes_shift]
    rcases s.scopes[scope]? with _ | ⟨_ | _ | vars, _, _⟩
    · rfl
    · rfl
    · rfl
    · exact Array.getElem?_map

/-! ### Functions -/

theorem addFunc_shift (f : FuncSymbol) :
    (s.shift d).addFunc (f.shift d) = ((s.addFunc f).1, (s.addFunc f).2.shift d) := by
  simp [addFunc, shift]

theorem globalFuncs_shift :
    (s.shift d).globalFuncs = s.globalFuncs.map fun c => (c.1, c.2.shift d) := by
  unfold globalFuncs
  rw [List.map_filterMap]
  congr 1
  funext id
  rw [func?_shift, Option.map_map, Option.map_map]
  rfl

variable {s} {name : String}

theorem Named.globalFuncs (h : s.Named) {c : FuncId × FuncSymbol} (hc : c ∈ s.globalFuncs) :
    c.2.kind ≠ .lambda := by
  obtain ⟨id, hid, hc⟩ := List.mem_filterMap.mp hc
  obtain ⟨f, hf, hkind⟩ := h id (Array.mem_toList_iff.mp hid)
  rw [hf] at hc
  cases hc
  exact hkind

theorem Named.lookupFunctions (h : s.Named) {c : FuncId × FuncSymbol}
    (hc : c ∈ s.lookupFunctions name) : c.2.kind ≠ .lambda :=
  h.globalFuncs (List.mem_filter.mp hc).1

/-- Functions may be added, and change in anything but their kind. -/
theorem Named.of_functions {t : Store} (h : s.Named) (hfunctions : t.functions = s.functions)
    (hfunc : ∀ {id f}, s.func? id = some f → ∃ g, t.func? id = some g ∧ g.kind = f.kind) :
    t.Named := by
  intro id hid
  obtain ⟨f, hf, hkind⟩ := h id (hfunctions ▸ hid)
  obtain ⟨g, hg, hsame⟩ := hfunc hf
  exact ⟨g, hg, hsame ▸ hkind⟩

/-- What has the same functions has functions with the same names. -/
theorem Named.of_funcs {t : Store} (h : s.Named) (hfunctions : t.functions = s.functions)
    (hfuncs : t.funcs = s.funcs) : t.Named := by
  refine h.of_functions hfunctions fun {id f} hf => ⟨f, ?_, rfl⟩
  rw [Store.func?, hfuncs]
  exact hf

theorem Named.addFunc (h : s.Named) (f : FuncSymbol) : (s.addFunc f).2.Named := by
  refine h.of_functions rfl fun {id g} hg => ⟨g, ?_, rfl⟩
  have hlt : id < s.funcs.size := (Array.getElem?_eq_some_iff.mp hg).1
  change (s.funcs.push f)[id]? = some g
  rw [Array.getElem?_push_lt hlt]
  exact (Array.getElem?_eq_getElem hlt).symm.trans hg

theorem Named.defineFunction (h : s.Named) {id : FuncId} {f : FuncSymbol} {t : Store}
    (hf : s.func? id = some f) (hkind : f.kind ≠ .lambda) (ht : s.defineFunction id = .ok t) :
    t.Named := by
  unfold Store.defineFunction at ht
  dsimp only at ht
  split at ht
  · cases ht
  · cases ht
    intro i hi
    rcases Array.mem_push.mp hi with hi | rfl
    · exact h i hi
    · exact ⟨f, hf, hkind⟩

theorem lookupFunctions_shift (h : s.Named) (name : String) :
    (s.shift d).lookupFunctions name =
      (s.lookupFunctions name).map fun c => (c.1, c.2.shift d) := by
  unfold Store.lookupFunctions
  rw [globalFuncs_shift, List.filter_map]
  congr 1
  refine List.filter_congr fun c hc => ?_
  change ((c.2.shift d).name == name) = (c.2.name == name)
  rw [FuncSymbol.name_shift (h.globalFuncs hc)]

/-- A function that is no lambda is declared twice in both or in neither. -/
theorem defineFunction_shift (h : s.Named) {id : FuncId} {f : FuncSymbol}
    (hf : s.func? id = some f) (hkind : f.kind ≠ .lambda) :
    (s.shift d).defineFunction id = (s.defineFunction id).map (Store.shift d) := by
  have hfind : ((s.globalFuncs.map fun c => (c.1, c.2.shift d)).find? fun c =>
      c.2.sameDeclaration (f.shift d)) = (s.globalFuncs.find? fun c =>
        c.2.sameDeclaration f).map fun c => (c.1, c.2.shift d) := by
    rw [List.find?_map]
    congr 1
    have hsame : ∀ c ∈ s.globalFuncs,
        ((fun c : FuncId × FuncSymbol => c.2.sameDeclaration (f.shift d)) ∘
          fun c => (c.1, c.2.shift d)) c = c.2.sameDeclaration f := fun c hc =>
      FuncSymbol.sameDeclaration_shift (h.globalFuncs hc) hkind
    generalize s.globalFuncs = candidates at hsame
    induction candidates with
    | nil => rfl
    | cons c rest ih =>
      rw [List.forall_mem_cons] at hsame
      rw [List.find?_cons, List.find?_cons, hsame.1, ih hsame.2]
  unfold defineFunction
  simp only [func?_shift, hf, Option.map_some, Option.any_some, globalFuncs_shift, hfind]
  cases s.globalFuncs.find? fun c => c.2.sameDeclaration f <;> rfl

/-! ### Variables and scopes -/

variable (s)

theorem lookupConstant_shift (name : String) :
    (s.shift d).lookupConstant name = s.lookupConstant name := by
  simp [lookupConstant, shift, Array.findIdx?_map, Function.comp_def, VarSymbol.shift]

theorem defineConstant_shift (v : VarSymbol) : (s.shift d).defineConstant (v.shift d) =
    (s.defineConstant v).map fun r => (r.1, r.2.shift d) := by
  have hfind : (s.shift d).constants.findIdx? (fun c => c.name == (v.shift d).name) =
      s.constants.findIdx? fun c => c.name == v.name := by
    simp [shift, Array.findIdx?_map, Function.comp_def, VarSymbol.shift]
  unfold defineConstant
  rw [hfind]
  cases s.constants.findIdx? fun c => c.name == v.name with
  | some i => rfl
  | none => simp [shift, Except.map]

theorem openFunction_shift (func : Option FuncId) (enclosing : ScopeId) :
    (s.shift d).openFunction func enclosing =
      ((s.openFunction func enclosing).1, (s.openFunction func enclosing).2.shift d) := by
  unfold openFunction
  rw [chain_shift]
  simp [shift, Scope.shift, ScopeBody.shift]

/-- A change of one scope that does not look at types is the same change in both. -/
theorem modify_scopes_shift (id : ScopeId) (f f' : Scope → Scope)
    (hf : ∀ a, (f a).shift d = f' (a.shift d)) :
    (s.scopes.map (Scope.shift d)).modify id f' = (s.scopes.modify id f).map (Scope.shift d) := by
  apply Array.ext_getElem?
  intro i
  simp only [Array.getElem?_modify, Array.getElem?_map, apply_ite (Option.map (Scope.shift d)),
    Option.map_map, Function.comp_def, hf]

theorem openBlock_shift (parent : ScopeId) : (s.shift d).openBlock parent =
    (s.openBlock parent).map fun r => (r.1, r.2.shift d) := by
  have hopen := s.modify_scopes_shift (d := d) parent
    (fun a => { a with blocks := a.blocks.push s.scopes.size })
    (fun a => { a with blocks := a.blocks.push s.scopes.size }) fun _ => rfl
  unfold openBlock
  rw [scopes_shift, chain_shift]
  rcases s.scopes[parent]? with _ | ⟨_ | _ | _, _, _⟩ <;> try rfl
  all_goals
    simp only [Option.map_some, Scope.shift, ScopeBody.shift, Except.map, shift, Array.size_map,
      Array.map_push, hopen, Array.map_empty]

theorem lookupOwn_shift (id : ScopeId) (name : String) :
    (s.shift d).lookupOwn id name = s.lookupOwn id name := by
  unfold lookupOwn
  rw [scopes_shift]
  rcases s.scopes[id]? with _ | ⟨_ | _ | vars, _, _⟩
  · rfl
  · rfl
  · rfl
  · simp [Scope.shift, ScopeBody.shift, Array.findIdx?_map, Function.comp_def, VarSymbol.shift]

theorem lookupParam_shift (id : ScopeId) (name : String) :
    (s.shift d).lookupParam id name = s.lookupParam id name := by
  unfold lookupParam
  rw [scopeFunc?_shift]
  cases s.scopeFunc? id with
  | none => rfl
  | some f => simp [FuncSymbol.shift, List.findIdx?_map, Function.comp_def, VarSymbol.shift]

theorem lookupIn_shift (name : String) (id : ScopeId) :
    (s.shift d).lookupIn name id = s.lookupIn name id := by
  unfold lookupIn
  rw [scopes_shift, lookupParam_shift, lookupOwn_shift, lookupConstant_shift]
  rcases s.scopes[id]? with _ | ⟨_ | _ | _, _, _⟩ <;> rfl

theorem lookupVar_shift (id : ScopeId) (name : String) :
    (s.shift d).lookupVar id name = s.lookupVar id name := by
  unfold lookupVar
  rw [chain_shift]
  congr 1
  funext id
  exact s.lookupIn_shift name id

theorem isFunction_shift (id : ScopeId) : (s.shift d).isFunction id = s.isFunction id := by
  unfold isFunction
  rw [scopes_shift]
  rcases s.scopes[id]? with _ | ⟨_ | _ | _, _, _⟩ <;> rfl

theorem isBlock_shift (id : ScopeId) : (s.shift d).isBlock id = s.isBlock id := by
  unfold isBlock
  rw [scopes_shift]
  rcases s.scopes[id]? with _ | ⟨_ | _ | _, _, _⟩ <;> rfl

theorem enclosingFunction_shift (id : ScopeId) :
    (s.shift d).enclosingFunction id = s.enclosingFunction id := by
  unfold enclosingFunction
  rw [chain_shift]
  congr 1
  funext id
  exact s.isFunction_shift id

theorem defineVar_shift (id : ScopeId) (v : VarSymbol) : (s.shift d).defineVar id (v.shift d) =
    (s.defineVar id v).map fun r => (r.1, r.2.shift d) := by
  have hname : (v.shift d).name = v.name := rfl
  unfold defineVar
  rw [hname, lookupOwn_shift, scopes_shift]
  cases s.lookupOwn id v.name with
  | some existing => rfl
  | none =>
    refine congrArg Except.ok (Prod.ext ?_ ?_)
    · rcases s.scopes[id]? with _ | ⟨_ | _ | _, _, _⟩ <;> simp [Scope.shift, ScopeBody.shift]
    · simp only [shift, mk.injEq, and_true, true_and]
      refine s.modify_scopes_shift id _ _ ?_
      rintro ⟨_ | _ | vars, _, _⟩ <;> simp [Scope.shift, ScopeBody.shift]

/-! ### Types that are found out -/

theorem setConstantType?_shift (index : Nat) (type : Ty) :
    (s.shift d).setConstantType? index (type.shift d) =
      (s.setConstantType? index type).map (Store.shift d) := by
  have hconstant : (s.shift d).constants[index]? = s.constants[index]?.map (VarSymbol.shift d) :=
    Array.getElem?_map
  unfold setConstantType?
  rw [hconstant]
  cases s.constants[index]? with
  | none => rfl
  | some v =>
    simp only [Option.map_some, Option.bind_eq_bind, Option.bind_some, v.withType?_shift]
    cases v.withType? type with
    | none => rfl
    | some w => simp [shift]

theorem setRet?_shift (id : FuncId) (type : Ty) :
    (s.shift d).setRet? id (type.shift d) = (s.setRet? id type).map (Store.shift d) := by
  unfold setRet?
  rw [func?_shift]
  cases s.func? id with
  | none => rfl
  | some f =>
    simp only [Option.map_some, Option.bind_eq_bind, Option.bind_some, f.withRet?_shift]
    cases f.withRet? type with
    | none => rfl
    | some g => simp [shift]

end Store

end Frontend
