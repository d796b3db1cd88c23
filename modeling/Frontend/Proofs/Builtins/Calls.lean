import Frontend.Proofs.Builtins.Parallel
import Frontend.Proofs.Calls.Overload

/-!
# Declarations and calls side by side

A function that is declared gets its id behind the builtin functions, and a call by a name that no
builtin function has finds the same function.
-/

namespace Frontend

/-- Demands of code that mentions no builtin function are met alike. -/
structure Demand.Discreet (w : Demand) : Prop where
  constant : ∀ {d : ConstDef}, Frontend.Discreet (exprsNames d.values) → Alike (w.constant d)
  function : ∀ {d : FuncDef}, Frontend.Discreet d.names → Alike (w.function d)
  definitionOf : ∀ {name d}, w.definitionOf name = some d → Frontend.Discreet (exprsNames d.values)
  visit : ∀ visit, Alike (w.visit visit)

variable {w : Demand} {position : Position} {scope : ScopeId} {name : String}

namespace Check

/-! ### Declarations -/

theorem linkParams_alike (scope : ScopeId) (index : Nat) (params : List Param) :
    Alike (linkParams scope index params) := by
  induction params generalizing index with
  | nil => exact .pure rfl
  | cons p rest ih => exact (link_parallel _ (.var _)).next fun _ => ih _

theorem addFunc_discreet {st : Store} (h : st.Discreet) {f : FuncSymbol} (hf : f.Discreet) :
    (st.addFunc f).2.Discreet := by
  intro g hg
  rcases Array.mem_push.mp hg with hg | rfl
  · exact h g hg
  · exact hf

theorem declareFunction_parallel {d : FuncDef} (hd : Discreet d.names) (enclosing : ScopeId)
    (concrete : Option (List Ty)) :
    Parallel (fun a a' => a' = (a.1, Builtin.behind a.2)) (declareFunction d enclosing concrete)
      (declareFunction d enclosing concrete) := by
  refine (Stateless.ofResult _).alike.next fun params => ?_
  refine (denoted?_stateless _).alike.next fun ret => ?_
  refine store_parallel.bind ?_
  rintro st _ ⟨rfl, hst⟩
  simp only [Store.addFunc_behind, Store.openFunction_behind]
  have hf : FuncSymbol.Discreet
      { name := d.name, params, ret, kind := d.kind, isBuiltin := false, decl := some d } := by
    rintro _ ⟨⟩
    exact hd
  refine (setStore_parallel ?_).next fun _ => ?_
  · exact addFunc_discreet hst hf
  · exact (linkParams_alike _ _ _).next fun _ => (setScope_alike _ _).next fun _ => .pure rfl

theorem declareLambda_parallel {d : FuncDef} (hd : Discreet d.names) (hints : List Ty) :
    Parallel (fun a a' => a' = (a.1, Builtin.behind a.2)) (declareLambda scope d hints)
      (declareLambda scope d hints) := by
  refine (lambdaParams_stateless _ _).alike.next fun params => ?_
  refine (declareFunction_parallel hd scope (some params)).bind ?_
  rintro ⟨inner, id⟩ _ rfl
  refine (Parallel.modify fun {s s'} hs => ?_).next fun _ => .pure rfl
  exact { hs with
    store := by simp [hs.store, Store.behind]
    discreet := hs.discreet }

theorem defineLocal_alike (scope : ScopeId) (name : String) (type : Ty) (isVar : Bool) :
    Alike (defineLocal scope name type isVar position) := by
  refine store_parallel.bind ?_
  rintro st _ ⟨rfl, hst⟩
  rw [Store.isBlock_behind, Store.defineVar_behind]
  cases hblock : st.isBlock scope with
  | false => exact .fault _ _
  | true =>
    cases hdefine : st.defineVar scope ⟨name, some type, isVar⟩ with
    | error existing => exact .fail _ _
    | ok r =>
      have hr : r.2.Discreet := by
        obtain ⟨_, _, _, -, -, -, -, hfuncs, -⟩ := Store.defineVar_eq_ok hblock hdefine
        unfold Store.Discreet
        rw [hfuncs]
        exact hst
      exact (setStore_parallel hr).next fun _ => .pure rfl

theorem declareVar_alike (scope : ScopeId) (info : NodeInfo) (name : String) (type : Ty)
    (isVar : Bool) : Alike (declareVar scope info name type isVar) := by
  unfold declareVar
  split
  · exact .pure rfl
  · exact (defineLocal_alike _ _ _ _).next fun handle => link_parallel _ (.var handle)

theorem declareVars_alike (decls : List VarDecl) (explicit : List (Option Ty)) (types : List Ty) :
    Alike (declareVars scope decls explicit types) := by
  induction decls generalizing explicit types with
  | nil => exact .pure rfl
  | cons d rest ih =>
    cases explicit with
    | nil => exact .pure rfl
    | cons expected explicit =>
      cases types with
      | nil => exact .pure rfl
      | cons type types =>
        exact (expectTypeIf_stateless _ _).alike.next fun _ =>
          (declareVar_alike _ _ _ _ _).next fun _ => ih _ _

theorem declareLoopVars_alike (params : List Param) (types : List Ty) :
    Alike (declareLoopVars scope params types) := by
  induction params generalizing types with
  | nil => exact .pure rfl
  | cons p rest ih =>
    cases types with
    | nil => exact .pure rfl
    | cons type types =>
      exact (denoted?_stateless _).alike.next fun _ => (expectTypeIf_stateless _ _).alike.next
        fun _ => (declareVar_alike _ _ _ _ _).next fun _ => ih _

/-! ### Results -/

theorem returnType_parallel (id : FuncId) (type : Ty) :
    Parallel Eq (returnType id type position) (returnType (Builtin.behind id) type position) := by
  refine (func_parallel id).bind ?_
  rintro _ f ⟨rfl, -⟩
  split
  · split
    · exact .pure rfl
    · exact .fail _ _
  · cases f.ret with
    | some expected => exact (expectType_stateless _ _).alike
    | none => exact setRet_parallel id type

theorem settleReturn_parallel (id : FuncId) :
    Parallel Eq (settleReturn id) (settleReturn (Builtin.behind id)) := by
  refine (func_parallel id).bind ?_
  rintro _ f ⟨rfl, -⟩
  split
  · exact setRet_parallel id .unit
  · exact .pure rfl

theorem typeCallee_parallel (callee : Nat) (id : FuncId) :
    Parallel Eq (typeCallee callee id) (typeCallee callee (Builtin.behind id)) := by
  refine (func_parallel id).bind ?_
  rintro _ f ⟨rfl, -⟩
  cases f.type? with
  | some type => exact setType_alike callee type
  | none => exact .pure rfl

theorem assignTargets_alike (targets : List Expr) (hints : List (Option Ty)) (types : List Ty) :
    Alike (assignTargets targets hints types) := by
  induction targets generalizing hints types with
  | nil => exact .pure rfl
  | cons target rest ih =>
    cases hints with
    | nil => exact .pure rfl
    | cons expected hints =>
      cases types with
      | nil => exact .pure rfl
      | cons type types =>
        refine Parallel.next ?_ fun _ => ih hints types
        cases expected with
        | none => exact setType_alike _ _
        | some expected =>
          exact (expectType_stateless _ _).alike.next fun _ => checkAssignable_alike target

theorem assignConstant_alike (handle : VarHandle) (type : Ty) :
    Alike (assignConstant handle type position) := by
  refine (typeOf?_alike handle).next fun known => ?_
  cases known with
  | some expected => exact (expectType_stateless _ _).alike
  | none =>
    cases handle with
    | constant index =>
      refine .modify fun {s s'} hs => ?_
      rw [hs.store, Store.setConstantType?_behind]
      cases h : s.store.setConstantType? index type with
      | none => exact hs.withStore hs.discreet
      | some st =>
        obtain ⟨v, -, -, rfl⟩ := Store.setConstantType?_eq_some h
        exact hs.withStore hs.discreet
    | param => exact .pure rfl
    | inner => exact .pure rfl

theorem assignConstants_alike (decls : List ConstDecl) (handles : List VarHandle)
    (types : List Ty) : Alike (assignConstants decls handles types) := by
  induction decls generalizing handles types with
  | nil => exact .pure rfl
  | cons d rest ih =>
    cases handles with
    | nil => exact .pure rfl
    | cons handle handles =>
      cases types with
      | nil => exact .pure rfl
      | cons type types => exact (assignConstant_alike _ _).next fun _ => ih _ _

/-! ### Calls -/

theorem visiting_alike (hw : w.Discreet) (node : Nat) {α : Type} {act : Check α} (h : Alike act) :
    Alike (visiting w node act) :=
  (hw.visit _).next fun _ => h.next fun _ => (hw.visit _).next fun _ => .pure rfl

theorem analysing_alike (hw : w.Discreet) (node : Nat) {act : Check Unit} (h : Alike act) :
    Alike (analysing w node act) :=
  (hw.visit _).next fun _ => (setProgress_alike _ _).next fun _ => h.next fun _ =>
    (setProgress_alike _ _).next fun _ => hw.visit _

theorem demandConstant_alike (hw : w.Discreet) (name : String) : Alike (demandConstant w name) := by
  unfold demandConstant
  cases hd : w.definitionOf name with
  | none => exact .pure rfl
  | some d =>
    refine (progress?_alike _).next fun begun => ?_
    split
    · exact .pure rfl
    · exact hw.constant (hw.definitionOf hd)

/-- The definition that declares a function is discreet if the function is. -/
theorem declaration_discreet {f : FuncSymbol} (hf : f.Discreet) {d : FuncDef}
    (h : f.declaration = .ok d) : Discreet d.names := by
  unfold FuncSymbol.declaration at h
  split at h
  · cases h
  · split at h
    · next definition hdecl =>
      cases h
      exact hf d hdecl
    · cases h

theorem declaration_parallel {f : FuncSymbol} (hf : f.Discreet) :
    Parallel (fun d d' => d' = d ∧ Discreet d.names) (ofResult (f.declaration.mapError .fault))
      (ofResult (f.declaration.mapError .fault)) := by
  cases h : f.declaration with
  | error e => exact .fault _ _
  | ok d => exact .pure ⟨rfl, declaration_discreet hf h⟩

theorem inferResult_alike (hw : w.Discreet) {f : FuncSymbol} (hf : f.Discreet) :
    Alike (inferResult w f position) := by
  unfold inferResult
  split
  · exact .pure rfl
  · refine (declaration_parallel hf).bind ?_
    rintro _ d ⟨rfl, hd⟩
    refine (progress?_alike _).next fun begun => ?_
    split
    · exact .fail _ _
    · exact .pure rfl
    · exact hw.function hd

theorem callResult_parallel (hw : w.Discreet) (id : FuncId) :
    Parallel Eq (callResult w id position) (callResult w (Builtin.behind id) position) := by
  refine (func_parallel id).bind ?_
  rintro _ f ⟨rfl, hf⟩
  split
  · exact .pure rfl
  · cases f.ret with
    | some ret => exact .pure rfl
    | none =>
      refine (inferResult_alike hw hf).next fun _ => (func_parallel id).bind ?_
      rintro _ g ⟨rfl, -⟩
      exact .pure rfl

theorem funcValue_parallel (hw : w.Discreet) (id : FuncId) :
    Parallel Eq (funcValue w id position) (funcValue w (Builtin.behind id) position) := by
  refine (func_parallel id).bind ?_
  rintro _ f ⟨rfl, -⟩
  split
  · exact .pure rfl
  · exact (callResult_parallel hw id).next fun _ => .pure rfl

theorem makeInstance_parallel {d : FuncDef} (hd : Discreet d.names) (args : List Ty)
    (depth : Nat) :
    Parallel (fun a a' => a' = (a.1, Builtin.behind a.2) ∧ Discreet a.1.names)
      (makeInstance d args depth) (makeInstance d args depth) := by
  refine Parallel.bind (.modifyGet fun {s s'} hs => ?_ :
    Parallel (fun c c' => c' = c ∧ Discreet c.names) _ _) ?_
  · have hnames : (d.copy.run s.nextId).1.names = d.names := d.names_copy s.nextId
    rw [hs.nextId]
    rcases hcopy : d.copy.run s.nextId with ⟨copy, next⟩
    rw [hcopy] at hnames
    refine ⟨⟨rfl, ?_⟩, ?_⟩
    · rw [hnames]
      exact hd
    · exact { hs with
        copies := by simp only [Resolution.addCopy, hs.copies]
        nextId := rfl }
  · rintro _ copy ⟨rfl, hcopy⟩
    refine (declareFunction_parallel hcopy Store.globalScope (some args)).bind ?_
    rintro ⟨scope, id⟩ _ rfl
    refine (Parallel.modify fun {s s'} hs => ?_).next fun _ => .pure ⟨rfl, hcopy⟩
    exact { hs with
      store := by simp [hs.store, Store.behind]
      discreet := hs.discreet
      known := by simp [hs.known, Instance.behind]
      active := by simp [hs.active] }

theorem instantiate_parallel (hw : w.Discreet) {template : FuncSymbol} (hf : template.Discreet)
    (args : List Ty) : Parallel (fun id id' => id' = Builtin.behind id)
      (instantiate w template args position) (instantiate w template args position) := by
  refine (declaration_parallel hf).bind ?_
  rintro _ d ⟨rfl, hd⟩
  refine (hw.visit _).next fun _ => Parallel.get.bind fun s s' hs => ?_
  have hfind : (s'.known.find? fun i => i.template == d.info.id && decide (i.args = args)) =
      (s.known.find? fun i => i.template == d.info.id && decide (i.args = args)).map
        Instance.behind := by
    rw [hs.known, List.find?_map]
    rfl
  rw [hfind, hs.active]
  cases s.known.find? fun i => i.template == d.info.id && decide (i.args = args) with
  | some known => exact .pure rfl
  | none =>
    dsimp only [Option.map_none]
    split
    · exact .fail _ _
    · refine (makeInstance_parallel hd args _).bind ?_
      rintro ⟨copy, id⟩ _ ⟨rfl, hcopy⟩
      refine ((hw.function hcopy).andFinally fun {t t'} ht => ?_).next fun _ => .pure rfl
      exact { ht with active := by rw [ht.active] }

theorem selected_parallel (hw : w.Discreet) (id : FuncId) {f : FuncSymbol} (hf : f.Discreet)
    (args : List Ty) : Parallel (fun id id' => id' = Builtin.behind id)
      (selected w id f args position) (selected w (Builtin.behind id) f args position) := by
  unfold selected
  split
  · exact instantiate_parallel hw hf args
  · exact .pure rfl

/-- A call by a name that no builtin function has finds the same function. -/
theorem callFunction_parallel (hw : w.Discreet) (hname : name ∉ Builtin.names) (args : List Ty) :
    Parallel (fun a a' => a' = (Builtin.behind a.1, a.2)) (callFunction w name args position)
      (callFunction w name args position) := by
  refine store_parallel.bind ?_
  rintro st _ ⟨rfl, hst⟩
  dsimp only
  rw [Store.lookupFunctions_behind hname, Overload.select_map, List.isEmpty_map]
  split
  · exact .fail _ _
  · cases h : Overload.select (st.lookupFunctions name) name args with
    | none => exact .fail _ _
    | some choice =>
      have hf : choice.1.2.Discreet := hst.lookupFunctions (Overload.select_eq_some h).1
      refine (selected_parallel hw choice.1.1 hf args).bind ?_
      rintro id _ rfl
      exact (callResult_parallel hw id).next fun _ => .pure rfl

theorem demandVariable_alike (hw : w.Discreet) (handle : VarHandle) (name : String) :
    Alike (demandVariable w handle name) := by
  refine store_parallel.bind ?_
  rintro st _ ⟨rfl, -⟩
  rw [Store.var?_behind]
  split
  · exact demandConstant_alike hw name
  · exact .pure rfl

theorem variableType_alike (hw : w.Discreet) (handle : VarHandle) (name : String) :
    Alike (variableType w handle name position) := by
  refine (demandVariable_alike hw handle name).next fun _ => store_parallel.bind ?_
  rintro st _ ⟨rfl, -⟩
  rw [Store.var?_behind]
  split
  · exact .pure rfl
  · exact .fail _ _

theorem nameType_alike (hw : w.Discreet) (info : NodeInfo) (hname : name ∉ Builtin.names) :
    Alike (nameType w scope info name) := by
  refine store_parallel.bind ?_
  rintro st _ ⟨rfl, -⟩
  rw [Store.lookupVar_behind, Store.lookupFunctions_behind hname, List.isEmpty_map,
    List.filter_map]
  cases st.lookupVar scope name with
  | some handle =>
    exact (link_parallel _ (.var handle)).next fun _ => variableType_alike hw handle name
  | none =>
    dsimp only
    split
    · exact .pure rfl
    · split
      · exact .fail _ _
      · have hplain : (fun c : FuncId × FuncSymbol => !c.2.isTemplate) ∘
            (fun c : FuncId × FuncSymbol => (Builtin.behind c.1, c.2)) =
              fun c => !c.2.isTemplate := rfl
        rw [hplain]
        generalize (st.lookupFunctions name).filter _ = found
        match found with
        | [] => exact .fail _ _
        | [(id, _)] => exact (link_parallel _ (.func id)).next fun _ => funcValue_parallel hw id
        | _ :: _ :: _ => exact .fail _ _

theorem callByName_alike (hw : w.Discreet) (site callee : NodeInfo) (hname : name ∉ Builtin.names)
    (args : List Ty) : Alike (callByName w site callee name args) := by
  refine (callFunction_parallel hw hname args).bind ?_
  rintro ⟨id, type⟩ _ rfl
  exact (link_parallel _ (.func id)).next fun _ => (link_parallel _ (.func id)).next fun _ =>
    (typeCallee_parallel _ id).next fun _ => .pure rfl

end Check

end Frontend
