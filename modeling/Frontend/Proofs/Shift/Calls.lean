import Frontend.Proofs.Shift.Actions
import Frontend.Proofs.Calls.Overload
import Frontend.Proofs.Shift.Copy

/-!
# Declarations and calls with later ids

A shifted definition is declared as a shifted symbol, and a call finds the same function among
shifted ones. A template has the same instances, whose copies are shifted.
-/

namespace Frontend

variable {d : Nat}

/-- A moment of an analysis with its ids shifted. -/
def Visit.shift (d : Nat) : Visit → Visit
  | .begin definition => .begin (shiftId d definition)
  | .finish definition => .finish (shiftId d definition)
  | .enter node => .enter (shiftId d node)
  | .leave node => .leave (shiftId d node)
  | .request template name args position =>
    .request (shiftId d template) name (args.map (Ty.shift d)) position

/-- Demands of shifted definitions are met as those of the definitions. -/
structure Demand.Shifted (d : Nat) (w w' : Demand) : Prop where
  constant : ∀ c, Agree (Check.twin d) (w.constant c) (w'.constant (c.shift d))
  function : ∀ f, Agree (Check.twin d) (w.function f) (w'.function (f.shift d))
  definitionOf : ∀ name, w'.definitionOf name = (w.definitionOf name).map (ConstDef.shift d)
  visit : ∀ moment, Agree (Check.twin d) (w.visit moment) (w'.visit (moment.shift d))

namespace Check

variable {w w' : Demand} {position : Position} {scope : ScopeId}

/-! ### Declarations -/

/-- A placeholder is named after the shifted id of its parameter. -/
theorem paramType_shift (concrete : Option (List Ty)) (p : Param) :
    paramType (concrete.map (List.map (Ty.shift d))) (p.shift d) =
      (paramType concrete p).map (Ty.shift d) := by
  rcases concrete with _ | ⟨_ | ⟨type, types⟩⟩
  · cases htype : p.type with
    | none =>
      simp only [paramType, Param.shift, htype, Option.map_none]
      exact congrArg Except.ok (by simp [NodeInfo.shift])
    | some written =>
      simp only [paramType, Param.shift, htype, Option.map_none, Option.map_some,
        written.resolve_shift]
      cases written.resolve <;> rfl
  · rfl
  · rfl

theorem paramSymbols_shift (used : List String) (concrete : Option (List Ty))
    (params : List Param) :
    paramSymbols used (concrete.map (List.map (Ty.shift d))) (params.map (Param.shift d)) =
      (paramSymbols used concrete params).map (List.map (VarSymbol.shift d)) := by
  induction params generalizing used concrete with
  | nil => rfl
  | cons p rest ih =>
    have hname : (p.shift d).name = p.name := rfl
    have htail : (concrete.map (List.map (Ty.shift d))).map List.tail =
        (concrete.map List.tail).map (List.map (Ty.shift d)) := by
      cases concrete <;> simp
    rw [List.map_cons, paramSymbols, paramSymbols, hname, htail, ih, paramType_shift]
    split
    · rfl
    · exact map_bind_map _ fun type => map_bind_map _ fun symbols => rfl

/-- Parameters are refused for a plain cause only. -/
theorem paramSymbols_failsOnly (used : List String) (concrete : Option (List Ty))
    (params : List Param) : FailsOnly Failure.isPlain (paramSymbols used concrete params) := by
  induction params generalizing used concrete with
  | nil => exact .pure _
  | cons p rest ih =>
    have htype : FailsOnly Failure.isPlain (paramType concrete p) := by
      rcases concrete with _ | ⟨_ | ⟨type, types⟩⟩
      · cases hwritten : p.type with
        | none =>
          simp only [paramType, hwritten]
          exact .pure _
        | some written =>
          simp only [paramType, hwritten]
          exact written.denotes_failsOnly
      · exact .throw rfl
      · exact .pure _
    unfold paramSymbols
    split
    · exact .throw rfl
    · exact htype.bind fun _ => (ih _ _).bind fun _ => .pure _

theorem linkParams_shifts (scope : ScopeId) (index : Nat) (params : List Param) :
    Agree (twin d) (linkParams scope index params)
      (linkParams scope index (params.map (Param.shift d))) := by
  induction params generalizing index with
  | nil => exact .pure rfl
  | cons p rest ih => exact (link_shifts p.info.id (.var _)).next fun _ => ih _

theorem declareFunction_shifts (f : FuncDef) (enclosing : ScopeId) (concrete : Option (List Ty)) :
    Agree (twin d) (declareFunction f enclosing concrete)
      (declareFunction (f.shift d) enclosing (concrete.map (List.map (Ty.shift d)))) := by
  have hret : (if (f.shift d).kind.returnsValue then (f.shift d).returnType else none) =
      (if f.kind.returnsValue then f.returnType else none).map (TypeExpr.shift d) := by
    rw [f.kind_shift, f.returnType_shift]
    split <;> rfl
  unfold declareFunction
  rw [f.params_shift, paramSymbols_shift, hret]
  refine (ofResult_shifts _ (paramSymbols_failsOnly _ _ _)).carry fun params => ?_
  refine (denoted?_shifts _).carry fun ret => ?_
  refine shifts_store fun st hst => ?_
  have hsymbol : (⟨(f.shift d).name, params.map (VarSymbol.shift d), ret.map (Ty.shift d),
      (f.shift d).kind, false, some (f.shift d)⟩ : FuncSymbol) =
        FuncSymbol.shift d ⟨f.name, params, ret, f.kind, false, some f⟩ := by
    rw [f.name_shift, f.kind_shift]
    rfl
  rw [hsymbol]
  simp only [Store.addFunc_shift, Store.openFunction_shift]
  refine (setStore_shifts ?_).next fun _ => ?_
  · exact hst.addFunc _
  · rw [f.info_shift]
    exact (linkParams_shifts _ _ _).next fun _ => (setScope_shifts _ _).next fun _ => .pure rfl

/-! ### Lambdas -/

theorem lambdaParam_shifts (p : Param) (hints : List Ty) :
    Carries (twin d) (Ty.shift d) (lambdaParam p hints)
      (lambdaParam (p.shift d) (hints.map (Ty.shift d))) := by
  rcases p with ⟨info, isVar, name, _ | written⟩
  · rcases hints with _ | ⟨hint, hints⟩
    · exact fail_same rfl
    · simp only [Param.shift, Option.map_none, List.map_cons, lambdaParam, Ty.isTemplate_shift]
      split
      · exact fail_same rfl
      · exact .pure rfl
  · exact denoted_shifts written

theorem lambdaParams_shifts (params : List Param) (hints : List Ty) :
    Carries (twin d) (List.map (Ty.shift d)) (lambdaParams params hints)
      (lambdaParams (params.map (Param.shift d)) (hints.map (Ty.shift d))) := by
  induction params generalizing hints with
  | nil => exact .pure rfl
  | cons p rest ih =>
    have hrest := ih hints.tail
    rw [List.map_tail] at hrest
    exact (lambdaParam_shifts p hints).carry fun type => hrest.carry fun types => .pure rfl

theorem declareLambda_shifts (scope : ScopeId) (f : FuncDef) (hints : List Ty) :
    Carries (twin d) (Prod.map (List.map (Ty.shift d)) id) (declareLambda scope f hints)
      (declareLambda scope (f.shift d) (hints.map (Ty.shift d))) := by
  unfold declareLambda
  rw [f.params_shift]
  refine (lambdaParams_shifts _ _).carry fun params => ?_
  refine (declareFunction_shifts f scope (some params)).next fun declared => ?_
  refine (Alongside.modify fun {s s'} hs => ?_).next fun _ => .pure rfl
  exact { hs with
    store := by simp [hs.store, Store.shift]
    named := hs.named }

/-! ### Demands -/

theorem visiting_shifts {α : Type} {good : α → α → Prop} (hw : Demand.Shifted d w w') (node : Nat)
    {act act' : Check α} (h : Alongside (twin d) good act act') :
    Alongside (twin d) good (visiting w node act) (visiting w' (shiftId d node) act') :=
  (hw.visit (.enter node)).next fun _ => h.bind fun _ _ ha =>
    (hw.visit (.leave node)).next fun _ => .pure ha

theorem analysing_shifts (hw : Demand.Shifted d w w') (node : Nat) {act act' : Check Unit}
    (h : Agree (twin d) act act') :
    Agree (twin d) (analysing w node act) (analysing w' (shiftId d node) act') :=
  (hw.visit (.begin node)).next fun _ => (setProgress_shifts _ _).next fun _ => h.next fun _ =>
    (setProgress_shifts _ _).next fun _ => hw.visit (.finish node)

theorem demandConstant_shifts (hw : Demand.Shifted d w w') (name : String) :
    Agree (twin d) (demandConstant w name) (demandConstant w' name) := by
  unfold demandConstant
  rw [hw.definitionOf]
  cases w.definitionOf name with
  | none => exact .pure rfl
  | some c =>
    refine (progress?_shifts c.info.id).next fun begun => ?_
    split
    · exact .pure rfl
    · exact hw.constant c

theorem declaration_shifts (f : FuncSymbol) :
    Carries (twin d) (FuncDef.shift d) (ofResult (f.declaration.mapError .fault))
      (ofResult ((f.shift d).declaration.mapError .fault)) := by
  have hbuiltin : (f.shift d).isBuiltin = f.isBuiltin := rfl
  have hdecl : (f.shift d).decl = f.decl.map (FuncDef.shift d) := rfl
  unfold FuncSymbol.declaration
  rw [hbuiltin, hdecl]
  split
  · exact fault_shifts _ _
  · cases f.decl with
    | none => exact fault_shifts _ _
    | some f => exact .pure rfl

theorem inferResult_shifts (hw : Demand.Shifted d w w') (f : FuncSymbol) :
    Agree (twin d) (inferResult w f position) (inferResult w' (f.shift d) position) := by
  have hbuiltin : (f.shift d).isBuiltin = f.isBuiltin := rfl
  unfold inferResult
  rw [hbuiltin]
  split
  · exact .pure rfl
  · refine (declaration_shifts f).carry fun definition => ?_
    rw [definition.info_shift]
    refine (progress?_shifts definition.info.id).next fun begun => ?_
    split
    · exact fail_shifts (.notInferred f)
    · exact .pure rfl
    · exact hw.function definition

theorem callResult_shifts (hw : Demand.Shifted d w w') (id : FuncId) :
    Carries (twin d) (Ty.shift d) (callResult w id position) (callResult w' id position) := by
  refine (func_shifts id).carry fun f => ?_
  have hkind : (f.shift d).kind = f.kind := rfl
  have hret : (f.shift d).ret = f.ret.map (Ty.shift d) := rfl
  rw [hkind, hret]
  split
  · exact .pure (by simp)
  · cases f.ret with
    | some ret => exact .pure rfl
    | none =>
      refine (inferResult_shifts hw f).next fun _ => (func_shifts id).carry fun g => .pure ?_
      exact Ty.getD_unit_shift g.ret

theorem funcValue_shifts (hw : Demand.Shifted d w w') (id : FuncId) :
    Carries (twin d) (Ty.shift d) (funcValue w id position) (funcValue w' id position) := by
  refine (func_shifts id).carry fun f => ?_
  have hkind : (f.shift d).kind = f.kind := rfl
  rw [hkind, f.paramTypes_shift]
  split
  · exact .pure (by simp)
  · exact (callResult_shifts hw id).carry fun ret => .pure (by simp)

/-! ### Instances -/

theorem makeInstance_shifts (f : FuncDef) (args : List Ty) (depth : Nat) :
    Carries (twin d) (Prod.map (FuncDef.shift d) id) (makeInstance f args depth)
      (makeInstance (f.shift d) (args.map (Ty.shift d)) depth) := by
  refine Alongside.carry (g := FuncDef.shift d) (.modifyGet fun {s s'} hs => ?_) fun copy => ?_
  · obtain ⟨hlater, hcopy⟩ := f.copy_shift s.nextId hs.later
    rw [hs.nextId, f.info_shift]
    rw [hcopy]
    refine ⟨rfl, { hs with copies := ?_, nextId := rfl, later := hlater }⟩
    have hinsert := hs.copies.insert f.info.id
      ((s.copies.getD f.info.id #[]).push (f.copy.run s.nextId).1)
    rw [Array.map_push, ← hs.copies.getD, Array.map_empty] at hinsert
    exact hinsert
  · refine (declareFunction_shifts copy Store.globalScope (some args)).next fun declared => ?_
    refine (Alongside.modify fun {s s'} hs => ?_).next fun _ => .pure rfl
    rw [f.info_shift]
    exact { hs with
      store := by simp [hs.store, Store.shift]
      named := hs.named
      known := by simp [hs.known, Instance.shift, NodeInfo.shift]
      active := hs.active.insert f.info.id (depth + 1) }

/-- Among the instances of shifted templates the shifted one is found. -/
theorem known_find?_shift (known : List Instance) (template : Nat) (args : List Ty) :
    ((known.map (Instance.shift d)).find? fun i =>
        i.template == shiftId d template && decide (i.args = args.map (Ty.shift d))) =
      (known.find? fun i => i.template == template && decide (i.args = args)).map
        (Instance.shift d) := by
  rw [List.find?_map]
  congr 2
  funext i
  simp only [Function.comp_apply, Instance.shift, Ty.shiftAll_inj, beq_eq_decide,
    shiftId_injective.eq_iff]

theorem instantiate_shifts (hw : Demand.Shifted d w w') {template : FuncSymbol}
    (hkind : template.kind ≠ .lambda) (args : List Ty) :
    Agree (twin d) (instantiate w template args position)
      (instantiate w' (template.shift d) (args.map (Ty.shift d)) position) := by
  refine (declaration_shifts template).carry fun f => ?_
  rw [f.info_shift]
  dsimp only [NodeInfo.shift]
  rw [FuncSymbol.name_shift hkind]
  refine (hw.visit (.request f.info.id template.name args position)).next fun _ => ?_
  refine Alongside.get.bind fun s s' hs => ?_
  have hactive : s'.active.getD (shiftId d f.info.id) 0 = s.active.getD f.info.id 0 :=
    hs.active.getD f.info.id 0
  rw [hs.known, known_find?_shift, hactive]
  cases s.known.find? fun i => i.template == f.info.id && decide (i.args = args) with
  | some known => exact .pure rfl
  | none =>
    dsimp only [Option.map_none]
    split
    · exact fail_same rfl
    · refine (makeInstance_shifts f args _).carry fun made => ?_
      refine Alongside.next (.andFinally (hw.function made.1) fun ht => ?_) fun _ => .pure rfl
      exact { ht with active := ht.active.insert f.info.id _ }

theorem selected_shifts (hw : Demand.Shifted d w w') (id : FuncId) {f : FuncSymbol}
    (hkind : f.kind ≠ .lambda) (args : List Ty) :
    Agree (twin d) (selected w id f args position)
      (selected w' id (f.shift d) (args.map (Ty.shift d)) position) := by
  have hbuiltin : (f.shift d).isBuiltin = f.isBuiltin := rfl
  unfold selected
  rw [f.isTemplate_shift, hbuiltin]
  split
  · exact instantiate_shifts hw hkind args
  · exact .pure rfl

/-! ### Calls and names -/

/-- A call by name finds the same function. -/
theorem callFunction_shifts (hw : Demand.Shifted d w w') (name : String) (args : List Ty) :
    Carries (twin d) (Prod.map id (Ty.shift d)) (callFunction w name args position)
      (callFunction w' name (args.map (Ty.shift d)) position) := by
  refine shifts_store fun st hst => ?_
  have hnamed : ∀ c ∈ st.lookupFunctions name, c.2.kind ≠ .lambda := fun c => hst.lookupFunctions
  dsimp only
  rw [Store.lookupFunctions_shift hst, Overload.select_shift hnamed, List.isEmpty_map]
  split
  · exact fail_same rfl
  · cases h : Overload.select (st.lookupFunctions name) name args with
    | none => exact fail_shifts (.overload name args)
    | some choice =>
      have hkind : choice.1.2.kind ≠ .lambda := hnamed _ (Overload.select_eq_some h).1
      refine (selected_shifts hw choice.1.1 hkind args).next fun id => ?_
      exact (callResult_shifts hw id).carry fun _ => .pure rfl

theorem demandVariable_shifts (hw : Demand.Shifted d w w') (handle : VarHandle) (name : String) :
    Agree (twin d) (demandVariable w handle name) (demandVariable w' handle name) := by
  refine shifts_store fun st _ => ?_
  have hunknown : ((st.shift d).var? handle).any (·.type.isNone) =
      (st.var? handle).any (·.type.isNone) := by
    rw [Store.var?_shift]
    cases st.var? handle <;> simp [VarSymbol.shift]
  rw [hunknown]
  split
  · exact demandConstant_shifts hw name
  · exact .pure rfl

theorem variableType_shifts (hw : Demand.Shifted d w w') (handle : VarHandle) (name : String) :
    Carries (twin d) (Ty.shift d) (variableType w handle name position)
      (variableType w' handle name position) := by
  refine (demandVariable_shifts hw handle name).next fun _ => shifts_store fun st _ => ?_
  have htype : ((st.shift d).var? handle).bind (·.type) =
      ((st.var? handle).bind (·.type)).map (Ty.shift d) := by
    rw [Store.var?_shift]
    cases st.var? handle <;> rfl
  rw [htype]
  cases (st.var? handle).bind (·.type) with
  | some type => exact .pure rfl
  | none => exact fail_same rfl

theorem nameType_shifts (hw : Demand.Shifted d w w') (info : NodeInfo) (name : String) :
    Carries (twin d) (Ty.shift d) (nameType w scope info name)
      (nameType w' scope (info.shift d) name) := by
  refine shifts_store fun st hst => ?_
  have hplain : ((st.shift d).lookupFunctions name).filter (fun c => !c.2.isTemplate) =
      ((st.lookupFunctions name).filter fun c => !c.2.isTemplate).map
        fun c => (c.1, c.2.shift d) := by
    rw [Store.lookupFunctions_shift hst, List.filter_map]
    simp only [Function.comp_def, FuncSymbol.isTemplate_shift]
  rw [Store.lookupVar_shift]
  dsimp only
  rw [hplain, Store.lookupFunctions_shift hst, List.isEmpty_map]
  cases st.lookupVar scope name with
  | some handle =>
    exact (link_shifts info.id (.var handle)).next fun _ => variableType_shifts hw handle name
  | none =>
    dsimp only
    split
    · exact .pure (by simp)
    · split
      · exact fail_same rfl
      · generalize (st.lookupFunctions name).filter _ = found
        rcases found with _ | ⟨c, _ | ⟨c', rest⟩⟩
        · exact fail_same rfl
        · exact (link_shifts info.id (.func c.1)).next fun _ => funcValue_shifts hw c.1
        · exact fail_same rfl

theorem callByName_shifts (hw : Demand.Shifted d w w') (site callee : NodeInfo) (name : String)
    (args : List Ty) :
    Carries (twin d) (Ty.shift d) (callByName w site callee name args)
      (callByName w' (site.shift d) (callee.shift d) name (args.map (Ty.shift d))) :=
  (callFunction_shifts hw name args).carry fun found =>
    (link_shifts callee.id (.func found.1)).next fun _ =>
      (link_shifts site.id (.func found.1)).next fun _ =>
        (typeCallee_shifts callee.id found.1).next fun _ => .pure rfl

theorem callValue_shifts (site : NodeInfo) (callee : Expr) (type : Ty) (label : String)
    (args : List Ty) :
    Carries (twin d) (Ty.shift d) (callValue site callee type label args)
      (callValue (site.shift d) (callee.shift d) (type.shift d) label
        (args.map (Ty.shift d))) := by
  unfold callValue
  rw [callee.position_shift]
  cases type with
  | func params ret =>
    simp only [Ty.shift_func, Overload.scoreParams_shift]
    split
    · exact .pure (Ty.getD_unit_shift ret)
    · exact fail_shifts (.overload label args)
  | _ => exact mismatch_shifts _ _

end Check

end Frontend
