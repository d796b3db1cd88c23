import Frontend.Proofs.Shift.State

/-!
# Reading and writing with later ids

What an action reads of a node in one analysis, it reads of the shifted node in the other one, and
what it writes keeps the two states together.
-/

namespace Frontend.Check

variable {d : Nat} {α : Type} {position : Position} {scope : ScopeId}

/-! ### Reading -/

theorem store_shifts : Alongside (twin d) (fun st st' => st' = st.shift d ∧ st.Named) store store :=
  Alongside.get.bind fun _ _ hs => .pure ⟨hs.store, hs.named⟩

/-- After a look at the symbols, both go on. -/
theorem shifts_store {β : Type} {good : α → β → Prop} {f : Store → Check α} {f' : Store → Check β}
    (h : ∀ st, st.Named → Alongside (twin d) good (f st) (f' (st.shift d))) :
    Alongside (twin d) good (store >>= f) (store >>= f') := by
  refine store_shifts.bind ?_
  rintro st _ ⟨rfl, hst⟩
  exact h st hst

theorem func_shifts (id : FuncId) : Carries (twin d) (FuncSymbol.shift d) (func id) (func id) := by
  refine shifts_store fun st _ => ?_
  rw [Store.func?_shift]
  cases st.func? id with
  | none => exact fault_shifts _ _
  | some f => exact .pure rfl

theorem progress?_shifts (node : Nat) :
    Agree (twin d) (progress? node) (progress? (shiftId d node)) := by
  refine Alongside.get.bind fun s s' hs => .pure ?_
  have hsame := hs.progress.values node
  rw [Option.map_id] at hsame
  exact hsame.symm

theorem declared_shifts (info : NodeInfo) :
    Agree (twin d) (declared info) (declared (info.shift d)) := by
  refine Alongside.get.bind fun s s' hs => ?_
  rw [NodeInfo.shift, hs.scopes.values, hs.store]
  cases s.scopes[info.id]? with
  | none => exact fault_shifts _ _
  | some scope =>
    simp only [Option.map_some, id_eq, Store.scopeFuncId?_shift]
    cases s.store.scopeFuncId? scope with
    | none => exact fault_shifts _ _
    | some id => exact .pure rfl

theorem currentFunc?_shifts :
    Carries (twin d) (Option.map fun r => (r.1, r.2.shift d)) (currentFunc? scope)
      (currentFunc? scope) := by
  refine shifts_store fun st _ => .pure ?_
  rw [Store.enclosingFunction_shift]
  cases st.enclosingFunction scope with
  | none => rfl
  | some inner =>
    simp only [Option.bind_eq_bind, Option.bind_some, Store.scopeFuncId?_shift]
    cases st.scopeFuncId? inner with
    | none => rfl
    | some id =>
      simp only [Option.bind_some, Store.func?_shift]
      cases st.func? id <;> rfl

theorem checkAssignable_shifts (target : Expr) :
    Agree (twin d) (checkAssignable target) (checkAssignable (target.shift d)) := by
  have hother : ∀ e : Expr, Agree (twin d)
      (fail (.immutableAssignment e.label) e.position : Check Unit)
      (fail (.immutableAssignment (e.shift d).label) (e.shift d).position) := by
    intro e
    rw [e.label_shift, e.position_shift]
    exact fail_same rfl
  unfold checkAssignable
  cases target with
  | index => exact .pure rfl
  | member => exact .pure rfl
  | varRef info name assigned =>
    refine Alongside.get.bind fun s s' hs => ?_
    dsimp only [NodeInfo.shift]
    rw [hs.links.values, hs.store]
    rcases s.links[info.id]? with _ | ⟨handle | id⟩
    · exact fail_same rfl
    · have hvar : (s.store.var? handle).any (·.isVar) =
          ((s.store.var? handle).map (VarSymbol.shift d)).any (·.isVar) := by
        cases s.store.var? handle <;> rfl
      simp only [Option.map_some, id_eq, Store.var?_shift, ← hvar]
      split
      · exact .pure rfl
      · exact fail_same rfl
    · exact fail_same rfl
  | _ => exact hother _

theorem typeOf?_shifts (handle : VarHandle) :
    Carries (twin d) (Option.map (Ty.shift d)) (typeOf? handle) (typeOf? handle) := by
  refine shifts_store fun st _ => .pure ?_
  rw [Store.var?_shift]
  cases st.var? handle <;> rfl

theorem constantHandles_shifts (decls : List ConstDecl) :
    Agree (twin d) (constantHandles decls) (constantHandles (decls.map (ConstDecl.shift d))) := by
  induction decls with
  | nil => exact .pure rfl
  | cons decl rest ih =>
    refine shifts_store fun st _ => ?_
    rw [Store.lookupConstant_shift, ConstDecl.shift]
    cases st.lookupConstant decl.name with
    | some handle => exact ih.next fun _ => .pure rfl
    | none => exact fail_same rfl

theorem lambdaType_shifts (params : List Ty) (id : FuncId) (wantsProc : Bool) :
    Carries (twin d) (Ty.shift d) (lambdaType params id wantsProc)
      (lambdaType (params.map (Ty.shift d)) id wantsProc) := by
  refine (func_shifts id).carry fun f => .pure ?_
  have hret : ((f.shift d).ret).getD .unit = (f.ret.getD .unit).shift d :=
    Ty.getD_unit_shift f.ret
  rw [hret, Ty.isUnit_shift, Ty.shift_func]
  split <;> rfl

/-! ### Writing -/

theorem setStore_shifts {st : Store} (h : st.Named) :
    Agree (twin d) (setStore st) (setStore (st.shift d)) := .modify fun hs => hs.withStore h

theorem setType_shifts (node : Nat) (type : Ty) :
    Agree (twin d) (setType node type) (setType (shiftId d node) (type.shift d)) := by
  refine Alongside.get.bind fun s s' hs => ?_
  unfold Resolution.setType
  rw [hs.types.contains]
  by_cases hn : s.types.contains node = true
  · simp only [if_pos hn]
    exact fault_shifts _ _
  · simp only [if_neg hn]
    exact .set { hs with types := hs.types.insert node type }

theorem link_shifts (node : Nat) (target : Link) :
    Agree (twin d) (link node target) (link (shiftId d node) target) :=
  .modify fun hs => hs.link node target

theorem setScope_shifts (node : Nat) (scope : ScopeId) :
    Agree (twin d) (setScope node scope) (setScope (shiftId d node) scope) :=
  .modify fun hs => hs.setScope node scope

theorem setProgress_shifts (node : Nat) (p : Progress) :
    Agree (twin d) (setProgress node p) (setProgress (shiftId d node) p) :=
  .modify fun hs => { hs with progress := hs.progress.insert node p }

theorem setRet_shifts (id : FuncId) (type : Ty) :
    Agree (twin d) (setRet id type) (setRet id (type.shift d)) := by
  refine shifts_store fun st hst => ?_
  rw [Store.setRet?_shift]
  cases h : st.setRet? id type with
  | none => exact .pure rfl
  | some t =>
    obtain ⟨f, hf, -, rfl⟩ := Store.setRet?_eq_some h
    refine setStore_shifts (hst.of_functions rfl fun {a g} hg => ?_)
    rw [Store.func?_set st id a _ (by rw [hf]; rfl)]
    split
    · next heq =>
      rw [← heq, hf] at hg
      cases hg
      exact ⟨_, rfl, rfl⟩
    · exact ⟨g, hg, rfl⟩

theorem openBlock_shifts (parent : ScopeId) (node : Nat) :
    Agree (twin d) (openBlock parent node) (openBlock parent (shiftId d node)) := by
  refine shifts_store fun st hst => ?_
  rw [Store.openBlock_shift]
  cases h : st.openBlock parent with
  | error f => exact fault_shifts _ _
  | ok r =>
    obtain ⟨-, hfuncs, -, hfunctions⟩ := Store.openBlock_eq_ok h
    exact (setStore_shifts (hst.of_funcs hfunctions hfuncs)).next fun _ =>
      (setScope_shifts node r.1).next fun _ => .pure rfl

theorem defineLocal_shifts (scope : ScopeId) (name : String) (type : Ty) (isVar : Bool) :
    Agree (twin d) (defineLocal scope name type isVar position)
      (defineLocal scope name (type.shift d) isVar position) := by
  refine shifts_store fun st hst => ?_
  have hdefine : (st.shift d).defineVar scope ⟨name, some (type.shift d), isVar⟩ =
      (st.defineVar scope ⟨name, some type, isVar⟩).map fun r => (r.1, r.2.shift d) :=
    st.defineVar_shift scope ⟨name, some type, isVar⟩
  rw [Store.isBlock_shift, hdefine]
  cases hblock : st.isBlock scope with
  | false => exact fault_shifts _ _
  | true =>
    cases h : st.defineVar scope ⟨name, some type, isVar⟩ with
    | error existing => exact fail_same rfl
    | ok r =>
      obtain ⟨_, _, _, -, -, -, -, hfuncs, -, hfunctions⟩ := Store.defineVar_eq_ok hblock h
      exact (setStore_shifts (hst.of_funcs hfunctions hfuncs)).next fun _ => .pure rfl

theorem declareVar_shifts (scope : ScopeId) (info : NodeInfo) (name : String) (type : Ty)
    (isVar : Bool) : Agree (twin d) (declareVar scope info name type isVar)
      (declareVar scope (info.shift d) name (type.shift d) isVar) := by
  unfold declareVar
  split
  · exact .pure rfl
  · exact (defineLocal_shifts _ _ _ _).next fun handle => link_shifts info.id (.var handle)

theorem declareVars_shifts (decls : List VarDecl) (explicit : List (Option Ty)) (types : List Ty) :
    Agree (twin d) (declareVars scope decls explicit types)
      (declareVars scope (decls.map (VarDecl.shift d)) (explicit.map (Option.map (Ty.shift d)))
        (types.map (Ty.shift d))) := by
  induction decls generalizing explicit types with
  | nil => exact .pure rfl
  | cons decl rest ih =>
    cases explicit with
    | nil => exact .pure rfl
    | cons expected explicit =>
      cases types with
      | nil => exact .pure rfl
      | cons type types =>
        exact (expectTypeIf_shifts expected type).next fun _ =>
          (declareVar_shifts _ decl.info _ _ _).next fun _ => ih _ _

theorem declareLoopVars_shifts (params : List Param) (types : List Ty) :
    Agree (twin d) (declareLoopVars scope params types)
      (declareLoopVars scope (params.map (Param.shift d)) (types.map (Ty.shift d))) := by
  induction params generalizing types with
  | nil => exact .pure rfl
  | cons p rest ih =>
    cases types with
    | nil => exact .pure rfl
    | cons type types =>
      exact (denoted?_shifts p.type).carry fun expected => (expectTypeIf_shifts _ type).next
        fun _ => (declareVar_shifts _ p.info _ _ _).next fun _ => ih _

theorem assignTarget_shifts (target : Expr) (expected : Option Ty) (type : Ty) :
    Agree (twin d) (assignTarget target expected type)
      (assignTarget (target.shift d) (expected.map (Ty.shift d)) (type.shift d)) := by
  cases expected with
  | none =>
    change Agree _ _ (setType (target.shift d).id (type.shift d))
    rw [Expr.id_shift]
    exact setType_shifts _ _
  | some expected =>
    change Agree _ _ (do
      expectType (expected.shift d) (type.shift d) (target.shift d).position
      checkAssignable (target.shift d))
    rw [Expr.position_shift]
    exact (expectType_shifts _ _).next fun _ => checkAssignable_shifts target

theorem assignTargets_shifts (targets : List Expr) (hints : List (Option Ty)) (types : List Ty) :
    Agree (twin d) (assignTargets targets hints types)
      (assignTargets (targets.map (Expr.shift d)) (hints.map (Option.map (Ty.shift d)))
        (types.map (Ty.shift d))) := by
  induction targets generalizing hints types with
  | nil => exact .pure rfl
  | cons target rest ih =>
    cases hints with
    | nil => exact .pure rfl
    | cons expected hints =>
      cases types with
      | nil => exact .pure rfl
      | cons type types => exact (assignTarget_shifts target expected type).next fun _ => ih _ _

theorem returnType_shifts (id : FuncId) (type : Ty) :
    Agree (twin d) (returnType id type position) (returnType id (type.shift d) position) := by
  refine (func_shifts id).carry fun f => ?_
  have hkind : (f.shift d).kind = f.kind := rfl
  have hret : (f.shift d).ret = f.ret.map (Ty.shift d) := rfl
  rw [hkind, hret, Ty.isUnit_shift]
  split
  · next hproc =>
    rw [FuncSymbol.name_shift (by rw [hproc]; decide)]
    split
    · exact .pure rfl
    · exact fail_same rfl
  · cases f.ret with
    | some expected => exact expectType_shifts _ _
    | none => exact setRet_shifts id type

theorem settleReturn_shifts (id : FuncId) :
    Agree (twin d) (settleReturn id) (settleReturn id) := by
  refine (func_shifts id).carry fun f => ?_
  have hkind : (f.shift d).kind = f.kind := rfl
  have hret : (f.shift d).ret = f.ret.map (Ty.shift d) := rfl
  have hunit := setRet_shifts (d := d) id .unit
  rw [hkind, hret, Option.isNone_map]
  split
  · simpa using hunit
  · exact .pure rfl

theorem typeCallee_shifts (callee : Nat) (id : FuncId) :
    Agree (twin d) (typeCallee callee id) (typeCallee (shiftId d callee) id) := by
  refine (func_shifts id).carry fun f => ?_
  rw [FuncSymbol.type?_shift]
  cases f.type? with
  | some type => exact setType_shifts callee type
  | none => exact .pure rfl

theorem assignConstant_shifts (handle : VarHandle) (type : Ty) :
    Agree (twin d) (assignConstant handle type position)
      (assignConstant handle (type.shift d) position) := by
  refine (typeOf?_shifts handle).carry fun known => ?_
  cases known with
  | some expected => exact expectType_shifts _ _
  | none =>
    cases handle with
    | constant index =>
      refine .modify fun {s s'} hs => ?_
      rw [hs.store, Store.setConstantType?_shift]
      cases h : s.store.setConstantType? index type with
      | none => exact hs.withStore hs.named
      | some st =>
        obtain ⟨v, -, -, rfl⟩ := Store.setConstantType?_eq_some h
        exact hs.withStore hs.named
    | param => exact .pure rfl
    | inner => exact .pure rfl

theorem assignConstants_shifts (decls : List ConstDecl) (handles : List VarHandle)
    (types : List Ty) :
    Agree (twin d) (assignConstants decls handles types)
      (assignConstants (decls.map (ConstDecl.shift d)) handles (types.map (Ty.shift d))) := by
  induction decls generalizing handles types with
  | nil => exact .pure rfl
  | cons decl rest ih =>
    cases handles with
    | nil => exact .pure rfl
    | cons handle handles =>
      cases types with
      | nil => exact .pure rfl
      | cons type types => exact (assignConstant_shifts _ _).next fun _ => ih _ _

end Frontend.Check
