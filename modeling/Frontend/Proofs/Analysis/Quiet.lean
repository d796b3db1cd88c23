import Frontend.Proofs.Analysis.Primitive
import Frontend.Proofs.Tree.Denotation

/-!
# Operations that mark no progress

Only the analysis of a whole definition marks what has been begun and what is done, and only a call
of a template counts an instance or reports that there are too many. All other operations leave the
marks and counts alone, whether they give a result or fail, and what is known of constants stays
known.
-/

namespace Frontend

/-- Constants stay under their indices, and what is known of their types stays known. -/
def Store.KeepsConstants (s t : Store) : Prop :=
  ∀ ⦃i : Nat⦄ ⦃v : VarSymbol⦄, s.constants[i]? = some v →
    ∃ w, t.constants[i]? = some w ∧ v.Grows w

/-- No definition or instance begins or ends between two states, and the constants stay. -/
structure AnalysisState.Rests (s t : AnalysisState) : Prop where
  progress : t.progress = s.progress
  active : t.active = s.active
  constants : s.store.KeepsConstants t.store

/-- The cause of a report that a template has too many instances under analysis. -/
def Cause.isInstantiationLimit : Cause → Bool
  | .instantiationLimit .. => true
  | _ => false

/-- A failure other than the report that a template has too many instances under analysis. -/
def Failure.withinLimit : Failure → Bool
  | .error e => !e.cause.isInstantiationLimit
  | .fault _ => true

section

variable {s t u : Store}

theorem Store.KeepsConstants.of_eq (h : t.constants = s.constants) : s.KeepsConstants t :=
  fun _ v hv => ⟨v, h ▸ hv, .refl v⟩

theorem Store.KeepsConstants.trans (hst : s.KeepsConstants t) (htu : t.KeepsConstants u) :
    s.KeepsConstants u := by
  intro i v hv
  obtain ⟨w, hw, hvw⟩ := hst hv
  obtain ⟨x, hx, hwx⟩ := htu hw
  exact ⟨x, hx, hvw.trans hwx⟩

theorem Store.KeepsConstants.of_grows (h : s.Grows t) : s.KeepsConstants t :=
  fun _ _ hv => h.constant hv

theorem Store.defineFunction_constants {id : FuncId} (h : s.defineFunction id = .ok t) :
    t.constants = s.constants := by
  unfold Store.defineFunction at h
  dsimp only at h
  split at h <;> cases h
  rfl

theorem Store.registerBuiltins_constants (s : Store) :
    s.registerBuiltins.constants = s.constants := by
  unfold Store.registerBuiltins
  generalize Builtin.all = fs
  induction fs generalizing s with
  | nil => rfl
  | cons f rest ih =>
    rw [List.foldl_cons, ih]
    dsimp only
    split
    · next hst =>
      have hadd : (s.addFunc f).2.constants = s.constants := rfl
      exact (Store.defineFunction_constants hst).trans hadd
    · rfl

end

namespace AnalysisState.Rests

variable {s t u : AnalysisState}

theorem of_eq (hprogress : t.progress = s.progress) (hactive : t.active = s.active)
    (hconstants : t.store.constants = s.store.constants) : s.Rests t :=
  ⟨hprogress, hactive, .of_eq hconstants⟩

theorem refl (s : AnalysisState) : s.Rests s := .of_eq rfl rfl rfl

theorem trans (hst : s.Rests t) (htu : t.Rests u) : s.Rests u :=
  ⟨htu.progress.trans hst.progress, htu.active.trans hst.active,
    hst.constants.trans htu.constants⟩

end AnalysisState.Rests

/-! ### Failures within the limit -/

section

variable {t : TypeExpr} {f : FuncSymbol} {params : List Param} {used : List String}
  {concrete : Option (List Ty)}

theorem TypeExpr.resolve_withinLimit :
    FailsOnly Failure.withinLimit (t.resolve.mapError Failure.error) :=
  t.resolve_failsOnly.mapError fun e h => by
    obtain ⟨cause, position⟩ := e
    cases cause <;> first | rfl | cases h

theorem FuncSymbol.declaration_withinLimit :
    FailsOnly Failure.withinLimit (f.declaration.mapError Failure.fault) := by
  cases f.declaration with
  | ok d => exact .pure d
  | error e => exact .throw rfl

theorem paramSymbols_withinLimit :
    FailsOnly Failure.withinLimit (paramSymbols used concrete params) := by
  induction params generalizing used concrete with
  | nil => exact .pure _
  | cons param rest ih =>
    have htype : FailsOnly Failure.withinLimit (paramType concrete param) := by
      unfold paramType
      split
      · exact .pure _
      · exact .throw rfl
      · exact TypeExpr.resolve_withinLimit
      · exact .pure _
    unfold paramSymbols
    split
    · exact .throw rfl
    · exact htype.bind fun _ => ih.bind fun _ => .pure _

end

/-- From a state, an action leaves the marks of progress, the counts of instances and the constants
alone, and it does not report that there are too many instances. -/
def QuietAt {α : Type} (s : AnalysisState) (act : Check α) : Prop :=
  Ensures (fun e t => s.Rests t ∧ e.withinLimit = true) act s fun _ t => s.Rests t

/-- An action that leaves the marks of progress, the counts of instances and the constants
alone. -/
def Quiet {α : Type} (act : Check α) : Prop := ∀ s, QuietAt s act

theorem QuietAt.bind {α β : Type} {s : AnalysisState} {act : Check α} {f : α → Check β}
    (h : QuietAt s act) (hf : ∀ a, Quiet (f a)) : QuietAt s (act >>= f) :=
  Ensures.bind (h.imp fun a t _ ht => (hf a t).imp_both
    (fun _ _ hu => ⟨ht.trans hu.1, hu.2⟩) fun _ _ hu => ht.trans hu)

/-- Symbols and scopes may be replaced where the constants stay. -/
theorem QuietAt.setStore {s : AnalysisState} {st : Store} (h : s.store.KeepsConstants st) :
    QuietAt s (Check.setStore st) := Ensures.setStore ⟨rfl, rfl, h⟩

namespace Quiet

variable {α β : Type} {act : Check α}

theorem pure (a : α) : Quiet (pure a) := fun s => Ensures.pure (.refl s)

theorem throw {e : Failure} (h : e.withinLimit = true) : Quiet (throw e : Check α) :=
  fun s => Ensures.throw ⟨.refl s, h⟩

theorem bind {f : α → Check β} (h : Quiet act) (hf : ∀ a, Quiet (f a)) : Quiet (act >>= f) :=
  fun s => (h s).bind hf

theorem get : Quiet (MonadState.get : Check AnalysisState) := fun s => Ensures.get (.refl s)

/-- What is done with the store at hand. -/
theorem fromStore {f : Store → Check α} (h : ∀ s : AnalysisState, QuietAt s (f s.store)) :
    Quiet (Check.store >>= f) := fun s => Ensures.bind (.store (h s))

theorem modify {f : AnalysisState → AnalysisState} (h : ∀ s : AnalysisState, s.Rests (f s)) :
    Quiet (modify f : Check PUnit) := fun s => Ensures.modify (h s)

theorem modifyGet {f : AnalysisState → α × AnalysisState}
    (h : ∀ s : AnalysisState, s.Rests (f s).2) : Quiet (modifyGet f : Check α) := fun s => Ensures.modifyGet (h s)

theorem ofResult {r : Except Failure α} (h : FailsOnly Failure.withinLimit r) :
    Quiet (Check.ofResult r) := by
  cases r with
  | ok a => exact .pure a
  | error e => exact .throw (h e rfl)

theorem mapM {f : α → Check β} (h : ∀ a, Quiet (f a)) (as : List α) : Quiet (as.mapM f) := by
  induction as with
  | nil =>
    rw [List.mapM_nil]
    exact .pure _
  | cons a rest ih =>
    rw [List.mapM_cons]
    exact .bind (h a) fun _ => .bind ih fun _ => .pure _

theorem forM {f : α → Check PUnit} (h : ∀ a, Quiet (f a)) (as : List α) : Quiet (as.forM f) := by
  induction as with
  | nil => exact .pure _
  | cons a rest ih => exact .bind (h a) fun _ => ih

end Quiet

namespace Check

variable {α : Type} {scope : ScopeId} {position : Position}

/-! ### Failures -/

theorem fail_quiet {cause : Cause} (h : cause.isInstantiationLimit = false) :
    Quiet (fail cause position : Check α) := .throw (by rw [Failure.withinLimit, h]; rfl)

theorem fault_quiet (f : Fault) : Quiet (fault f : Check α) := .throw rfl

theorem notInferred_quiet (name : String) : Quiet (notInferred name position : Check α) :=
  fail_quiet rfl

theorem mismatch_quiet (expected : String) (received : Ty) :
    Quiet (mismatch expected received position : Check α) := fail_quiet rfl

theorem wrongCount_quiet (expected received : Nat) :
    Quiet (wrongCount expected received position : Check α) := fail_quiet rfl

theorem expectType_quiet (expected received : Ty) :
    Quiet (expectType expected received position) := by
  unfold expectType
  split
  · exact .pure _
  · exact mismatch_quiet _ _

theorem expectTypeIf_quiet (expected : Option Ty) (received : Ty) :
    Quiet (expectTypeIf expected received position) := by
  cases expected with
  | none => exact .pure _
  | some type => exact expectType_quiet type received

theorem expectOperand_quiet (op : BinaryOp) (type : Ty) :
    Quiet (expectOperand op type position) := by
  unfold expectOperand
  split
  · exact mismatch_quiet _ _
  · exact .pure _

/-! ### Symbols and slots -/

theorem store_quiet : Quiet store := .bind .get fun _ => .pure _

theorem progress?_quiet (node : Nat) : Quiet (progress? node) := .bind .get fun _ => .pure _

theorem denoted_quiet (t : TypeExpr) : Quiet (denoted t) := .ofResult TypeExpr.resolve_withinLimit

theorem denoted?_quiet (t : Option TypeExpr) : Quiet (denoted? t) := by
  cases t with
  | none => exact .pure _
  | some t => exact .bind (denoted_quiet t) fun _ => .pure _

theorem setType_quiet (node : Nat) (type : Ty) : Quiet (setType node type) := by
  refine fun s => Ensures.bind (.get ?_)
  split
  · next r hr =>
    refine .set (.of_eq rfl rfl ?_)
    unfold Resolution.setType at hr
    split at hr <;> cases hr
    rfl
  · exact fault_quiet _ s

theorem link_quiet (node : Nat) (target : Link) : Quiet (link node target) := by
  refine .modify fun s => .of_eq rfl rfl ?_
  simp only [Resolution.link]
  split <;> rfl

theorem setScope_quiet (node : Nat) (scope : ScopeId) : Quiet (setScope node scope) := by
  refine .modify fun s => .of_eq rfl rfl ?_
  simp only [Resolution.setScope]
  split <;> rfl

theorem func_quiet (id : FuncId) : Quiet (func id) := by
  refine .bind store_quiet fun s => ?_
  split
  · exact .pure _
  · exact fault_quiet _

theorem setRet_quiet (id : FuncId) (type : Ty) : Quiet (setRet id type) := by
  refine .fromStore fun s => ?_
  cases hset : s.store.setRet? id type with
  | some st =>
    refine .setStore (.of_eq ?_)
    obtain ⟨f, -, h⟩ := Option.bind_eq_some_iff.mp hset
    obtain ⟨g, -, hst⟩ := Option.bind_eq_some_iff.mp h
    cases hst
    rfl
  | none => exact Quiet.pure _ s

theorem openBlock_quiet (parent : ScopeId) (node : Nat) : Quiet (openBlock parent node) := by
  refine .fromStore fun s => ?_
  cases hopen : s.store.openBlock parent with
  | ok opened =>
    have hconstants : opened.2.constants = s.store.constants := by
      unfold Store.openBlock at hopen
      split at hopen <;> cases hopen <;> rfl
    exact .bind (.setStore (.of_eq hconstants)) fun _ => .bind (setScope_quiet _ _) fun _ => .pure _
  | error e => exact fault_quiet _ s

theorem defineLocal_quiet (name : String) (type : Ty) (isVar : Bool) :
    Quiet (defineLocal scope name type isVar position) := by
  refine .fromStore fun s => ?_
  split
  · exact fault_quiet _ s
  · cases hdefine : s.store.defineVar scope ⟨name, some type, isVar⟩ with
    | ok defined =>
      have hconstants : defined.2.constants = s.store.constants := by
        unfold Store.defineVar at hdefine
        split at hdefine <;> cases hdefine
        rfl
      exact .bind (.setStore (.of_eq hconstants)) fun _ => .pure _
    | error e => exact fail_quiet rfl s

theorem declareVar_quiet (info : NodeInfo) (name : String) (type : Ty) (isVar : Bool) :
    Quiet (declareVar scope info name type isVar) := by
  unfold declareVar
  split
  · exact .pure _
  · exact .bind (defineLocal_quiet _ _ _) fun _ => link_quiet _ _

/-! ### Declarations -/

theorem linkParams_quiet (params : List Param) (index : Nat) :
    Quiet (linkParams scope index params) := by
  induction params generalizing index with
  | nil => exact .pure _
  | cons p rest ih => exact .bind (link_quiet _ _) fun _ => ih _

theorem declareFunction_quiet (d : FuncDef) (concrete : Option (List Ty)) :
    Quiet (declareFunction d scope concrete) :=
  .bind (.ofResult paramSymbols_withinLimit) fun _ => .bind (denoted?_quiet _) fun _ => .fromStore fun _ =>
    .bind (.setStore (.of_eq rfl)) fun _ => .bind (linkParams_quiet _ _) fun _ =>
      .bind (setScope_quiet _ _) fun _ => .pure _

theorem registerFunction_quiet (d : FuncDef) : Quiet (registerFunction d) := by
  refine .bind (declareFunction_quiet _ _) fun declared => .fromStore fun s => ?_
  cases hdefine : s.store.defineFunction declared.2 with
  | ok st =>
    have hconstants := Store.defineFunction_constants hdefine
    exact .setStore (.of_eq hconstants)
  | error e => exact Quiet.bind (func_quiet _) (fun _ => fail_quiet rfl) s

theorem registerConstant_quiet (d : ConstDecl) : Quiet (registerConstant d) := by
  refine .bind (denoted?_quiet _) fun type => .fromStore fun s => ?_
  cases hdefine : s.store.defineConstant ⟨d.name, type, false⟩ with
  | ok defined =>
    have hkeeps : s.store.KeepsConstants defined.2 := by
      unfold Store.defineConstant at hdefine
      split at hdefine <;> cases hdefine
      intro i v hv
      have hlt : i < s.store.constants.size := (Array.getElem?_eq_some_iff.mp hv).1
      have hpush : (s.store.constants.push ⟨d.name, type, false⟩)[i]? = s.store.constants[i]? := by
        rw [Array.getElem?_push, if_neg (Nat.ne_of_lt hlt)]
      exact ⟨v, hpush.trans hv, .refl v⟩
    exact .bind (.setStore hkeeps) fun _ => link_quiet _ _
  | error e => exact fail_quiet rfl s

theorem registerDefinition_quiet (d : Definition) : Quiet (registerDefinition d) := by
  cases d with
  | function d => exact registerFunction_quiet d
  | constant d => exact .forM registerConstant_quiet _

theorem register_quiet (builtins : Bool) (p : Program) : Quiet (register builtins p) := by
  refine .bind (.modify fun s => ?_) fun _ => .forM registerDefinition_quiet _
  split
  · exact .of_eq rfl rfl (Store.registerBuiltins_constants s.store)
  · exact .refl s

/-- Beside counting the instance, making it is quiet. -/
theorem makeInstance_counts (d : FuncDef) (args : List Ty) (depth : Nat) (s : AnalysisState) :
    Ensures (fun e t => s.Rests t ∧ e.withinLimit = true) (makeInstance d args depth) s
      fun _ t => { s with active := s.active.insert d.info.id (depth + 1) }.Rests t := by
  refine .bind ((Quiet.modifyGet (fun _ => .of_eq rfl rfl rfl) s).imp fun copy t _ hst => ?_)
  refine .bind ((declareFunction_quiet copy (some args) t).imp_both
    (fun _ _ h => ⟨hst.trans h.1, h.2⟩) fun _ u htu => ?_)
  have hsu := hst.trans htu
  exact .bind (.modify (.pure
    ⟨hsu.progress, congrArg (·.insert d.info.id (depth + 1)) hsu.active, hsu.constants⟩))

theorem lambdaParam_quiet (p : Param) (hints : List Ty) : Quiet (lambdaParam p hints) := by
  unfold lambdaParam
  split
  · exact denoted_quiet _
  · split
    · exact notInferred_quiet _
    · exact .pure _
  · exact notInferred_quiet _

theorem lambdaParams_quiet (params : List Param) (hints : List Ty) :
    Quiet (lambdaParams params hints) := by
  induction params generalizing hints with
  | nil => exact .pure _
  | cons p rest ih => exact .bind (lambdaParam_quiet p hints) fun _ => .bind (ih _) fun _ => .pure _

theorem declareLambda_quiet (d : FuncDef) (hints : List Ty) :
    Quiet (declareLambda scope d hints) :=
  .bind (lambdaParams_quiet _ _) fun _ => .bind (declareFunction_quiet _ _) fun _ =>
    .bind (.modify fun _ => .of_eq rfl rfl rfl) fun _ => .pure _

theorem lambdaType_quiet (params : List Ty) (id : FuncId) (wantsProc : Bool) :
    Quiet (lambdaType params id wantsProc) := .bind (func_quiet id) fun _ => .pure _

theorem declaredTypes_quiet (decls : List VarDecl) (explicit : List (Option Ty)) :
    Quiet (declaredTypes decls explicit) := by
  induction decls generalizing explicit with
  | nil => exact .pure _
  | cons d rest ih =>
    cases explicit with
    | nil => exact .pure _
    | cons type types =>
      cases type with
      | none => exact notInferred_quiet _
      | some type => exact .bind (ih types) fun _ => .pure _

theorem declareVars_quiet (decls : List VarDecl) (explicit : List (Option Ty)) (types : List Ty) :
    Quiet (declareVars scope decls explicit types) := by
  induction decls generalizing explicit types with
  | nil => exact .pure _
  | cons d rest ih =>
    cases explicit with
    | nil => exact .pure _
    | cons expected explicit =>
      cases types with
      | nil => exact .pure _
      | cons type types =>
        exact .bind (expectTypeIf_quiet _ _) fun _ => .bind (declareVar_quiet _ _ _ _) fun _ =>
          ih explicit types

theorem declareLoopVars_quiet (params : List Param) (types : List Ty) :
    Quiet (declareLoopVars scope params types) := by
  induction params generalizing types with
  | nil => exact .pure _
  | cons p rest ih =>
    cases types with
    | nil => exact .pure _
    | cons type types =>
      exact .bind (denoted?_quiet _) fun _ => .bind (expectTypeIf_quiet _ _) fun _ =>
        .bind (declareVar_quiet _ _ _ _) fun _ => ih types

/-! ### Rules for types -/

theorem takeApart_quiet (count : Nat) (type : Ty) : Quiet (takeApart count type position) := by
  unfold takeApart
  split
  · split
    · exact .pure _
    · exact wrongCount_quiet _ _
  · exact wrongCount_quiet _ _

theorem loopTypes_quiet (count : Nat) (elem : Ty) : Quiet (loopTypes count elem position) := by
  unfold loopTypes
  split
  · exact .pure _
  · exact takeApart_quiet _ _

theorem indexType_quiet (receiver index : Expr) (receiverType type : Ty) :
    Quiet (indexType receiver index receiverType type) := by
  unfold indexType
  split
  · split
    · exact .pure _
    · exact mismatch_quiet _ _
  · split
    · exact .pure _
    · exact mismatch_quiet _ _
  · exact .bind (expectType_quiet _ _) fun _ => .pure _
  · split
    · exact .pure _
    · exact mismatch_quiet _ _
  · exact mismatch_quiet _ _

theorem callValue_quiet (site : NodeInfo) (callee : Expr) (type : Ty) (label : String)
    (args : List Ty) : Quiet (callValue site callee type label args) := by
  unfold callValue
  split
  · split
    · exact .pure _
    · exact fail_quiet rfl
  · exact mismatch_quiet _ _

theorem typeCallee_quiet (callee : Nat) (id : FuncId) : Quiet (typeCallee callee id) := by
  refine .bind (func_quiet id) fun f => ?_
  split
  · exact setType_quiet _ _
  · exact .pure _

/-! ### Statements and definitions -/

theorem checkAssignable_quiet (target : Expr) : Quiet (checkAssignable target) := by
  unfold checkAssignable
  split
  · exact .pure _
  · exact .pure _
  · refine .bind .get fun s => ?_
    dsimp only
    generalize Option.any (fun v : VarSymbol => v.isVar) _ = assignable
    split
    · exact .pure _
    · exact fail_quiet rfl
  · exact fail_quiet rfl

theorem assignTarget_quiet (target : Expr) (expected : Option Ty) (type : Ty) :
    Quiet (assignTarget target expected type) := by
  cases expected with
  | none => exact setType_quiet _ _
  | some expected => exact .bind (expectType_quiet _ _) fun _ => checkAssignable_quiet _

theorem assignTargets_quiet (targets : List Expr) (hints : List (Option Ty)) (types : List Ty) :
    Quiet (assignTargets targets hints types) := by
  induction targets generalizing hints types with
  | nil => exact .pure _
  | cons target rest ih =>
    cases hints with
    | nil => exact .pure _
    | cons hint hints =>
      cases types with
      | nil => exact .pure _
      | cons type types => exact .bind (assignTarget_quiet _ _ _) fun _ => ih hints types

theorem currentFunc?_quiet : Quiet (currentFunc? scope) := .bind store_quiet fun _ => .pure _

theorem returnType_quiet (id : FuncId) (type : Ty) : Quiet (returnType id type position) := by
  refine .bind (func_quiet id) fun f => ?_
  split
  · split
    · exact .pure _
    · exact fail_quiet rfl
  · split
    · exact expectType_quiet _ _
    · exact setRet_quiet _ _

theorem declared_quiet (info : NodeInfo) : Quiet (declared info) := by
  refine .bind .get fun s => ?_
  split
  · split
    · exact .pure _
    · exact fault_quiet _
  · exact fault_quiet _

theorem settleReturn_quiet (id : FuncId) : Quiet (settleReturn id) := by
  refine .bind (func_quiet id) fun f => ?_
  split
  · exact setRet_quiet _ _
  · exact .pure _

theorem constantHandles_quiet (decls : List ConstDecl) : Quiet (constantHandles decls) := by
  induction decls with
  | nil => exact .pure _
  | cons d rest ih =>
    refine .bind store_quiet fun s => ?_
    split
    · exact .bind ih fun _ => .pure _
    · exact fail_quiet rfl

theorem typeOf?_quiet (handle : VarHandle) : Quiet (typeOf? handle) :=
  .bind store_quiet fun _ => .pure _

theorem assignConstant_quiet (handle : VarHandle) (type : Ty) :
    Quiet (assignConstant handle type position) := by
  refine .bind (typeOf?_quiet handle) fun known => ?_
  cases known with
  | some expected => exact expectType_quiet _ _
  | none =>
    cases handle with
    | constant index =>
      refine .modify fun s => ⟨rfl, rfl, ?_⟩
      change s.store.KeepsConstants ((s.store.setConstantType? index type).getD s.store)
      cases hset : s.store.setConstantType? index type with
      | none => exact .of_eq rfl
      | some st =>
        obtain ⟨v, hv, hnone, rfl⟩ := Store.setConstantType?_eq_some hset
        have hvw : v.Grows { v with type := some type } :=
          ⟨rfl, fun h => by rw [hnone] at h; cases h⟩
        exact .of_grows (Store.grows_setConstant hv hvw)
    | param scope index => exact .pure _
    | inner scope index => exact .pure _

theorem assignConstants_quiet (decls : List ConstDecl) (handles : List VarHandle)
    (types : List Ty) : Quiet (assignConstants decls handles types) := by
  induction decls generalizing handles types with
  | nil => exact .pure _
  | cons d rest ih =>
    cases handles with
    | nil => exact .pure _
    | cons handle handles =>
      cases types with
      | nil => exact .pure _
      | cons type types => exact .bind (assignConstant_quiet _ _) fun _ => ih handles types

end Check

end Frontend
