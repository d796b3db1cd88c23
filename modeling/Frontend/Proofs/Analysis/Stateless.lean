import Frontend.Analysis.Walk
import Frontend.Proofs.Ensures

/-!
# Operations that change nothing

Most checks of the analysis look at types and positions only: such an action is the result of a
computation that knows nothing of the state. Others read symbols, but write nothing.
-/

namespace Frontend

variable {α β : Type}

/-- An action that neither reads nor writes the state. -/
def Stateless (act : Check α) : Prop := ∃ r : Except Failure α, act = Check.ofResult r

/-- An action that leaves the state as it is, whether it gives a result or fails. -/
def ReadsOnly (act : Check α) : Prop :=
  ∀ s, Ensures (fun _ t => t = s) act s fun _ t => t = s

namespace Stateless

variable {act : Check α}

theorem pure (a : α) : Stateless (pure a) := ⟨.ok a, rfl⟩

theorem throw (e : Failure) : Stateless (throw e : Check α) := ⟨.error e, rfl⟩

theorem ofResult (r : Except Failure α) : Stateless (Check.ofResult r) := ⟨r, rfl⟩

theorem bind {f : α → Check β} (h : Stateless act) (hf : ∀ a, Stateless (f a)) :
    Stateless (act >>= f) := by
  obtain ⟨r, rfl⟩ := h
  cases r with
  | ok a =>
    obtain ⟨r', hr'⟩ := hf a
    exact ⟨r', hr'⟩
  | error e => exact ⟨.error e, rfl⟩

theorem mapM {f : α → Check β} (h : ∀ a, Stateless (f a)) (as : List α) :
    Stateless (as.mapM f) := by
  induction as with
  | nil =>
    rw [List.mapM_nil]
    exact .pure _
  | cons a rest ih =>
    rw [List.mapM_cons]
    exact .bind (h a) fun _ => .bind ih fun _ => .pure _

theorem readsOnly (h : Stateless act) : ReadsOnly act := by
  obtain ⟨r, rfl⟩ := h
  cases r with
  | ok a => exact fun _ => .pure rfl
  | error e => exact fun _ => .throw rfl

end Stateless

namespace ReadsOnly

variable {act : Check α}

theorem pure (a : α) : ReadsOnly (pure a) := fun _ => .pure rfl

theorem get : ReadsOnly (MonadState.get : Check AnalysisState) := fun _ => .get rfl

theorem bind {f : α → Check β} (h : ReadsOnly act) (hf : ∀ a, ReadsOnly (f a)) :
    ReadsOnly (act >>= f) :=
  fun s => .bind ((h s).imp fun a t _ ht => (hf a t).imp_both
    (fun _ _ hu => hu.trans ht) fun _ _ hu => hu.trans ht)

theorem mapM {f : α → Check β} (h : ∀ a, ReadsOnly (f a)) (as : List α) :
    ReadsOnly (as.mapM f) := by
  induction as with
  | nil =>
    rw [List.mapM_nil]
    exact .pure _
  | cons a rest ih =>
    rw [List.mapM_cons]
    exact .bind (h a) fun _ => .bind ih fun _ => .pure _

end ReadsOnly

namespace Check

variable {position : Position}

/-! ### Checks of types -/

theorem fail_stateless (cause : Cause) : Stateless (fail cause position : Check α) := .throw _

theorem fault_stateless (f : Fault) : Stateless (fault f : Check α) := .throw _

theorem notInferred_stateless (name : String) : Stateless (notInferred name position : Check α) :=
  .throw _

theorem mismatch_stateless (expected : String) (received : Ty) :
    Stateless (mismatch expected received position : Check α) := .throw _

theorem wrongCount_stateless (expected received : Nat) :
    Stateless (wrongCount expected received position : Check α) := .throw _

theorem expectType_stateless (expected received : Ty) :
    Stateless (expectType expected received position) := by
  unfold expectType
  split
  · exact .pure _
  · exact mismatch_stateless _ _

theorem expectTypeIf_stateless (expected : Option Ty) (received : Ty) :
    Stateless (expectTypeIf expected received position) := by
  cases expected with
  | none => exact .pure _
  | some type => exact expectType_stateless type received

theorem expectOperand_stateless (op : BinaryOp) (type : Ty) :
    Stateless (expectOperand op type position) := by
  unfold expectOperand
  split
  · exact mismatch_stateless _ _
  · exact .pure _

theorem denoted_stateless (t : TypeExpr) : Stateless (denoted t) := .ofResult _

theorem denoted?_stateless (t : Option TypeExpr) : Stateless (denoted? t) := by
  cases t with
  | none => exact .pure _
  | some t => exact .bind (denoted_stateless t) fun _ => .pure _

theorem lambdaParam_stateless (p : Param) (hints : List Ty) : Stateless (lambdaParam p hints) := by
  unfold lambdaParam
  split
  · exact denoted_stateless _
  · split
    · exact notInferred_stateless _
    · exact .pure _
  · exact notInferred_stateless _

theorem lambdaParams_stateless (params : List Param) (hints : List Ty) :
    Stateless (lambdaParams params hints) := by
  induction params generalizing hints with
  | nil => exact .pure _
  | cons p rest ih =>
    exact .bind (lambdaParam_stateless p hints) fun _ => .bind (ih _) fun _ => .pure _

theorem declaredTypes_stateless (decls : List VarDecl) (explicit : List (Option Ty)) :
    Stateless (declaredTypes decls explicit) := by
  induction decls generalizing explicit with
  | nil => exact .pure _
  | cons d rest ih =>
    cases explicit with
    | nil => exact .pure _
    | cons type types =>
      cases type with
      | none => exact notInferred_stateless _
      | some type => exact .bind (ih types) fun _ => .pure _

theorem takeApart_stateless (count : Nat) (type : Ty) :
    Stateless (takeApart count type position) := by
  unfold takeApart
  split
  · split
    · exact .pure _
    · exact wrongCount_stateless _ _
  · exact wrongCount_stateless _ _

theorem loopTypes_stateless (count : Nat) (elem : Ty) :
    Stateless (loopTypes count elem position) := by
  unfold loopTypes
  split
  · exact .pure _
  · exact takeApart_stateless _ _

theorem indexType_stateless (receiver index : Expr) (receiverType type : Ty) :
    Stateless (indexType receiver index receiverType type) := by
  unfold indexType
  split
  · split
    · exact .pure _
    · exact mismatch_stateless _ _
  · split
    · exact .pure _
    · exact mismatch_stateless _ _
  · exact .bind (expectType_stateless _ _) fun _ => .pure _
  · split
    · exact .pure _
    · exact mismatch_stateless _ _
  · exact mismatch_stateless _ _

theorem callValue_stateless (site : NodeInfo) (callee : Expr) (type : Ty) (label : String)
    (args : List Ty) : Stateless (callValue site callee type label args) := by
  unfold callValue
  split
  · split
    · exact .pure _
    · exact fail_stateless _
  · exact mismatch_stateless _ _

/-! ### Looking things up -/

theorem store_readsOnly : ReadsOnly store := .bind .get fun _ => .pure _

theorem progress?_readsOnly (node : Nat) : ReadsOnly (progress? node) :=
  .bind .get fun _ => .pure _

theorem func_readsOnly (id : FuncId) : ReadsOnly (func id) := by
  refine .bind store_readsOnly fun s => ?_
  split
  · exact .pure _
  · exact (fault_stateless _).readsOnly

theorem lambdaType_readsOnly (params : List Ty) (id : FuncId) (wantsProc : Bool) :
    ReadsOnly (lambdaType params id wantsProc) := .bind (func_readsOnly id) fun _ => .pure _

theorem checkAssignable_readsOnly (target : Expr) : ReadsOnly (checkAssignable target) := by
  unfold checkAssignable
  split
  · exact .pure _
  · exact .pure _
  · refine .bind .get fun s => ?_
    dsimp only
    generalize Option.any (fun v : VarSymbol => v.isVar) _ = assignable
    split
    · exact .pure _
    · exact (fail_stateless _).readsOnly
  · exact (fail_stateless _).readsOnly

theorem typeOf?_readsOnly (handle : VarHandle) : ReadsOnly (typeOf? handle) :=
  .bind store_readsOnly fun _ => .pure _

theorem constantHandles_readsOnly (decls : List ConstDecl) : ReadsOnly (constantHandles decls) := by
  induction decls with
  | nil => exact .pure _
  | cons d rest ih =>
    refine .bind store_readsOnly fun s => ?_
    split
    · exact .bind ih fun _ => .pure _
    · exact (fail_stateless _).readsOnly

end Check

end Frontend
