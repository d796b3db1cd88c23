import Frontend.Proofs.Layout.Declare
import Frontend.Proofs.Returns.Expr

/-!
# Plans along expressions

Calls add nothing to the scope they are made in, whatever they demand on the way: a definition that
is analysed on demand is carried out as a whole, wherever the demand comes from. So an expression
carries out the shapes of the lambdas in it.
-/

namespace Frontend

/-- Demands that carry out the definitions they are made for, and nothing else. -/
structure Demand.KeepsLayout (p : Program) (w : Demand) : Prop where
  visit : ∀ v, ReadsOnly (w.visit v)
  definitionOf : ∀ {name c}, w.definitionOf name = some c → c ∈ p.constants
  constant : ∀ {c}, c ∈ p.constants → ∀ home cur, Follows p home cur (.of []) (w.constant c)
  function : ∀ (d : FuncDef) (s : AnalysisState), Ensures (fun _ _ => True) (w.function d) s
    fun _ t => Continues s t ∧
      (Defined p s (.function d) → ∀ home cur, (Plan.of []).Realised p home cur s t)

variable {p : Program} {w : Demand} {home : Option Nat} {cur : ScopeId} {q : Plan}
  {position : Position} {s : AnalysisState}

namespace Check

/-! ### Calls -/

theorem visiting_follows {α : Type} (hw : w.KeepsLayout p) (node : Nat) {act : Check α}
    (h : Follows p home cur q act) : Follows p home cur q (visiting w node act) :=
  .after (.readsOnly (hw.visit _)) fun _ => .thenPure h fun a =>
    .after (.readsOnly (hw.visit _)) fun _ => .pure a

theorem demandConstant_follows (hw : w.KeepsLayout p) (name : String) :
    Follows p home cur (.of []) (demandConstant w name) := by
  unfold demandConstant
  split
  · exact .pure ()
  · next c hc =>
    refine .after (.readsOnly (progress?_readsOnly _)) fun progress => ?_
    split
    · exact .pure ()
    · exact hw.constant (hw.definitionOf hc) home cur

/-- A function whose result type is asked for is analysed if it still waits. -/
theorem inferResult_realised (hw : w.KeepsLayout p) {id : FuncId} {f : FuncSymbol}
    (hf : s.store.func? id = some f) :
    Ensures (fun _ _ => True) (inferResult w f position) s fun _ t =>
      ∀ home cur, (Plan.of []).Realised p home cur s t := by
  unfold inferResult
  split
  · exact .pure fun _ _ => .refl s
  · refine .bind (.ofResult (fun _ _ => trivial) fun d hd => .bind (.bind (.get (.pure ?_))))
    split
    · exact .fail trivial
    · exact .pure fun _ _ => .refl s
    · next hnone =>
      refine (hw.function d s).imp fun _ t _ h home cur => ⟨h.1, fun hr ha ho => ?_⟩
      have hdefined := ha.waiting hf (declaration_eq_ok hd) hnone
      exact (h.2 hdefined home cur).carried hr ha ho

theorem callResult_follows (hw : w.KeepsLayout p) (id : FuncId) :
    Follows p home cur (.of []) (callResult w id position) := by
  refine fun s => .bind (.bind (.store ?_))
  split
  · next f hf =>
    refine .pure ?_
    split
    · exact .pure (.refl s)
    · split
      · exact .pure (.refl s)
      · refine .bind ((inferResult_realised hw hf).imp fun _ t _ h => ?_)
        have hlast : Follows p home cur (.of []) (do return (← func id).ret.getD .unit) :=
          .readsOnly (.bind (func_readsOnly id) fun _ => .pure _)
        exact (hlast t).imp fun _ _ _ h' => (h home cur).append h'
  · exact .fault trivial

theorem funcValue_follows (hw : w.KeepsLayout p) (id : FuncId) :
    Follows p home cur (.of []) (funcValue w id position) := by
  refine .func fun f => ?_
  split
  · exact .pure _
  · exact .thenPure (callResult_follows hw id) fun _ => .pure _

theorem instantiate_follows (hw : w.KeepsLayout p) (template : FuncSymbol) (args : List Ty) :
    Follows p home cur (.of []) (instantiate w template args position) := by
  refine .after (.stateless (.ofResult _)) fun d => .after (.readsOnly (hw.visit _)) fun _ s =>
    .bind (.get ?_)
  split
  · exact .pure (.refl s)
  · dsimp only
    split
    · exact .fail trivial
    · refine .bind ((makeInstance_realised (p := p) d args _).imp fun made t _ hmade => ?_)
      obtain ⟨hdefined, hmade⟩ := hmade
      refine .bind (.andFinally ((hw.function made.1 t).imp fun _ u _ h => .pure ?_))
      have hlisted := Still.listed u u.store.instances u.store.instanceScopes u.store.lambdas
        u.store.lambdaScopes u.known (u.active.insert d.info.id (s.active.getD d.info.id 0))
      exact ((hmade home cur).append (h.2 hdefined home cur)).append hlisted.realised

theorem callFunction_follows (hw : w.KeepsLayout p) (name : String) (args : List Ty) :
    Follows p home cur (.of []) (callFunction w name args position) := by
  refine .store fun st => ?_
  dsimp only
  split
  · exact .fail
  · split
    · exact .fail
    · refine .after ?_ fun id => .thenPure (callResult_follows hw id) fun _ => .pure _
      unfold selected
      split
      · exact instantiate_follows hw _ args
      · exact .pure _

theorem variableType_follows (hw : w.KeepsLayout p) (handle : VarHandle) (name : String) :
    Follows p home cur (.of []) (variableType w handle name position) := by
  refine .after (.store fun st => ?_) fun _ => .store fun st => ?_
  · split
    · exact demandConstant_follows hw name
    · exact .pure ()
  · split
    · exact .pure _
    · exact .fail

theorem nameType_follows (hw : w.KeepsLayout p) (inside : ScopeId) (info : NodeInfo)
    (name : String) : Follows p home cur (.of []) (nameType w inside info name) := by
  refine .store fun st => ?_
  split
  · exact .after (link_follows _ _) fun _ => variableType_follows hw _ name
  · split
    · exact .pure _
    · split
      · exact .fail
      · split
        · exact .after (link_follows _ _) fun _ => funcValue_follows hw _
        · exact .fail

theorem callByName_follows (hw : w.KeepsLayout p) (site callee : NodeInfo) (name : String)
    (args : List Ty) : Follows p home cur (.of []) (callByName w site callee name args) := by
  refine .after (callFunction_follows hw name args) fun _ => .after (link_follows _ _) fun _ =>
    .after (link_follows _ _) fun _ => .after (.func fun f => ?_) fun _ => .pure _
  split
  · exact setType_follows _ _
  · exact .pure ()

theorem typing_follows (hw : w.KeepsLayout p) (node : Nat) {act : Check Ty}
    (h : Follows p home cur q act) : Follows p home cur q (typing w node act) :=
  visiting_follows hw node (.thenPure h fun _ => .after (setType_follows _ _) fun _ => .pure _)

end Check

/-! ### Expressions -/

/-- Runs over an expression carry out the shapes of the lambdas in it, wherever it stands. -/
def Expr.KeepsLayout (p : Program) (w : Demand) (e : Expr) : Prop :=
  ∀ home cur hint, Follows p home cur (.of (e.shapes home)) (Check.expr w cur hint e)

namespace Check

theorem exprs_follows {es : List Expr} (h : ∀ e ∈ es, e.KeepsLayout p w)
    (hints : List (Option Ty)) :
    Follows p home cur (.of (exprsShapes home es)) (exprs w cur hints es) := by
  induction es generalizing hints with
  | nil =>
    rw [exprs, exprsShapes]
    exact .pure _
  | cons e rest ih =>
    rw [List.forall_mem_cons] at h
    rw [exprs, exprsShapes, Plan.of_append]
    exact (h.1 home cur _).bind fun _ => .thenPure (ih h.2 _) fun _ => .pure _

theorem sameType_follows {es : List Expr} (h : ∀ e ∈ es, e.KeepsLayout p w) (type : Ty) :
    Follows p home cur (.of (exprsShapes home es)) (sameType w cur type es) := by
  induction es with
  | nil =>
    rw [sameType, exprsShapes]
    exact .pure ()
  | cons e rest ih =>
    rw [List.forall_mem_cons] at h
    rw [sameType, exprsShapes, Plan.of_append]
    exact (h.1 home cur _).bind fun _ => .after (.stateless (expectType_stateless _ _)) fun _ =>
      ih h.2

theorem sameEntries_follows {entries : List (Expr × Expr)}
    (h : ∀ e ∈ entries, e.1.KeepsLayout p w ∧ e.2.KeepsLayout p w) (key value : Ty) :
    Follows p home cur (.of (entriesShapes home entries))
      (sameEntries w cur key value entries) := by
  induction entries with
  | nil =>
    rw [sameEntries, entriesShapes]
    exact .pure ()
  | cons e rest ih =>
    rw [List.forall_mem_cons] at h
    obtain ⟨k, v⟩ := e
    rw [sameEntries, entriesShapes, Plan.of_append, Plan.of_append]
    exact (h.1.1 home cur _).bind fun _ => .after (.stateless (expectType_stateless _ _)) fun _ =>
      (h.1.2 home cur _).bind fun _ => .after (.stateless (expectType_stateless _ _)) fun _ =>
        ih h.2

theorem values_follows {es : List Expr} (h : ∀ e ∈ es, e.KeepsLayout p w)
    (hints : List (Option Ty)) :
    Follows p home cur (.of (exprsShapes home es)) (values w cur hints position es) := by
  cases es with
  | nil =>
    rw [values, exprsShapes]
    split
    · exact .pure _
    · exact .fail
  | cons e rest =>
    rw [List.forall_mem_cons] at h
    rw [values, exprsShapes, Plan.of_append]
    split
    · exact (h.1 home cur _).bind fun _ => .thenPure (exprs_follows h.2 _) fun _ => .pure _
    · split
      · next hnil =>
        rw [List.isEmpty_iff] at hnil
        subst hnil
        rw [exprsShapes, Plan.append_of_nil]
        exact .thenPure (h.1 home cur _) fun _ => .stateless (takeApart_stateless _ _)
      · exact .fail

/-- A target that is not analysed is a name, so there is no lambda in it. -/
theorem targets_follows {es : List Expr} (h : ∀ e ∈ es, e.KeepsLayout p w) :
    Follows p home cur (.of (exprsShapes home es)) (targets w cur es) := by
  induction es with
  | nil =>
    rw [targets, exprsShapes]
    exact .pure _
  | cons e rest ih =>
    rw [List.forall_mem_cons] at h
    rw [targets, exprsShapes, Plan.of_append]
    refine .store fun st => ?_
    dsimp only
    have hfirst : Follows p home cur (.of (e.shapes home)) (if isIgnored st cur e = true then
        pure none else some <$> expr w cur none e) := by
      split
      · next hignored =>
        cases e <;> simp only [isIgnored, Bool.false_eq_true] at hignored
        rw [Expr.shapes]
        exact .pure _
      · exact (h.1 home cur _).map
    exact hfirst.bind fun _ => .thenPure (ih h.2) fun _ => .pure _

variable (hw : w.KeepsLayout p) (info : NodeInfo)
include hw

theorem literal_keepsLayout (value : Literal) : (Expr.literal info value).KeepsLayout p w := by
  intro home cur hint
  rw [expr_literal, Expr.shapes]
  exact typing_follows hw _ (.pure _)

theorem array_keepsLayout {elems : List Expr} (h : ∀ e ∈ elems, e.KeepsLayout p w) :
    (Expr.array info elems).KeepsLayout p w := by
  intro home cur hint
  rw [expr.eq_def, Expr.shapes]
  refine typing_follows hw _ ?_
  cases elems with
  | nil =>
    rw [exprsShapes]
    dsimp only
    split
    · exact .pure _
    · exact .fail
  | cons first rest =>
    rw [List.forall_mem_cons] at h
    rw [exprsShapes, Plan.of_append]
    exact (h.1 home cur _).bind fun _ => .thenPure (sameType_follows h.2 _) fun _ => .pure _

theorem tuple_keepsLayout {elems : List Expr} (h : ∀ e ∈ elems, e.KeepsLayout p w) :
    (Expr.tuple info elems).KeepsLayout p w := by
  intro home cur hint
  rw [expr.eq_def, Expr.shapes]
  exact typing_follows hw _ (.thenPure (exprs_follows h _) fun _ => .pure _)

theorem dict_keepsLayout {entries : List (Expr × Expr)}
    (h : ∀ e ∈ entries, e.1.KeepsLayout p w ∧ e.2.KeepsLayout p w) :
    (Expr.dict info entries).KeepsLayout p w := by
  intro home cur hint
  rw [expr.eq_def, Expr.shapes]
  refine typing_follows hw _ ?_
  cases entries with
  | nil =>
    rw [entriesShapes]
    dsimp only
    split
    · exact .pure _
    · exact .fail
  | cons first rest =>
    rw [List.forall_mem_cons] at h
    obtain ⟨key, value⟩ := first
    rw [entriesShapes, Plan.of_append, Plan.of_append]
    exact (h.1.1 home cur _).bind fun _ => (h.1.2 home cur _).bind fun _ =>
      .thenPure (sameEntries_follows h.2 _ _) fun _ => .pure _

theorem varRef_keepsLayout (name : String) (assigned : Bool) :
    (Expr.varRef info name assigned).KeepsLayout p w := by
  intro home cur hint
  rw [expr.eq_def, Expr.shapes]
  exact typing_follows hw _ (nameType_follows hw cur info name)

theorem member_keepsLayout {receiver : Expr} (h : receiver.KeepsLayout p w) (name : String) :
    (Expr.member info receiver name).KeepsLayout p w := by
  intro home cur hint
  rw [expr.eq_def, Expr.shapes]
  refine typing_follows hw _ (.thenPure (h home cur _) fun type => ?_)
  split
  · exact .pure _
  · exact .after (callFunction_follows hw name _) fun _ => .after (link_follows _ _) fun _ =>
      .pure _

theorem index_keepsLayout {receiver index : Expr} (hr : receiver.KeepsLayout p w)
    (hi : index.KeepsLayout p w) : (Expr.index info receiver index).KeepsLayout p w := by
  intro home cur hint
  rw [expr.eq_def, Expr.shapes, Plan.of_append]
  exact typing_follows hw _ ((hr home cur _).bind fun _ => .thenPure (hi home cur _) fun _ =>
    .stateless (indexType_stateless _ _ _ _))

/-- The arguments of a call come before what is called. -/
theorem call_keepsLayout {callee : Expr} {args : List Expr} (hc : callee.KeepsLayout p w)
    (hr : ∀ {info receiver name}, callee = .member info receiver name → receiver.KeepsLayout p w)
    (ha : ∀ e ∈ args, e.KeepsLayout p w) : (Expr.call info callee args).KeepsLayout p w := by
  intro home cur hint
  rw [expr.eq_def, Expr.shapes]
  have hvalue : ∀ types, Follows p home cur (.of (callee.shapes home))
      (expr w cur none callee >>= fun type => callValue info callee type callee.label types) :=
    fun types => .thenPure (hc home cur _) fun _ => .stateless (callValue_stateless _ _ _ _ _)
  refine typing_follows hw _ (Follows.congr ((exprs_follows ha _).bind fun types =>
    (?_ : Follows p home cur (.of (callee.shapes home)) _)) rfl rfl fun σ => ?_)
  · cases callee with
    | varRef calleeInfo name assigned =>
      refine .store fun st => ?_
      split
      · rw [Expr.shapes]
        exact callByName_follows hw _ _ name types
      · exact hvalue types
    | member calleeInfo receiver name =>
      rw [Expr.shapes]
      refine .thenPure (hr rfl home cur none) fun type => ?_
      generalize (if types.isEmpty then type.member? name else none) = known
      cases known with
      | some type => exact .after (setType_follows _ _) fun _ => .pure _
      | none => exact callByName_follows hw _ _ name _
    | _ => exact hvalue types
  · simp only [Plan.of, Plan.append_def, List.mem_append, or_comm]

theorem unary_keepsLayout (op : UnaryOp) {operand : Expr} (h : operand.KeepsLayout p w) :
    (Expr.unary info op operand).KeepsLayout p w := by
  intro home cur hint
  rw [expr.eq_def, Expr.shapes]
  refine typing_follows hw _ (.thenPure (h home cur _) fun type => ?_)
  split
  · exact .pure _
  · exact .fail

theorem binary_keepsLayout (op : BinaryOp) {lhs rhs : Expr} (hl : lhs.KeepsLayout p w)
    (hr : rhs.KeepsLayout p w) : (Expr.binary info op lhs rhs).KeepsLayout p w := by
  intro home cur hint
  rw [expr.eq_def, Expr.shapes, Plan.of_append]
  refine typing_follows hw _ ((hl home cur _).bind fun left => .thenPure (hr home cur _)
    fun right => .after (.stateless (expectType_stateless _ _)) fun _ => ?_)
  split
  · exact .pure _
  · exact .fail

theorem cast_keepsLayout {value : Expr} (h : value.KeepsLayout p w) (written : TypeExpr) :
    (Expr.cast info value written).KeepsLayout p w := by
  intro home cur hint
  rw [expr.eq_def, Expr.shapes]
  exact typing_follows hw _ (.thenPure (h home cur _) fun _ => .stateless (denoted_stateless _))

theorem typed_keepsLayout {value : Expr} (h : value.KeepsLayout p w) (written : TypeExpr) :
    (Expr.typed info value written).KeepsLayout p w := by
  intro home cur hint
  rw [expr.eq_def, Expr.shapes]
  exact typing_follows hw _ (.after (.stateless (denoted_stateless _)) fun _ =>
    .thenPure (h home cur _) fun _ => .after (.stateless (expectType_stateless _ _)) fun _ =>
      .pure _)

theorem ifElse_keepsLayout (kind : IfKind) {condition thenValue elseValue : Expr}
    (hc : condition.KeepsLayout p w) (ht : thenValue.KeepsLayout p w)
    (he : elseValue.KeepsLayout p w) :
    (Expr.ifElse info kind condition thenValue elseValue).KeepsLayout p w := by
  intro home cur hint
  rw [expr.eq_def, Expr.shapes, Plan.of_append, Plan.of_append]
  exact typing_follows hw _ ((hc home cur _).bind fun _ =>
    .after (.stateless (expectType_stateless _ _)) fun _ => (ht home cur _).bind fun _ =>
      .thenPure (he home cur _) fun _ => .after (.stateless (expectType_stateless _ _)) fun _ =>
        .pure _)

theorem range_keepsLayout {first last : Expr} (hf : first.KeepsLayout p w)
    (hl : last.KeepsLayout p w) (inclusive : Bool) :
    (Expr.range info first last inclusive).KeepsLayout p w := by
  intro home cur hint
  rw [expr.eq_def, Expr.shapes, Plan.of_append]
  refine typing_follows hw _ ((hf home cur _).bind fun left => .thenPure (hl home cur _)
    fun right => .after (.stateless (expectType_stateless _ _)) fun _ => ?_)
  split
  · exact .pure _
  · exact .fail

end Check

end Frontend
