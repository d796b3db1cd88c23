import Frontend.Proofs.Returns.Declare

/-!
# Coherence along expressions

Calls and expressions keep coherence, whatever they demand on the way, and the lambdas in them are
coherent behind them.
-/

namespace Frontend

/-- Demands that keep coherence; a function is asked for once it is declared. -/
structure Demand.KeepsCoherence (p : Program) (w : Demand) : Prop where
  visit : ∀ v, ReadsOnly (w.visit v)
  definitionOf : ∀ {name c}, w.definitionOf name = some c → c ∈ p.constants
  constant : ∀ {c}, c ∈ p.constants → ∀ scope, Goes p scope [] [] (w.constant c)
  function : ∀ (d : FuncDef) (s : AnalysisState),
    Ensures (fun _ _ => True) (w.function d) s fun _ t => Growth s t ∧
      (t.refused = [] → Coherence p s → s.Declared d → Coherence p t)

variable {p : Program} {w : Demand} {scope : ScopeId} {position : Position} {s : AnalysisState}

/-- Actions without return statements, one after another. -/
theorem Goes.seq {α β : Type} {act : Check α} {f : α → Check β} {sites sites' : List Site}
    (h : Goes p scope sites [] act) (hf : ∀ a, Goes p scope sites' [] (f a)) :
    Goes p scope (sites ++ sites') [] (act >>= f) := Goes.bind h hf

/-- Behind an action nothing is left to meet. -/
theorem Goes.thenPure {α β : Type} {act : Check α} {f : α → Check β} {sites : List Site}
    (h : Goes p scope sites [] act) (hf : ∀ a, Goes p scope [] [] (f a)) :
    Goes p scope sites [] (act >>= f) :=
  (Goes.seq h hf).congr fun _ => by rw [List.append_nil]

namespace Check

/-! ### Calls -/

theorem visiting_goes {α : Type} (hw : w.KeepsCoherence p) (node : Nat) {act : Check α}
    {sites : List Site} {values : List (List Expr)} (h : Goes p scope sites values act) :
    Goes p scope sites values (visiting w node act) := by
  have hlast : ∀ a : α, Goes p scope [] [] (do w.visit (.leave node); pure a) := fun a =>
    Goes.seq (.readsOnly (hw.visit _)) fun _ => .pure a
  have hfirst : Goes p scope [] [] (w.visit (.enter node)) := .readsOnly (hw.visit _)
  have hall := hfirst.bind fun _ => h.bind hlast
  simp only [List.append_nil, List.nil_append] at hall
  exact hall

theorem demandConstant_goes (hw : w.KeepsCoherence p) (name : String) :
    Goes p scope [] [] (demandConstant w name) := by
  unfold demandConstant
  split
  · exact .pure ()
  · next c hc =>
    refine Goes.thenPure (.readsOnly (progress?_readsOnly _)) fun progress => ?_
    split
    · exact .pure ()
    · exact hw.constant (hw.definitionOf hc) scope

theorem declaration_eq_ok {f : FuncSymbol} {d : FuncDef}
    (h : f.declaration.mapError Failure.fault = .ok d) : f.decl = some d := by
  unfold FuncSymbol.declaration at h
  split at h
  · cases h
  · split at h
    · next heq =>
      cases h
      exact heq
    · cases h

theorem inferResult_leaves (scope : ScopeId) (hw : w.KeepsCoherence p) {id : FuncId}
    {f : FuncSymbol} (hf : s.store.func? id = some f) :
    Ensures (fun _ _ => True) (inferResult w f position) s fun _ t => Leaves p scope [] [] s t := by
  unfold inferResult
  split
  · exact .pure (.refl s)
  · refine .bind (.ofResult (fun _ _ => trivial) fun d hd => .bind ?_)
    refine (progress?_readsOnly d.info.id s).imp_both (fun _ _ _ => trivial)
      fun progress t heq => ?_
    subst heq
    split
    · exact .fail trivial
    · exact .pure (.refl t)
    · refine (hw.function d t).imp fun _ u _ h => .of_coherence h.1 fun hr hc => ?_
      exact h.2 hr hc ⟨id, f, hf, declaration_eq_ok hd⟩

theorem callResult_goes (hw : w.KeepsCoherence p) (id : FuncId) :
    Goes p scope [] [] (callResult w id position) := by
  refine fun s => .bind (.bind (.store ?_))
  split
  · next f hf =>
    refine .pure ?_
    split
    · exact .pure (.refl s)
    · split
      · exact .pure (.refl s)
      · refine .bind ((inferResult_leaves scope hw hf).imp fun _ t _ h => ?_)
        exact (Goes.readsOnly (.bind (func_readsOnly id) fun _ => .pure _) t).imp
          fun _ _ _ h' => h.trans h'
  · exact .fault trivial

theorem funcValue_goes (hw : w.KeepsCoherence p) (id : FuncId) :
    Goes p scope [] [] (funcValue w id position) := by
  refine .func fun f => ?_
  split
  · exact .pure _
  · exact .thenPure (callResult_goes hw id) fun _ => .pure _

theorem instantiate_goes (hw : w.KeepsCoherence p) (template : FuncSymbol) (args : List Ty) :
    Goes p scope [] [] (instantiate w template args position) := by
  refine .thenPure (.stateless (.ofResult _)) fun d =>
    .thenPure (.readsOnly (hw.visit _)) fun _ s => .bind (.get ?_)
  split
  · exact .pure (.refl s)
  · dsimp only
    split
    · exact .fail trivial
    · refine .bind ((makeInstance_introduces (p := p) d args _).imp fun made t _ h => ?_)
      obtain ⟨hg, hmade⟩ := h
      refine .bind (.andFinally ((hw.function made.1 t).imp fun _ u _ h => ?_))
      obtain ⟨hg', hfunction⟩ := h
      refine .pure ?_
      have hlisted := Leaves.listed (p := p) scope u u.store.instances u.store.instanceScopes
        u.store.lambdas u.store.lambdaScopes u.known
        (u.active.insert d.info.id (s.active.getD d.info.id 0))
      refine (Leaves.of_coherence (hg.trans hg') fun hr hc => ?_).trans hlisted
      obtain ⟨hc', hdeclared⟩ := hmade (hg'.refused hr) hc
      exact hfunction hr hc' hdeclared

theorem callFunction_goes (hw : w.KeepsCoherence p) (name : String) (args : List Ty) :
    Goes p scope [] [] (callFunction w name args position) := by
  refine .store fun st => ?_
  dsimp only
  split
  · exact .fail
  · split
    · exact .fail
    · refine .thenPure ?_ fun id => .thenPure (callResult_goes hw id) fun _ => .pure _
      unfold selected
      split
      · exact instantiate_goes hw _ args
      · exact .pure _

theorem variableType_goes (hw : w.KeepsCoherence p) (handle : VarHandle) (name : String) :
    Goes p scope [] [] (variableType w handle name position) := by
  refine .thenPure (.store fun st => ?_) fun _ => .store fun st => ?_
  · split
    · exact demandConstant_goes hw name
    · exact .pure ()
  · split
    · exact .pure _
    · exact .fail

theorem nameType_goes (hw : w.KeepsCoherence p) (inside : ScopeId) (info : NodeInfo)
    (name : String) : Goes p scope [] [] (nameType w inside info name) := by
  refine .store fun st => ?_
  split
  · exact .thenPure (link_goes _ _) fun _ => variableType_goes hw _ name
  · split
    · exact .pure _
    · split
      · exact .fail
      · split
        · exact .thenPure (link_goes _ _) fun _ => funcValue_goes hw _
        · exact .fail

theorem setType_goes (node : Nat) (type : Ty) : Goes p scope [] [] (setType node type) :=
  fun _ => (setType_leaves p scope node type).imp fun _ _ _ h => h.1

theorem callByName_goes (hw : w.KeepsCoherence p) (site callee : NodeInfo) (name : String)
    (args : List Ty) : Goes p scope [] [] (callByName w site callee name args) := by
  refine .thenPure (callFunction_goes hw name args) fun _ => .thenPure (link_goes _ _) fun _ =>
    .thenPure (link_goes _ _) fun _ => .thenPure (.func fun f => ?_) fun _ => .pure _
  split
  · exact setType_goes _ _
  · exact .pure ()

end Check

/-! ### Expressions -/

/-- Runs over an expression give it its type and keep coherence, wherever it stands. -/
def Expr.KeepsCoherence (p : Program) (w : Demand) (e : Expr) : Prop :=
  ∀ scope hint env s, Ensures (fun _ _ => True) (Check.expr w scope hint e) s fun type t =>
    Leaves p scope (e.parts env) [] s t ∧ t.types[e.id]? = some type

theorem Expr.KeepsCoherence.goes {e : Expr} (h : e.KeepsCoherence p w) (hint : Option Ty)
    (env : Env) : Goes p scope (e.parts env) [] (Check.expr w scope hint e) :=
  fun s => (h scope hint env s).imp fun _ _ _ h => h.1

namespace Check

theorem typing_keepsCoherence (hw : w.KeepsCoherence p) {node : Nat} {act : Check Ty}
    {sites : List Site} (h : Goes p scope sites [] act) :
    Ensures (fun _ _ => True) (typing w node act) s fun type t =>
      Leaves p scope sites [] s t ∧ t.types[node]? = some type := by
  have hquiet : ∀ {v : Visit} {u : AnalysisState} {post : Unit → AnalysisState → Prop}, post () u →
      Ensures (fun _ _ => True) (w.visit v) u post := fun {v u post} hpost =>
    (hw.visit v u).imp_both (fun _ _ _ => trivial) fun _ t heq => by rwa [heq]
  refine .bind (hquiet (.bind (.bind ((h s).imp fun type t _ hst => .bind
    ((setType_leaves p scope node type).imp fun _ u _ hset => .pure (.bind (hquiet (.pure ?_))))))))
  refine ⟨(hst.trans hset.1).congr fun d => ?_, hset.2⟩
  rw [List.append_nil]

theorem exprs_keepsCoherence {es : List Expr} (h : ∀ e ∈ es, e.KeepsCoherence p w)
    (hints : List (Option Ty)) (env : Env) :
    Ensures (fun _ _ => True) (exprs w scope hints es) s fun types t =>
      Leaves p scope (exprsSites env es) [] s t ∧ t.HaveTypes es types := by
  induction es generalizing s hints with
  | nil =>
    rw [exprs, exprsSites]
    exact .pure ⟨.refl s, .nil⟩
  | cons e rest ih =>
    rw [List.forall_mem_cons] at h
    rw [exprs, exprsSites]
    refine .bind ((h.1 _ _ env s).imp fun type t _ hfirst => .bind ((ih h.2 _).imp
      fun types u _ hrest => .pure ⟨?_, .cons (hrest.1.growth.type hfirst.2) hrest.2⟩))
    refine (hfirst.1.trans hrest.1).congr fun d => ?_
    simp only [List.mem_append, List.mem_cons, reduceCtorEq, false_or]

theorem exprs_goes {es : List Expr} (h : ∀ e ∈ es, e.KeepsCoherence p w)
    (hints : List (Option Ty)) (env : Env) :
    Goes p scope (exprsSites env es) [] (exprs w scope hints es) :=
  fun _ => (exprs_keepsCoherence h hints env).imp fun _ _ _ h => h.1

theorem sameType_goes {es : List Expr} (h : ∀ e ∈ es, e.KeepsCoherence p w) (type : Ty)
    (env : Env) : Goes p scope (exprsSites env es) [] (sameType w scope type es) := by
  induction es with
  | nil =>
    rw [sameType, exprsSites]
    exact .pure ()
  | cons e rest ih =>
    rw [List.forall_mem_cons] at h
    rw [sameType]
    refine (Goes.seq (h.1.goes _ env) fun _ => .seq (.stateless (expectType_stateless _ _)) fun _ =>
      ih h.2).congr fun d => ?_
    simp [exprsSites]

theorem sameEntries_goes {entries : List (Expr × Expr)}
    (h : ∀ e ∈ entries, e.1.KeepsCoherence p w ∧ e.2.KeepsCoherence p w) (key value : Ty)
    (env : Env) :
    Goes p scope (entriesSites env entries) [] (sameEntries w scope key value entries) := by
  induction entries with
  | nil =>
    rw [sameEntries, entriesSites]
    exact .pure ()
  | cons e rest ih =>
    rw [List.forall_mem_cons] at h
    obtain ⟨k, v⟩ := e
    rw [sameEntries]
    refine (Goes.seq (h.1.1.goes _ env) fun _ =>
      .seq (.stateless (expectType_stateless _ _)) fun _ => .seq (h.1.2.goes _ env) fun _ =>
        .seq (.stateless (expectType_stateless _ _)) fun _ => ih h.2).congr fun d => ?_
    simp [entriesSites]

theorem values_goes {es : List Expr} (h : ∀ e ∈ es, e.KeepsCoherence p w)
    (hints : List (Option Ty)) (env : Env) :
    Goes p scope (exprsSites env es) [] (values w scope hints position es) := by
  cases es with
  | nil =>
    rw [values, exprsSites]
    split
    · exact .pure _
    · exact .fail
  | cons e rest =>
    rw [List.forall_mem_cons] at h
    rw [values]
    split
    · refine (Goes.seq (h.1.goes _ env) fun _ => .thenPure (exprs_goes h.2 _ env) fun _ =>
        .pure _).congr fun d => ?_
      simp [exprsSites]
    · split
      · next hnil =>
        rw [List.isEmpty_iff] at hnil
        subst hnil
        refine (Goes.thenPure (h.1.goes _ env) fun _ => .stateless (takeApart_stateless _ _)).congr
          fun d => ?_
        simp [exprsSites]
      · exact .fail

/-- A target that is not analysed is a name, so there is no lambda in it. -/
theorem targets_goes {es : List Expr} (h : ∀ e ∈ es, e.KeepsCoherence p w) (env : Env) :
    Goes p scope (exprsSites env es) [] (targets w scope es) := by
  induction es with
  | nil =>
    rw [targets, exprsSites]
    exact .pure _
  | cons e rest ih =>
    rw [List.forall_mem_cons] at h
    rw [targets]
    refine .store fun st => ?_
    dsimp only
    have hfirst : Goes p scope (e.parts env) [] (if isIgnored st scope e = true then pure none
        else some <$> expr w scope none e) := by
      split
      · next hignored =>
        cases e <;> simp only [isIgnored, Bool.false_eq_true] at hignored
        exact (Goes.pure _).congr fun d => by simp [Expr.parts]
      · exact (h.1.goes _ env).map
    refine (Goes.seq hfirst fun _ => .thenPure (ih h.2) fun _ => .pure _).congr fun d => ?_
    simp [exprsSites]

variable (hw : w.KeepsCoherence p) (info : NodeInfo)
include hw

theorem literal_keepsCoherence (value : Literal) :
    (Expr.literal info value).KeepsCoherence p w := by
  intro scope hint env s
  rw [expr_literal, Expr.parts]
  exact typing_keepsCoherence hw (.pure _)

theorem array_keepsCoherence {elems : List Expr} (h : ∀ e ∈ elems, e.KeepsCoherence p w) :
    (Expr.array info elems).KeepsCoherence p w := by
  intro scope hint env s
  rw [expr.eq_def, Expr.parts]
  refine typing_keepsCoherence hw ?_
  cases elems with
  | nil =>
    rw [exprsSites]
    dsimp only
    split
    · exact .pure _
    · exact .fail
  | cons first rest =>
    rw [List.forall_mem_cons] at h
    refine (Goes.seq (h.1.goes _ env) fun _ => .thenPure (sameType_goes h.2 _ env) fun _ =>
      .pure _).congr fun d => ?_
    simp [exprsSites]

theorem tuple_keepsCoherence {elems : List Expr} (h : ∀ e ∈ elems, e.KeepsCoherence p w) :
    (Expr.tuple info elems).KeepsCoherence p w := by
  intro scope hint env s
  rw [expr.eq_def, Expr.parts]
  exact typing_keepsCoherence hw (.thenPure (exprs_goes h _ env) fun _ => .pure _)

theorem dict_keepsCoherence {entries : List (Expr × Expr)}
    (h : ∀ e ∈ entries, e.1.KeepsCoherence p w ∧ e.2.KeepsCoherence p w) :
    (Expr.dict info entries).KeepsCoherence p w := by
  intro scope hint env s
  rw [expr.eq_def, Expr.parts]
  refine typing_keepsCoherence hw ?_
  cases entries with
  | nil =>
    rw [entriesSites]
    dsimp only
    split
    · exact .pure _
    · exact .fail
  | cons first rest =>
    rw [List.forall_mem_cons] at h
    obtain ⟨key, value⟩ := first
    refine (Goes.seq (h.1.1.goes _ env) fun _ => .seq (h.1.2.goes _ env) fun _ =>
      .thenPure (sameEntries_goes h.2 _ _ env) fun _ => .pure _).congr fun d => ?_
    simp [entriesSites]

theorem varRef_keepsCoherence (name : String) (assigned : Bool) :
    (Expr.varRef info name assigned).KeepsCoherence p w := by
  intro scope hint env s
  rw [expr.eq_def, Expr.parts_varRef]
  refine typing_keepsCoherence hw ((nameType_goes hw scope info name).congr fun d => ?_)
  simp

theorem member_keepsCoherence {receiver : Expr} (h : receiver.KeepsCoherence p w) (name : String) :
    (Expr.member info receiver name).KeepsCoherence p w := by
  intro scope hint env s
  rw [expr.eq_def, Expr.parts]
  refine typing_keepsCoherence hw ((Goes.thenPure (h.goes _ env) fun type => ?_).congr fun d => ?_)
  · split
    · exact .pure _
    · exact .thenPure (callFunction_goes hw name _) fun _ => .thenPure (link_goes _ _) fun _ =>
        .pure _
  · simp

theorem index_keepsCoherence {receiver index : Expr} (hr : receiver.KeepsCoherence p w)
    (hi : index.KeepsCoherence p w) : (Expr.index info receiver index).KeepsCoherence p w := by
  intro scope hint env s
  rw [expr.eq_def, Expr.parts]
  refine typing_keepsCoherence hw ((Goes.seq (hr.goes _ env) fun _ => .thenPure (hi.goes _ env)
    fun _ => .stateless (indexType_stateless _ _ _ _)).congr fun d => ?_)
  simp

theorem call_keepsCoherence {callee : Expr} {args : List Expr} (hc : callee.KeepsCoherence p w)
    (hr : ∀ {info receiver name}, callee = .member info receiver name →
      receiver.KeepsCoherence p w)
    (ha : ∀ e ∈ args, e.KeepsCoherence p w) : (Expr.call info callee args).KeepsCoherence p w := by
  intro scope hint env s
  rw [expr.eq_def, Expr.parts]
  have hcallee : ∀ d, Site.lambda d ≠ callee.asCallee := by
    intro d
    cases callee <;> simp [Expr.asCallee]
  refine typing_keepsCoherence hw (Goes.congr (Goes.seq (exprs_goes ha _ env) fun types =>
    (?_ : Goes p scope (callee.parts env) [] _)) fun d => ?_)
  · have hvalue : Goes p scope (callee.parts env) [] (expr w scope none callee >>= fun type =>
        callValue info callee type callee.label types) :=
      .thenPure (hc.goes _ env) fun _ => .stateless (callValue_stateless _ _ _ _ _)
    cases callee with
    | varRef calleeInfo name assigned =>
      refine .store fun st => ?_
      split
      · refine (callByName_goes hw _ _ name types).congr fun d => ?_
        simp [Expr.parts]
      · exact hvalue
    | member calleeInfo receiver name =>
      refine (Goes.thenPure ((hr rfl).goes none env) fun type => ?_).congr fun d => ?_
      · generalize (if types.isEmpty then type.member? name else none) = known
        cases known with
        | some type => exact .thenPure (setType_goes _ _) fun _ => .pure _
        | none => exact callByName_goes hw _ _ name _
      · simp [Expr.parts]
    | _ => exact hvalue
  · simp only [List.cons_append, List.mem_append, List.mem_cons, hcallee d, false_or, or_comm]

theorem unary_keepsCoherence (op : UnaryOp) {operand : Expr} (h : operand.KeepsCoherence p w) :
    (Expr.unary info op operand).KeepsCoherence p w := by
  intro scope hint env s
  rw [expr.eq_def, Expr.parts]
  refine typing_keepsCoherence hw ((Goes.thenPure (h.goes _ env) fun type => ?_).congr fun d => ?_)
  · split
    · exact .pure _
    · exact .fail
  · simp

theorem binary_keepsCoherence (op : BinaryOp) {lhs rhs : Expr} (hl : lhs.KeepsCoherence p w)
    (hr : rhs.KeepsCoherence p w) : (Expr.binary info op lhs rhs).KeepsCoherence p w := by
  intro scope hint env s
  rw [expr.eq_def, Expr.parts]
  refine typing_keepsCoherence hw ((Goes.seq (hl.goes _ env) fun left => .thenPure (hr.goes _ env)
    fun right => .thenPure (.stateless (expectType_stateless _ _)) fun _ => ?_).congr fun d => ?_)
  · split
    · exact .pure _
    · exact .fail
  · simp

theorem cast_keepsCoherence {value : Expr} (h : value.KeepsCoherence p w) (written : TypeExpr) :
    (Expr.cast info value written).KeepsCoherence p w := by
  intro scope hint env s
  rw [expr.eq_def, Expr.parts]
  refine typing_keepsCoherence hw ((Goes.thenPure (h.goes _ env) fun _ =>
    .stateless (denoted_stateless _)).congr fun d => ?_)
  simp

theorem typed_keepsCoherence {value : Expr} (h : value.KeepsCoherence p w) (written : TypeExpr) :
    (Expr.typed info value written).KeepsCoherence p w := by
  intro scope hint env s
  rw [expr.eq_def, Expr.parts]
  refine typing_keepsCoherence hw ((Goes.seq (.stateless (denoted_stateless _)) fun _ =>
    .thenPure (h.goes _ env) fun _ => .thenPure (.stateless (expectType_stateless _ _)) fun _ =>
      .pure _).congr fun d => ?_)
  simp

theorem ifElse_keepsCoherence (kind : IfKind) {condition thenValue elseValue : Expr}
    (hc : condition.KeepsCoherence p w) (ht : thenValue.KeepsCoherence p w)
    (he : elseValue.KeepsCoherence p w) :
    (Expr.ifElse info kind condition thenValue elseValue).KeepsCoherence p w := by
  intro scope hint env s
  rw [expr.eq_def, Expr.parts]
  refine typing_keepsCoherence hw ((Goes.seq (hc.goes _ env) fun _ =>
    .seq (.stateless (expectType_stateless _ _)) fun _ => .seq (ht.goes _ env) fun _ =>
      .thenPure (he.goes _ env) fun _ => .thenPure (.stateless (expectType_stateless _ _)) fun _ =>
        .pure _).congr fun d => ?_)
  simp

theorem range_keepsCoherence {first last : Expr} (hf : first.KeepsCoherence p w)
    (hl : last.KeepsCoherence p w) (inclusive : Bool) :
    (Expr.range info first last inclusive).KeepsCoherence p w := by
  intro scope hint env s
  rw [expr.eq_def, Expr.parts]
  refine typing_keepsCoherence hw ((Goes.seq (hf.goes _ env) fun left => .thenPure (hl.goes _ env)
    fun right => .thenPure (.stateless (expectType_stateless _ _)) fun _ => ?_).congr fun d => ?_)
  · split
    · exact .pure _
    · exact .fail
  · simp

end Check

end Frontend
