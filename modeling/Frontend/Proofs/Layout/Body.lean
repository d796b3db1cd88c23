import Frontend.Proofs.Layout.Stmt
import Frontend.Proofs.Returns.Body

/-!
# Plans of whole bodies

The body of a function and its `ensure` block are carried out in the scope of the function, which
has been made before: for a lambda, in the scope that the lambda is written in; for all others, in
the global scope.
-/

namespace Frontend

variable {p : Program} {w : Demand} {home : Option Nat} {cur : ScopeId} {s t u : AnalysisState}
  {d : FuncDef}

/-- A run over the body of a declared function carries out the plan of its text in its scope, from
when it is begun. -/
def FuncDef.Performed (p : Program) (d : FuncDef) (s t : AnalysisState) : Prop :=
  ∃ inside, s.scopes[d.info.id]? = some inside ∧
    d.bodyPlan.Realised p (some d.info.id) inside (s.mark d.info.id .inProgress) t

/-- Each run over the body of a function that is declared performs it. -/
def FuncDef.KeepsLayout (p : Program) (w : Demand) (d : FuncDef) : Prop :=
  ∀ s, Ensures (fun _ _ => True) (Check.function w d) s fun _ t => d.Performed p s t

namespace FuncDef.Performed

theorem continues (h : d.Performed p s t) : Continues s t := by
  obtain ⟨_, -, hrealised⟩ := h
  exact (Continues.mark s _ _).trans hrealised.continues

/-- A definition that waits for its analysis is carried out as a whole, wherever it is asked for. -/
theorem realised (h : d.Performed p s t) (hd : Defined p s (.function d)) (home : Option Nat)
    (cur : ScopeId) : (Plan.of []).Realised p home cur s t := by
  refine ⟨h.continues, fun hr ha _ => ?_⟩
  obtain ⟨inside, hinside, hrealised⟩ := h
  have hmarked := ha.mark d.info.id .inProgress
  obtain ⟨ha', es, hcarried⟩ := hrealised.carried hr hmarked hinside
  obtain ⟨scope, hscope, hfunction, hencloses⟩ := ha'.homed
    (hrealised.continues.defined (d := .function d) ((Continues.mark s _ _).defined hd))
  have howner := hrealised.continues.scope (show (s.mark d.info.id .inProgress).scopes[d.info.id]? =
    some inside from hinside)
  cases howner.symm.trans hscope
  have hshapes : (Plan.of (Definition.function d).shapes).Carried p cur es
      (s.mark d.info.id .inProgress) t := by
    rw [Definition.shapes, d.shapes_eq]
    exact hcarried.within howner (fun _ => hfunction) nofun ⟨_, rfl, hencloses⟩
      (fun _ => .inl) (fun _ => Nat.le_refl _) fun _ => .inl
  have hbegun : t.progress[d.info.id]? ≠ none := hrealised.continues.begun (by
    rw [AnalysisState.progress_mark_self]
    exact Option.some_ne_none _)
  exact ⟨ha', _, Plan.Carried.demanded (e := .function d) hshapes
    (hrealised.continues.defined ((Continues.mark s _ _).defined hd)) hbegun⟩

/-- A lambda that has just been declared is carried out where it is written. -/
theorem lambda (h : d.Performed p t u) (hfounds : Check.Founds d cur s t) :
    (Plan.of (d.shapes home)).Realised p home cur s u := by
  refine ⟨hfounds.continues.trans h.continues, fun hr ha ho => ?_⟩
  have hr' := h.continues.refused hr
  obtain ⟨a, hpresent⟩ := ha.exists_scope ho
  obtain ⟨f, hin⟩ := hfounds.opens hpresent
  have hcontinues := h.continues
  obtain ⟨inside, hinside, hrealised⟩ := h
  obtain ⟨ha', es, hcarried⟩ := hrealised.carried hr (hfounds.begun hr' ha ho) hinside
  have hinside' : inside = s.store.scopes.size := by
    rw [hfounds.nodes hr', if_pos rfl] at hinside
    exact (Option.some.inj hinside).symm
  have hfunction : t.store.isFunction inside = true := by
    rw [hinside']
    simp only [Store.isFunction, hin.opened]
  refine ⟨ha', es, ?_⟩
  rw [d.shapes_eq]
  refine hcarried.within (hcontinues.scope hinside)
    (fun _ => hcontinues.store.isFunction hfunction) (fun h => by cases h)
    ⟨cur, (hfounds.continues.trans hcontinues).owns ho,
      hinside' ▸ hin.encloses.grows hcontinues.store⟩
    (fun c hc => .inl (((hin.isBlock c).mp hc).resolve_right fun h => Bool.false_ne_true h.2))
    (hin.varCount fun _ hbody => by cases hbody) fun n hn => ?_
  by_cases heq : n = d.info.id
  · exact .inr ⟨rfl, heq⟩
  · rw [AnalysisState.progress_mark heq, hfounds.marks] at hn
    exact .inl hn

end FuncDef.Performed

namespace Check

theorem function_keepsLayout (hw : w.KeepsLayout p) (hbody : d.body.KeepsLayout p w)
    (hensure : ∀ b ∈ d.ensureBody, b.KeepsLayout p w) : d.KeepsLayout p w := by
  intro s
  rw [function_eq]
  refine analysing_ensures_marked hw.visit d.info.id (.bind ((declared_found d.info).imp_both
    (fun _ _ _ => trivial) fun r t hdeclared => ?_))
  obtain ⟨rfl, hscope, -⟩ := hdeclared
  have hall : Follows p (some d.info.id) r.1 d.bodyPlan (do
      block w r.1 d.body
      optionalBlock w r.1 d.ensureBody
      settleReturn r.2) := (hbody _ r.1).bind fun _ =>
    .thenPure (optionalBlock_follows hensure) fun _ => settleReturn_follows r.2
  refine (hall (s.mark d.info.id .inProgress)).imp fun _ t _ hrealised => ⟨r.1, hscope, ?_⟩
  have hbegun : t.progress[d.info.id]? ≠ none := hrealised.continues.begun (by
    rw [AnalysisState.progress_mark_self]
    exact Option.some_ne_none _)
  exact d.bodyPlan.append_of_nil ▸ hrealised.append (.mark hbegun .done)

theorem lambda_keepsLayout (hw : w.KeepsLayout p) (info : NodeInfo) (h : d.KeepsLayout p w) :
    (Expr.lambda info d).KeepsLayout p w := by
  intro home cur hint
  rw [expr.eq_def, Expr.shapes]
  refine typing_follows hw _ fun s => .bind ((declareLambda_founds d _).imp fun r t _ hfounds =>
    .bind ((h t).imp fun _ u _ hperformed => ?_))
  have hlast : Follows p home cur (.of []) (lambdaType r.1 r.2 (lambdaHint hint
      d.params.length).2) := .readsOnly (lambdaType_readsOnly _ _ _)
  exact (hlast u).imp fun _ v _ hv =>
    (Plan.of _).append_of_nil ▸ (hperformed.lambda hfounds).append hv

end Check

open Check in
/-- Runs over all parts of a program carry out their plans. -/
theorem keepsLayout (hw : w.KeepsLayout p) :
    TreeInduction (Expr.KeepsLayout p w) (FuncDef.KeepsLayout p w) (Block.KeepsLayout p w)
      (Init.KeepsLayout p w) (Stmt.KeepsLayout p w) where
  literal info value := literal_keepsLayout hw info value
  array info _ h := array_keepsLayout hw info h
  tuple info _ h := tuple_keepsLayout hw info h
  dict info _ h := dict_keepsLayout hw info h
  varRef info name assigned := varRef_keepsLayout hw info name assigned
  member info _ name h := member_keepsLayout hw info h name
  index info _ _ hr hi := index_keepsLayout hw info hr hi
  call info _ _ hc hr ha := call_keepsLayout hw info hc hr ha
  unary info op _ h := unary_keepsLayout hw info op h
  binary info op _ _ hl hr := binary_keepsLayout hw info op hl hr
  cast info _ type h := cast_keepsLayout hw info h type
  typed info _ type h := typed_keepsLayout hw info h type
  ifElse info kind _ _ _ hc ht he := ifElse_keepsLayout hw info kind hc ht he
  range info _ _ inclusive hf hl := range_keepsLayout hw info hf hl inclusive
  lambda info _ h := lambda_keepsLayout hw info h
  function _ _ _ _ _ _ _ hb he := function_keepsLayout hw hb he
  block info _ h := block_keepsLayout info h
  inits info decls _ h := init_keepsLayout info decls h
  init _ h := Stmt.init_keepsLayout hw h
  assign info _ op _ ht he := Stmt.assign_keepsLayout hw info op ht he
  conditional info kind _ _ _ _ hc ht ha he := Stmt.ifElse_keepsLayout hw info kind hc ht ha he
  ret info _ h := Stmt.ret_keepsLayout hw info h
  case info _ _ ha he := Stmt.case_keepsLayout hw info ha he
  switch info _ _ _ ht ha he := Stmt.switch_keepsLayout hw info ht ha he
  forIn info vars _ bodyInfo _ hr h := Stmt.forIn_keepsLayout hw info bodyInfo vars hr h
  whileDo info _ _ hc hb := Stmt.whileDo_keepsLayout hw info hc hb
  guarded info _ kind _ hb hc := Stmt.guarded_keepsLayout hw info kind hb hc
  letIn info _ _ hi hc := Stmt.letIn_keepsLayout hw info hi hc
  expr _ h := Stmt.expr_keepsLayout hw h

end Frontend
