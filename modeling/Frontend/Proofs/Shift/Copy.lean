import Frontend.Proofs.Shift.Tree
import Frontend.Proofs.Tree.Induction
import Frontend.Tree.Copy

/-!
# Copies with later ids

A copy takes its ids from the counter, so the copy of a shifted tree from a later counter is the
shifted copy.
-/

namespace Frontend

variable {d : Nat} {α β γ δ : Type}

/-- From a counter that has been moved on, the second action gives the image of what the first one
gives, and moves the counter as far. -/
def CopiesTo (d : Nat) (g : α → β) (act : StateM Nat α) (act' : StateM Nat β) : Prop :=
  ∀ n, Builtin.firstNodeId ≤ n → Builtin.firstNodeId ≤ (act.run n).2 ∧
    act'.run (n + d) = (g (act.run n).1, (act.run n).2 + d)

namespace CopiesTo

variable {g : α → β} {k : γ → δ} {act : StateM Nat α} {act' : StateM Nat β}

theorem pure {a : α} {b : β} (h : b = g a) : CopiesTo d g (pure a) (pure b) :=
  fun _ hn => ⟨hn, by rw [h]; rfl⟩

theorem bind {f : α → StateM Nat γ} {f' : β → StateM Nat δ} (h : CopiesTo d g act act')
    (hf : ∀ a, CopiesTo d k (f a) (f' (g a))) : CopiesTo d k (act >>= f) (act' >>= f') := by
  intro n hn
  obtain ⟨hn', hrun⟩ := h n hn
  obtain ⟨hm, hrun'⟩ := hf (act.run n).1 (act.run n).2 hn'
  refine ⟨hm, ?_⟩
  change (f' (act'.run (n + d)).1).run (act'.run (n + d)).2 = _
  rw [hrun]
  exact hrun'

theorem renew (info : NodeInfo) :
    CopiesTo d (NodeInfo.shift d) info.renew (info.shift d).renew := by
  intro n hn
  refine ⟨Nat.le_succ_of_le hn, ?_⟩
  change (({ info with id := n + d } : NodeInfo), n + d + 1) = (⟨shiftId d n, info.span⟩, n + 1 + d)
  rw [shiftId_of_le d hn, Nat.add_right_comm]

theorem mapM {f : α → StateM Nat α} {g : α → α} (as : List α)
    (h : ∀ a, CopiesTo d g (f a) (f (g a))) :
    CopiesTo d (List.map g) (as.mapM f) ((as.map g).mapM f) := by
  induction as with
  | nil =>
    rw [List.map_nil, List.mapM_nil]
    exact .pure rfl
  | cons a rest ih =>
    rw [List.map_cons, List.mapM_cons, List.mapM_cons]
    exact (h a).bind fun _ => ih.bind fun _ => .pure rfl

end CopiesTo

/-! ### Type annotations and declarations -/

mutual

theorem TypeExpr.copy_shift :
    ∀ t : TypeExpr, CopiesTo d (TypeExpr.shift d) t.copy (t.shift d).copy
  | .primary info name args => by
    simp only [TypeExpr.shift, TypeExpr.copy, shiftAnnotations_eq]
    refine (copyAll_shift args).bind fun args' => (CopiesTo.renew info).bind fun info' => .pure ?_
    simp only [TypeExpr.shift, shiftAnnotations_eq]
  | .array info elem => by
    simp only [TypeExpr.shift, TypeExpr.copy]
    exact elem.copy_shift.bind fun _ => (CopiesTo.renew info).bind fun _ => .pure rfl
  | .dict info key value => by
    simp only [TypeExpr.shift, TypeExpr.copy]
    exact key.copy_shift.bind fun _ => value.copy_shift.bind fun _ =>
      (CopiesTo.renew info).bind fun _ => .pure rfl
  | .tuple info elems => by
    simp only [TypeExpr.shift, TypeExpr.copy, shiftAnnotations_eq]
    refine (copyAll_shift elems).bind fun elems' => (CopiesTo.renew info).bind fun info' => .pure ?_
    simp only [TypeExpr.shift, shiftAnnotations_eq]
  | .func info kind params none => by
    simp only [TypeExpr.shift, TypeExpr.copy, shiftAnnotations_eq]
    refine (copyAll_shift params).bind fun params' => (CopiesTo.renew info).bind fun info' =>
      .pure ?_
    simp only [TypeExpr.shift, shiftAnnotations_eq]
  | .func info kind params (some ret) => by
    simp only [TypeExpr.shift, TypeExpr.copy, shiftAnnotations_eq]
    refine (copyAll_shift params).bind fun params' => ret.copy_shift.bind fun ret' =>
      (CopiesTo.renew info).bind fun info' => .pure ?_
    simp only [TypeExpr.shift, shiftAnnotations_eq]
  | .qualified info qualifier inner => by
    simp only [TypeExpr.shift, TypeExpr.copy]
    exact inner.copy_shift.bind fun _ => (CopiesTo.renew info).bind fun _ => .pure rfl

theorem copyAll_shift : ∀ ts : List TypeExpr, CopiesTo d (List.map (TypeExpr.shift d))
    (TypeExpr.copyAll ts) (TypeExpr.copyAll (ts.map (TypeExpr.shift d)))
  | [] => by
    rw [List.map_nil, TypeExpr.copyAll]
    exact .pure rfl
  | t :: rest => by
    rw [List.map_cons, TypeExpr.copyAll, TypeExpr.copyAll]
    exact t.copy_shift.bind fun _ => (copyAll_shift rest).bind fun _ => .pure rfl

end

theorem TypeExpr.copyOption_shift (t : Option TypeExpr) :
    CopiesTo d (Option.map (TypeExpr.shift d)) (copyOption t)
      (copyOption (t.map (TypeExpr.shift d))) := by
  cases t with
  | none => exact .pure rfl
  | some t => exact t.copy_shift.bind fun _ => .pure rfl

theorem Param.copy_shift (p : Param) : CopiesTo d (Param.shift d) p.copy (p.shift d).copy :=
  (CopiesTo.renew p.info).bind fun _ => (TypeExpr.copyOption_shift p.type).bind fun _ => .pure rfl

theorem VarDecl.copy_shift (v : VarDecl) : CopiesTo d (VarDecl.shift d) v.copy (v.shift d).copy :=
  (CopiesTo.renew v.info).bind fun _ => (TypeExpr.copyOption_shift v.type).bind fun _ => .pure rfl

/-! ### Lists of parts -/

theorem copyExprs_shift {es : List Expr}
    (h : ∀ e ∈ es, CopiesTo d (Expr.shift d) e.copy (e.shift d).copy) :
    CopiesTo d (List.map (Expr.shift d)) (copyExprs es) (copyExprs (es.map (Expr.shift d))) := by
  induction es with
  | nil =>
    rw [List.map_nil, copyExprs]
    exact .pure rfl
  | cons e rest ih =>
    rw [List.forall_mem_cons] at h
    rw [List.map_cons, copyExprs, copyExprs]
    exact h.1.bind fun _ => (ih h.2).bind fun _ => .pure rfl

theorem copyEntries_shift {es : List (Expr × Expr)}
    (h : ∀ e ∈ es, CopiesTo d (Expr.shift d) e.1.copy (e.1.shift d).copy ∧
      CopiesTo d (Expr.shift d) e.2.copy (e.2.shift d).copy) :
    CopiesTo d (List.map (shiftEntry d)) (copyEntries es)
      (copyEntries (es.map (shiftEntry d))) := by
  induction es with
  | nil =>
    rw [List.map_nil, copyEntries]
    exact .pure rfl
  | cons e rest ih =>
    rw [List.forall_mem_cons] at h
    rw [List.map_cons, copyEntries, copyEntries]
    exact h.1.1.bind fun _ => h.1.2.bind fun _ => (ih h.2).bind fun _ => .pure rfl

theorem copyStmts_shift {ss : List Stmt}
    (h : ∀ s ∈ ss, CopiesTo d (Stmt.shift d) s.copy (s.shift d).copy) :
    CopiesTo d (List.map (Stmt.shift d)) (copyStmts ss) (copyStmts (ss.map (Stmt.shift d))) := by
  induction ss with
  | nil =>
    rw [List.map_nil, copyStmts]
    exact .pure rfl
  | cons s rest ih =>
    rw [List.forall_mem_cons] at h
    rw [List.map_cons, copyStmts, copyStmts]
    exact h.1.bind fun _ => (ih h.2).bind fun _ => .pure rfl

theorem copyInits_shift {is : List Init}
    (h : ∀ i ∈ is, CopiesTo d (Init.shift d) i.copy (i.shift d).copy) :
    CopiesTo d (List.map (Init.shift d)) (copyInits is) (copyInits (is.map (Init.shift d))) := by
  induction is with
  | nil =>
    rw [List.map_nil, copyInits]
    exact .pure rfl
  | cons i rest ih =>
    rw [List.forall_mem_cons] at h
    rw [List.map_cons, copyInits, copyInits]
    exact h.1.bind fun _ => (ih h.2).bind fun _ => .pure rfl

theorem copyArms_shift {whens : List (Expr × Block)}
    (h : ∀ a ∈ whens, CopiesTo d (Expr.shift d) a.1.copy (a.1.shift d).copy ∧
      CopiesTo d (Block.shift d) a.2.copy (a.2.shift d).copy) :
    CopiesTo d (List.map (shiftArm d)) (copyArms whens) (copyArms (whens.map (shiftArm d))) := by
  induction whens with
  | nil =>
    rw [List.map_nil, copyArms]
    exact .pure rfl
  | cons a rest ih =>
    rw [List.forall_mem_cons] at h
    rw [List.map_cons, copyArms, copyArms]
    exact h.1.1.bind fun _ => h.1.2.bind fun _ => (ih h.2).bind fun _ => .pure rfl

theorem copyValueArms_shift {whens : List (List Expr × Block)}
    (h : ∀ a ∈ whens, (∀ e ∈ a.1, CopiesTo d (Expr.shift d) e.copy (e.shift d).copy) ∧
      CopiesTo d (Block.shift d) a.2.copy (a.2.shift d).copy) :
    CopiesTo d (List.map (shiftValueArm d)) (copyValueArms whens)
      (copyValueArms (whens.map (shiftValueArm d))) := by
  induction whens with
  | nil =>
    rw [List.map_nil, copyValueArms]
    exact .pure rfl
  | cons a rest ih =>
    rw [List.forall_mem_cons] at h
    rw [List.map_cons, copyValueArms, copyValueArms]
    exact (copyExprs_shift h.1.1).bind fun _ => h.1.2.bind fun _ => (ih h.2).bind fun _ => .pure rfl

/-! ### All trees -/

/-- The copy of a shifted tree is the shifted copy, whatever the construct. -/
theorem copiesTo_shift (d : Nat) : TreeInduction
    (fun e => CopiesTo d (Expr.shift d) e.copy (e.shift d).copy)
    (fun f => CopiesTo d (FuncDef.shift d) f.copy (f.shift d).copy)
    (fun b => CopiesTo d (Block.shift d) b.copy (b.shift d).copy)
    (fun i => CopiesTo d (Init.shift d) i.copy (i.shift d).copy)
    (fun s => CopiesTo d (Stmt.shift d) s.copy (s.shift d).copy) where
  literal info value := by
    simp only [Expr.shift, Expr.copy]
    exact (CopiesTo.renew info).bind fun _ => .pure rfl
  array info elems ih := by
    simp only [Expr.shift, Expr.copy, shiftExprs_eq]
    refine (copyExprs_shift ih).bind fun elems' => (CopiesTo.renew info).bind fun info' => .pure ?_
    simp only [Expr.shift, shiftExprs_eq]
  tuple info elems ih := by
    simp only [Expr.shift, Expr.copy, shiftExprs_eq]
    refine (copyExprs_shift ih).bind fun elems' => (CopiesTo.renew info).bind fun info' => .pure ?_
    simp only [Expr.shift, shiftExprs_eq]
  dict info entries ih := by
    simp only [Expr.shift, Expr.copy, shiftEntries_eq]
    refine (copyEntries_shift ih).bind fun es' => (CopiesTo.renew info).bind fun info' => .pure ?_
    simp only [Expr.shift, shiftEntries_eq]
  varRef info name assigned := by
    simp only [Expr.shift, Expr.copy]
    exact (CopiesTo.renew info).bind fun _ => .pure rfl
  member info receiver name ih := by
    simp only [Expr.shift, Expr.copy]
    exact ih.bind fun _ => (CopiesTo.renew info).bind fun _ => .pure rfl
  index info receiver index ihr ihi := by
    simp only [Expr.shift, Expr.copy]
    exact ihr.bind fun _ => ihi.bind fun _ => (CopiesTo.renew info).bind fun _ => .pure rfl
  call info callee args ihc _ iha := by
    simp only [Expr.shift, Expr.copy, shiftExprs_eq]
    refine ihc.bind fun callee' => (copyExprs_shift iha).bind fun args' =>
      (CopiesTo.renew info).bind fun info' => .pure ?_
    simp only [Expr.shift, shiftExprs_eq]
  unary info op operand ih := by
    simp only [Expr.shift, Expr.copy]
    exact ih.bind fun _ => (CopiesTo.renew info).bind fun _ => .pure rfl
  binary info op lhs rhs ihl ihr := by
    simp only [Expr.shift, Expr.copy]
    exact ihl.bind fun _ => ihr.bind fun _ => (CopiesTo.renew info).bind fun _ => .pure rfl
  cast info value type ih := by
    simp only [Expr.shift, Expr.copy]
    exact ih.bind fun _ => type.copy_shift.bind fun _ => (CopiesTo.renew info).bind fun _ =>
      .pure rfl
  typed info value type ih := by
    simp only [Expr.shift, Expr.copy]
    exact ih.bind fun _ => type.copy_shift.bind fun _ => (CopiesTo.renew info).bind fun _ =>
      .pure rfl
  ifElse info kind condition thenValue elseValue ihc iht ihe := by
    simp only [Expr.shift, Expr.copy]
    exact ihc.bind fun _ => iht.bind fun _ => ihe.bind fun _ =>
      (CopiesTo.renew info).bind fun _ => .pure rfl
  range info first last inclusive ihf ihl := by
    simp only [Expr.shift, Expr.copy]
    exact ihf.bind fun _ => ihl.bind fun _ => (CopiesTo.renew info).bind fun _ => .pure rfl
  lambda info f ih := by
    simp only [Expr.shift, Expr.copy]
    exact ih.bind fun _ => (CopiesTo.renew info).bind fun _ => .pure rfl
  function info kind name params returnType body ensureBody ihb ihe := by
    rw [FuncDef.shift, FuncDef.copy, FuncDef.copy]
    refine (CopiesTo.renew info).bind fun info' => ?_
    refine (CopiesTo.mapM params Param.copy_shift).bind fun params' => ?_
    refine (TypeExpr.copyOption_shift returnType).bind fun type' => ihb.bind fun body' => ?_
    cases ensureBody with
    | none => exact .pure rfl
    | some b => exact (ihe b rfl).bind fun _ => .pure rfl
  block info stmts ih := by
    simp only [Block.shift, Block.copy, shiftStmts_eq]
    refine (CopiesTo.renew info).bind fun info' => (copyStmts_shift ih).bind fun stmts' => .pure ?_
    simp only [Block.shift, shiftStmts_eq]
  inits info decls values ih := by
    simp only [Init.shift, Init.copy, shiftExprs_eq]
    refine (CopiesTo.renew info).bind fun info' => ?_
    refine (CopiesTo.mapM decls VarDecl.copy_shift).bind fun decls' => ?_
    refine (copyExprs_shift ih).bind fun values' => .pure ?_
    simp only [Init.shift, shiftExprs_eq]
  init i ih := by
    simp only [Stmt.shift, Stmt.copy]
    exact ih.bind fun _ => .pure rfl
  assign info targets op values iht ihv := by
    simp only [Stmt.shift, Stmt.copy, shiftExprs_eq]
    refine (CopiesTo.renew info).bind fun info' => (copyExprs_shift iht).bind fun targets' =>
      (copyExprs_shift ihv).bind fun values' => .pure ?_
    simp only [Stmt.shift, shiftExprs_eq]
  conditional info kind condition thenBlock elseifs elseBlock ihc iht iha ihe := by
    rw [Stmt.shift, Stmt.copy, Stmt.copy, shiftArms_eq]
    refine (CopiesTo.renew info).bind fun info' => ihc.bind fun condition' => ?_
    refine iht.bind fun then' => (copyArms_shift iha).bind fun elseifs' => ?_
    cases elseBlock with
    | none => exact .pure (by simp only [Stmt.shift, shiftArms_eq, shiftBlock])
    | some b =>
      exact (ihe b rfl).bind fun b' => .pure (by simp only [Stmt.shift, shiftArms_eq, shiftBlock])
  ret info values ih := by
    simp only [Stmt.shift, Stmt.copy, shiftExprs_eq]
    refine (CopiesTo.renew info).bind fun info' => (copyExprs_shift ih).bind fun values' => .pure ?_
    simp only [Stmt.shift, shiftExprs_eq]
  case info whens elseBlock iha ihe := by
    rw [Stmt.shift, Stmt.copy, Stmt.copy, shiftArms_eq]
    refine (CopiesTo.renew info).bind fun info' => (copyArms_shift iha).bind fun whens' => ?_
    cases elseBlock with
    | none => exact .pure (by simp only [Stmt.shift, shiftArms_eq, shiftBlock])
    | some b =>
      exact (ihe b rfl).bind fun b' => .pure (by simp only [Stmt.shift, shiftArms_eq, shiftBlock])
  switch info target whens elseBlock iht iha ihe := by
    rw [Stmt.shift, Stmt.copy, Stmt.copy, shiftValueArms_eq]
    refine (CopiesTo.renew info).bind fun info' => iht.bind fun target' => ?_
    refine (copyValueArms_shift iha).bind fun whens' => ?_
    cases elseBlock with
    | none => exact .pure (by simp only [Stmt.shift, shiftValueArms_eq, shiftBlock])
    | some b =>
      exact (ihe b rfl).bind fun b' =>
        .pure (by simp only [Stmt.shift, shiftValueArms_eq, shiftBlock])
  forIn info vars range bodyInfo stmts ihr ihb := by
    simp only [Stmt.shift, Stmt.copy, Block.shift, Block.copy, shiftStmts_eq]
    refine (CopiesTo.renew info).bind fun info' => ?_
    refine (CopiesTo.mapM vars Param.copy_shift).bind fun vars' => ihr.bind fun range' => ?_
    refine CopiesTo.bind (g := Block.shift d) ?_ fun body' => .pure rfl
    refine (CopiesTo.renew bodyInfo).bind fun bodyInfo' => ?_
    exact (copyStmts_shift ihb).bind fun stmts' => .pure (by simp only [Block.shift, shiftStmts_eq])
  whileDo info condition body ihc ihb := by
    simp only [Stmt.shift, Stmt.copy]
    exact (CopiesTo.renew info).bind fun _ => ihc.bind fun _ => ihb.bind fun _ => .pure rfl
  guarded info body kind condition ihb ihc := by
    simp only [Stmt.shift, Stmt.copy]
    exact (CopiesTo.renew info).bind fun _ => ihb.bind fun _ => ihc.bind fun _ => .pure rfl
  letIn info inits child ihi ihc := by
    simp only [Stmt.shift, Stmt.copy, shiftInits_eq]
    refine (CopiesTo.renew info).bind fun info' => (copyInits_shift ihi).bind fun inits' =>
      ihc.bind fun child' => .pure ?_
    simp only [Stmt.shift, shiftInits_eq]
  expr value ih := by
    simp only [Stmt.shift, Stmt.copy]
    exact ih.bind fun _ => .pure rfl

/-- From a later counter, a shifted function has the shifted copy. -/
theorem FuncDef.copy_shift (f : FuncDef) : CopiesTo d (FuncDef.shift d) f.copy (f.shift d).copy :=
  (copiesTo_shift d).onFunctions f

end Frontend
