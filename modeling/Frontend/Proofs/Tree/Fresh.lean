import Frontend.Proofs.Tree.Shape
import Frontend.Tree.Copy

/-!
# Fresh ids

Ids that a counter gave out between two of its values. A node that is built from parts built one
after another has fresh ids again, whether it takes its own id before or after its parts. The ids
of a copy are fresh, and a copy is as well shaped as what it was made from.
-/

namespace Frontend

/-- Different ids that a counter gave out on its way from `first` to `next`. -/
structure Fresh (first next : Nat) (ids : List Nat) : Prop where
  le : first ≤ next
  nodup : ids.Nodup
  bounds : ∀ id ∈ ids, first ≤ id ∧ id < next

namespace Fresh

variable {a b c : Nat} {ids ids' : List Nat}

theorem nil (a : Nat) : Fresh a a [] := ⟨Nat.le_refl a, List.nodup_nil, by simp⟩

theorem append (h : Fresh a b ids) (h' : Fresh b c ids') : Fresh a c (ids ++ ids') := by
  refine ⟨Nat.le_trans h.le h'.le, ?_, fun id hid => ?_⟩
  · refine List.nodup_append.mpr ⟨h.nodup, h'.nodup, fun x hx y hy => ?_⟩
    have hlt := (h.bounds x hx).2
    have hle := (h'.bounds y hy).1
    omega
  · have hle := h.le
    have hle' := h'.le
    rcases List.mem_append.mp hid with hid | hid
    · have hb := h.bounds id hid
      omega
    · have hb := h'.bounds id hid
      omega

/-- A node that takes its id before its parts. -/
theorem before (h : Fresh (a + 1) b ids) : Fresh a b (a :: ids) := by
  have hle := h.le
  refine ⟨by omega, List.nodup_cons.mpr ⟨fun ha => ?_, h.nodup⟩, fun id hid => ?_⟩
  · have hb := h.bounds a ha
    omega
  · rcases List.mem_cons.mp hid with rfl | hid
    · omega
    · have hb := h.bounds id hid
      omega

/-- A node that takes its id after its parts. -/
theorem behind (h : Fresh a b ids) : Fresh a (b + 1) (b :: ids) := by
  have hle := h.le
  refine ⟨by omega, List.nodup_cons.mpr ⟨fun hb => ?_, h.nodup⟩, fun id hid => ?_⟩
  · have hb' := h.bounds b hb
    omega
  · rcases List.mem_cons.mp hid with rfl | hid
    · omega
    · have hb' := h.bounds id hid
      omega

end Fresh

/-- From the value `n` of the counter an action gives a result with `post`. -/
def Minting {α : Type} (act : StateM Nat α) (n : Nat) (post : α → Nat → Prop) : Prop :=
  post (act.run n).1 (act.run n).2

namespace Minting

variable {α β : Type} {n : Nat} {act : StateM Nat α} {post post' : α → Nat → Prop}

theorem pure {a : α} (h : post a n) : Minting (pure a) n post := h

theorem bind {f : α → StateM Nat β} {post : β → Nat → Prop}
    (h : Minting act n fun a m => Minting (f a) m post) : Minting (act >>= f) n post := h

theorem imp (h : Minting act n post) (hp : ∀ a m, post a m → post' a m) :
    Minting act n post' := hp _ _ h

theorem and (h : Minting act n post) (h' : Minting act n post') :
    Minting act n fun a m => post a m ∧ post' a m := ⟨h, h'⟩

theorem renew {info : NodeInfo} {post : NodeInfo → Nat → Prop}
    (h : post { info with id := n } (n + 1)) : Minting info.renew n post := h

end Minting

/-! ### Type annotations, parameters and declarations -/

mutual

theorem TypeExpr.copy_fresh :
    ∀ (t : TypeExpr) (n : Nat), Minting t.copy n fun t' m => Fresh n m t'.ids
  | .primary info name args, n => by
    rw [TypeExpr.copy]
    refine .bind ((TypeExpr.copyAll_fresh args n).imp fun args' m h => .bind (.renew (.pure ?_)))
    simp only [TypeExpr.ids]
    exact h.behind
  | .array info elem, n => by
    rw [TypeExpr.copy]
    refine .bind ((elem.copy_fresh n).imp fun elem' m h => .bind (.renew (.pure ?_)))
    simp only [TypeExpr.ids]
    exact h.behind
  | .dict info key value, n => by
    rw [TypeExpr.copy]
    refine .bind ((key.copy_fresh n).imp fun key' m hk => .bind
      ((value.copy_fresh m).imp fun value' k hv => .bind (.renew (.pure ?_))))
    simp only [TypeExpr.ids]
    exact (hk.append hv).behind
  | .tuple info elems, n => by
    rw [TypeExpr.copy]
    refine .bind ((TypeExpr.copyAll_fresh elems n).imp fun elems' m h => .bind (.renew (.pure ?_)))
    simp only [TypeExpr.ids]
    exact h.behind
  | .func info kind params none, n => by
    rw [TypeExpr.copy]
    refine .bind ((TypeExpr.copyAll_fresh params n).imp fun params' m h =>
      .bind (.renew (.pure ?_)))
    simp only [TypeExpr.ids]
    exact h.behind
  | .func info kind params (some ret), n => by
    rw [TypeExpr.copy]
    refine .bind ((TypeExpr.copyAll_fresh params n).imp fun params' m hp => .bind
      ((ret.copy_fresh m).imp fun ret' k hr => .bind (.renew (.pure ?_))))
    simp only [TypeExpr.ids]
    exact (hp.append hr).behind
  | .qualified info qualifier inner, n => by
    rw [TypeExpr.copy]
    refine .bind ((inner.copy_fresh n).imp fun inner' m h => .bind (.renew (.pure ?_)))
    simp only [TypeExpr.ids]
    exact h.behind

theorem TypeExpr.copyAll_fresh :
    ∀ (ts : List TypeExpr) (n : Nat),
      Minting (TypeExpr.copyAll ts) n fun ts' m => Fresh n m (TypeExpr.idsAll ts')
  | [], n => by
    rw [TypeExpr.copyAll]
    exact .pure (by simpa only [TypeExpr.idsAll] using .nil n)
  | t :: rest, n => by
    rw [TypeExpr.copyAll]
    refine .bind ((t.copy_fresh n).imp fun t' m ht => .bind
      ((TypeExpr.copyAll_fresh rest m).imp fun rest' k hr => .pure ?_))
    simp only [TypeExpr.idsAll]
    exact ht.append hr

end

theorem TypeExpr.copyOption_fresh (t : Option TypeExpr) (n : Nat) :
    Minting (TypeExpr.copyOption t) n fun t' m => Fresh n m (TypeExpr.idsOption t') := by
  cases t with
  | none => exact .pure (.nil n)
  | some t => exact .bind ((t.copy_fresh n).imp fun t' m h => .pure h)

theorem Param.copy_fresh (p : Param) (n : Nat) :
    Minting p.copy n fun p' m => Fresh n m p'.ids :=
  .bind (.renew (.bind ((TypeExpr.copyOption_fresh p.type (n + 1)).imp fun _ _ h =>
    .pure h.before)))

theorem VarDecl.copy_fresh (d : VarDecl) (n : Nat) :
    Minting d.copy n fun d' m => Fresh n m d'.ids :=
  .bind (.renew (.bind ((TypeExpr.copyOption_fresh d.type (n + 1)).imp fun _ _ h =>
    .pure h.before)))

theorem copyParams_fresh (ps : List Param) (n : Nat) :
    Minting (ps.mapM Param.copy) n fun ps' m =>
      Fresh n m (ps'.flatMap Param.ids) ∧ ps'.length = ps.length := by
  induction ps generalizing n with
  | nil => exact ⟨.nil n, rfl⟩
  | cons p rest ih =>
    rw [List.mapM_cons]
    exact .bind ((p.copy_fresh n).imp fun p' m hp => .bind ((ih m).imp fun rest' k hr =>
      .pure ⟨hp.append hr.1, congrArg Nat.succ hr.2⟩))

theorem copyDecls_fresh (ds : List VarDecl) (n : Nat) :
    Minting (ds.mapM VarDecl.copy) n fun ds' m => Fresh n m (ds'.flatMap VarDecl.ids) := by
  induction ds generalizing n with
  | nil => exact .nil n
  | cons d rest ih =>
    rw [List.mapM_cons]
    exact .bind ((d.copy_fresh n).imp fun d' m hd => .bind ((ih m).imp fun rest' k hr =>
      .pure (hd.append hr)))

/-- Copies have types just where the declarations have. -/
theorem copyDecls_typed (ds : List VarDecl) (n : Nat) :
    Minting (ds.mapM VarDecl.copy) n fun ds' _ =>
      ds'.map (·.type.isSome) = ds.map (·.type.isSome) := by
  induction ds generalizing n with
  | nil => exact .pure rfl
  | cons d rest ih =>
    rw [List.mapM_cons]
    have hhead : Minting d.copy n fun d' _ => d'.type.isSome = d.type.isSome := by
      refine .bind (.renew (.bind ?_))
      cases d.type <;> rfl
    exact .bind (hhead.imp fun d' m hd => .bind ((ih m).imp fun rest' k hr =>
      .pure (by rw [List.map_cons, List.map_cons, hd, hr])))

theorem copyExprs_length (es : List Expr) (n : Nat) :
    Minting (copyExprs es) n fun es' _ => es'.length = es.length := by
  induction es generalizing n with
  | nil =>
    rw [copyExprs]
    exact .pure rfl
  | cons e rest ih =>
    rw [copyExprs]
    have hhead : Minting e.copy n fun _ _ => True := trivial
    exact .bind (hhead.imp fun e' m _ => .bind ((ih m).imp fun rest' k hr =>
      .pure (congrArg Nat.succ hr)))

/-! ### Expressions, statements and functions -/

mutual

theorem Expr.copy_fresh :
    ∀ (e : Expr) (n : Nat), Minting e.copy n fun e' m =>
      Fresh n m e'.ids ∧ (e.WellShaped → e'.WellShaped) ∧ (e.asTarget = e → e'.asTarget = e')
  | .literal info value, n => by
    rw [Expr.copy]
    refine .bind (.renew (.pure ?_))
    simp only [Expr.ids, Expr.WellShaped]
    exact ⟨(Fresh.nil n).behind, id, fun _ => rfl⟩
  | .array info elems, n => by
    rw [Expr.copy]
    refine .bind ((copyExprs_fresh elems n).imp fun elems' m h => .bind (.renew (.pure ?_)))
    simp only [Expr.ids, Expr.WellShaped]
    exact ⟨h.1.behind, h.2.1, fun _ => rfl⟩
  | .tuple info elems, n => by
    rw [Expr.copy]
    refine .bind ((copyExprs_fresh elems n).imp fun elems' m h => .bind (.renew (.pure ?_)))
    simp only [Expr.ids, Expr.WellShaped]
    exact ⟨h.1.behind, h.2.1, fun _ => rfl⟩
  | .dict info entries, n => by
    rw [Expr.copy]
    refine .bind ((copyEntries_fresh entries n).imp fun entries' m h => .bind (.renew (.pure ?_)))
    simp only [Expr.ids, Expr.WellShaped]
    exact ⟨h.1.behind, h.2, fun _ => rfl⟩
  | .varRef info name assigned, n => by
    rw [Expr.copy]
    refine .bind (.renew (.pure ?_))
    simp only [Expr.ids, Expr.WellShaped]
    refine ⟨(Fresh.nil n).behind, id, fun h => ?_⟩
    simp only [Expr.asTarget, Expr.varRef.injEq, true_and] at h ⊢
    exact h
  | .member info receiver name, n => by
    rw [Expr.copy]
    refine .bind ((receiver.copy_fresh n).imp fun receiver' m h => .bind (.renew (.pure ?_)))
    simp only [Expr.ids, Expr.WellShaped]
    exact ⟨h.1.behind, h.2.1, fun _ => rfl⟩
  | .index info receiver index, n => by
    rw [Expr.copy]
    refine .bind ((receiver.copy_fresh n).imp fun receiver' m hr => .bind
      ((index.copy_fresh m).imp fun index' k hi => .bind (.renew (.pure ?_))))
    simp only [Expr.ids, Expr.WellShaped]
    exact ⟨(hr.1.append hi.1).behind, fun h => ⟨hr.2.1 h.1, hi.2.1 h.2⟩, fun _ => rfl⟩
  | .call info callee args, n => by
    rw [Expr.copy]
    refine .bind ((callee.copy_fresh n).imp fun callee' m hc => .bind
      ((copyExprs_fresh args m).imp fun args' k ha => .bind (.renew (.pure ?_))))
    simp only [Expr.ids, Expr.WellShaped]
    exact ⟨(hc.1.append ha.1).behind, fun h => ⟨hc.2.1 h.1, ha.2.1 h.2⟩, fun _ => rfl⟩
  | .unary info op operand, n => by
    rw [Expr.copy]
    refine .bind ((operand.copy_fresh n).imp fun operand' m h => .bind (.renew (.pure ?_)))
    simp only [Expr.ids, Expr.WellShaped]
    exact ⟨h.1.behind, h.2.1, fun _ => rfl⟩
  | .binary info op lhs rhs, n => by
    rw [Expr.copy]
    refine .bind ((lhs.copy_fresh n).imp fun lhs' m hl => .bind
      ((rhs.copy_fresh m).imp fun rhs' k hr => .bind (.renew (.pure ?_))))
    simp only [Expr.ids, Expr.WellShaped]
    exact ⟨(hl.1.append hr.1).behind, fun h => ⟨hl.2.1 h.1, hr.2.1 h.2⟩, fun _ => rfl⟩
  | .cast info value type, n => by
    rw [Expr.copy]
    refine .bind ((value.copy_fresh n).imp fun value' m hv => .bind
      ((type.copy_fresh m).imp fun type' k ht => .bind (.renew (.pure ?_))))
    simp only [Expr.ids, Expr.WellShaped]
    exact ⟨(hv.1.append ht).behind, hv.2.1, fun _ => rfl⟩
  | .typed info value type, n => by
    rw [Expr.copy]
    refine .bind ((value.copy_fresh n).imp fun value' m hv => .bind
      ((type.copy_fresh m).imp fun type' k ht => .bind (.renew (.pure ?_))))
    simp only [Expr.ids, Expr.WellShaped]
    exact ⟨(hv.1.append ht).behind, hv.2.1, fun _ => rfl⟩
  | .ifElse info kind condition thenValue elseValue, n => by
    rw [Expr.copy]
    refine .bind ((condition.copy_fresh n).imp fun condition' m hc => .bind
      ((thenValue.copy_fresh m).imp fun thenValue' k ht => .bind
        ((elseValue.copy_fresh k).imp fun elseValue' l he => .bind (.renew (.pure ?_)))))
    simp only [Expr.ids, Expr.WellShaped]
    exact ⟨((hc.1.append ht.1).append he.1).behind,
      fun h => ⟨hc.2.1 h.1, ht.2.1 h.2.1, he.2.1 h.2.2⟩, fun _ => rfl⟩
  | .range info first last inclusive, n => by
    rw [Expr.copy]
    refine .bind ((first.copy_fresh n).imp fun first' m hf => .bind
      ((last.copy_fresh m).imp fun last' k hl => .bind (.renew (.pure ?_))))
    simp only [Expr.ids, Expr.WellShaped]
    exact ⟨(hf.1.append hl.1).behind, fun h => ⟨hf.2.1 h.1, hl.2.1 h.2⟩, fun _ => rfl⟩
  | .lambda info d, n => by
    rw [Expr.copy]
    refine .bind ((d.copy_fresh n).imp fun d' m h => .bind (.renew (.pure ?_)))
    simp only [Expr.ids, Expr.WellShaped]
    exact ⟨h.1.behind, fun hd => ⟨h.2.2.2.1.trans hd.1, h.2.1 hd.2⟩, fun _ => rfl⟩

theorem copyExprs_fresh :
    ∀ (es : List Expr) (n : Nat), Minting (copyExprs es) n fun es' m =>
      Fresh n m (exprIds es') ∧ (exprsWellShaped es → exprsWellShaped es') ∧
        ((∀ t ∈ es, t.asTarget = t) → ∀ t ∈ es', t.asTarget = t)
  | [], n => by
    rw [copyExprs]
    refine .pure ?_
    simp only [exprIds]
    exact ⟨.nil n, id, id⟩
  | e :: rest, n => by
    rw [copyExprs]
    refine .bind ((e.copy_fresh n).imp fun e' m he => .bind
      ((copyExprs_fresh rest m).imp fun rest' k hr => .pure ?_))
    simp only [exprIds, exprsWellShaped, List.mem_cons, forall_eq_or_imp]
    exact ⟨he.1.append hr.1, fun h => ⟨he.2.1 h.1, hr.2.1 h.2⟩,
      fun h => ⟨he.2.2 h.1, hr.2.2 h.2⟩⟩

theorem copyEntries_fresh :
    ∀ (es : List (Expr × Expr)) (n : Nat), Minting (copyEntries es) n fun es' m =>
      Fresh n m (entryIds es') ∧ (entriesWellShaped es → entriesWellShaped es')
  | [], n => by
    rw [copyEntries]
    refine .pure ?_
    simp only [entryIds]
    exact ⟨.nil n, id⟩
  | (key, value) :: rest, n => by
    rw [copyEntries]
    refine .bind ((key.copy_fresh n).imp fun key' m hk => .bind
      ((value.copy_fresh m).imp fun value' k hv => .bind
        ((copyEntries_fresh rest k).imp fun rest' l hr => .pure ?_)))
    simp only [entryIds, entriesWellShaped]
    exact ⟨(hk.1.append hv.1).append hr.1,
      fun h => ⟨hk.2.1 h.1, hv.2.1 h.2.1, hr.2 h.2.2⟩⟩

theorem FuncDef.copy_fresh :
    ∀ (d : FuncDef) (n : Nat), Minting d.copy n fun d' m =>
      Fresh n m d'.ids ∧ (d.WellShaped → d'.WellShaped) ∧ d'.name = d.name ∧ d'.kind = d.kind ∧
        d'.params.length = d.params.length
  | ⟨info, kind, name, params, returnType, body, none⟩, n => by
    rw [FuncDef.copy]
    refine .bind (.renew (.bind ((copyParams_fresh params (n + 1)).imp fun params' m hp => .bind
      ((TypeExpr.copyOption_fresh returnType m).imp fun returnType' k hr => .bind
        ((body.copy_fresh k).imp fun body' l hb => .pure ?_)))))
    simp only [FuncDef.ids, FuncDef.WellShaped, blockIds, optionalWellShaped, List.append_nil]
    exact ⟨((hp.1.append hr).append hb.1).before, fun h => ⟨hb.2 h.1, trivial⟩, trivial, trivial,
      hp.2⟩
  | ⟨info, kind, name, params, returnType, body, some ensureBody⟩, n => by
    rw [FuncDef.copy]
    refine .bind (.renew (.bind ((copyParams_fresh params (n + 1)).imp fun params' m hp => .bind
      ((TypeExpr.copyOption_fresh returnType m).imp fun returnType' k hr => .bind
        ((body.copy_fresh k).imp fun body' l hb => .bind
          ((ensureBody.copy_fresh l).imp fun ensureBody' j he => .pure ?_))))))
    simp only [FuncDef.ids, FuncDef.WellShaped, blockIds, optionalWellShaped]
    exact ⟨(((hp.1.append hr).append hb.1).append he.1).before,
      fun h => ⟨hb.2 h.1, he.2 h.2⟩, trivial, trivial, hp.2⟩

theorem Block.copy_fresh :
    ∀ (b : Block) (n : Nat), Minting b.copy n fun b' m =>
      Fresh n m b'.ids ∧ (b.WellShaped → b'.WellShaped)
  | ⟨info, stmts⟩, n => by
    rw [Block.copy]
    refine .bind (.renew (.bind ((copyStmts_fresh stmts (n + 1)).imp fun stmts' m h => .pure ?_)))
    simp only [Block.ids, Block.WellShaped]
    exact ⟨h.1.before, h.2⟩

theorem Init.copy_fresh :
    ∀ (i : Init) (n : Nat), Minting i.copy n fun i' m =>
      Fresh n m i'.ids ∧ (i.WellShaped → i'.WellShaped)
  | ⟨info, decls, values⟩, n => by
    rw [Init.copy]
    refine .bind (.renew (.bind (((copyDecls_fresh decls (n + 1)).and
      (copyDecls_typed decls (n + 1))).imp fun decls' m hd => .bind
      (((copyExprs_fresh values m).and (copyExprs_length values m)).imp fun values' k hv =>
        .pure ?_))))
    simp only [Init.ids, Init.WellShaped]
    refine ⟨(hd.1.append hv.1.1).before, fun h => ⟨fun hnil => ?_, hv.1.2.1 h.2⟩⟩
    have htyped : ∀ b ∈ decls'.map (·.type.isSome), b = true := by
      rw [hd.2]
      have hempty : values = [] := List.eq_nil_of_length_eq_zero (hv.2.symm.trans (hnil ▸ rfl))
      exact List.forall_mem_map.mpr (h.1 hempty)
    exact List.forall_mem_map.mp htyped

theorem Stmt.copy_fresh :
    ∀ (s : Stmt) (n : Nat), Minting s.copy n fun s' m =>
      Fresh n m s'.ids ∧ (s.WellShaped → s'.WellShaped)
  | .init init, n => by
    rw [Stmt.copy]
    refine .bind ((init.copy_fresh n).imp fun init' m h => .pure ?_)
    simp only [Stmt.ids, Stmt.WellShaped]
    exact h
  | .assign info targets op values, n => by
    rw [Stmt.copy]
    refine .bind (.renew (.bind (((copyExprs_fresh targets (n + 1)).and
      (copyExprs_length targets (n + 1))).imp fun targets' m ht => .bind
      (((copyExprs_fresh values m).and (copyExprs_length values m)).imp fun values' k hv =>
        .pure ?_))))
    simp only [Stmt.ids, Stmt.WellShaped]
    refine ⟨(ht.1.1.append hv.1.1).before, fun ⟨hone, hmarked, hts, hvs⟩ => ?_⟩
    rw [ht.2, hv.2]
    exact ⟨hone, ht.1.2.2 hmarked, ht.1.2.1 hts, hv.1.2.1 hvs⟩
  | .ifElse info kind condition thenBlock elseifs none, n => by
    rw [Stmt.copy]
    refine .bind (.renew (.bind ((condition.copy_fresh (n + 1)).imp fun condition' m hc => .bind
      ((thenBlock.copy_fresh m).imp fun thenBlock' k ht => .bind
        ((copyArms_fresh elseifs k).imp fun elseifs' l ha => .pure ?_)))))
    simp only [Stmt.ids, Stmt.WellShaped, blockIds, optionalWellShaped, List.append_nil]
    exact ⟨((hc.1.append ht.1).append ha.1).before,
      fun h => ⟨hc.2.1 h.1, ht.2 h.2.1, ha.2 h.2.2.1, trivial⟩⟩
  | .ifElse info kind condition thenBlock elseifs (some elseBlock), n => by
    rw [Stmt.copy]
    refine .bind (.renew (.bind ((condition.copy_fresh (n + 1)).imp fun condition' m hc => .bind
      ((thenBlock.copy_fresh m).imp fun thenBlock' k ht => .bind
        ((copyArms_fresh elseifs k).imp fun elseifs' l ha => .bind
          ((elseBlock.copy_fresh l).imp fun elseBlock' j he => .pure ?_))))))
    simp only [Stmt.ids, Stmt.WellShaped, blockIds, optionalWellShaped]
    exact ⟨(((hc.1.append ht.1).append ha.1).append he.1).before,
      fun h => ⟨hc.2.1 h.1, ht.2 h.2.1, ha.2 h.2.2.1, he.2 h.2.2.2⟩⟩
  | .ret info values, n => by
    rw [Stmt.copy]
    refine .bind (.renew (.bind ((copyExprs_fresh values (n + 1)).imp fun values' m h => .pure ?_)))
    simp only [Stmt.ids, Stmt.WellShaped]
    exact ⟨h.1.before, h.2.1⟩
  | .case info whens none, n => by
    rw [Stmt.copy]
    refine .bind (.renew (.bind ((copyArms_fresh whens (n + 1)).imp fun whens' m h => .pure ?_)))
    simp only [Stmt.ids, Stmt.WellShaped, blockIds, optionalWellShaped, List.append_nil]
    exact ⟨h.1.before, fun hs => ⟨h.2 hs.1, trivial⟩⟩
  | .case info whens (some elseBlock), n => by
    rw [Stmt.copy]
    refine .bind (.renew (.bind ((copyArms_fresh whens (n + 1)).imp fun whens' m h => .bind
      ((elseBlock.copy_fresh m).imp fun elseBlock' k he => .pure ?_))))
    simp only [Stmt.ids, Stmt.WellShaped, blockIds, optionalWellShaped]
    exact ⟨(h.1.append he.1).before, fun hs => ⟨h.2 hs.1, he.2 hs.2⟩⟩
  | .switch info target whens none, n => by
    rw [Stmt.copy]
    refine .bind (.renew (.bind ((target.copy_fresh (n + 1)).imp fun target' m ht => .bind
      ((copyValueArms_fresh whens m).imp fun whens' k h => .pure ?_))))
    simp only [Stmt.ids, Stmt.WellShaped, blockIds, optionalWellShaped, List.append_nil]
    exact ⟨(ht.1.append h.1).before, fun hs => ⟨ht.2.1 hs.1, h.2 hs.2.1, trivial⟩⟩
  | .switch info target whens (some elseBlock), n => by
    rw [Stmt.copy]
    refine .bind (.renew (.bind ((target.copy_fresh (n + 1)).imp fun target' m ht => .bind
      ((copyValueArms_fresh whens m).imp fun whens' k h => .bind
        ((elseBlock.copy_fresh k).imp fun elseBlock' l he => .pure ?_)))))
    simp only [Stmt.ids, Stmt.WellShaped, blockIds, optionalWellShaped]
    exact ⟨((ht.1.append h.1).append he.1).before,
      fun hs => ⟨ht.2.1 hs.1, h.2 hs.2.1, he.2 hs.2.2⟩⟩
  | .forIn info vars range body, n => by
    rw [Stmt.copy]
    refine .bind (.renew (.bind ((copyParams_fresh vars (n + 1)).imp fun vars' m hv => .bind
      ((range.copy_fresh m).imp fun range' k hr => .bind
        ((body.copy_fresh k).imp fun body' l hb => .pure ?_)))))
    simp only [Stmt.ids, Stmt.WellShaped]
    exact ⟨((hv.1.append hr.1).append hb.1).before, fun h => ⟨hr.2.1 h.1, hb.2 h.2⟩⟩
  | .whileDo info condition body, n => by
    rw [Stmt.copy]
    refine .bind (.renew (.bind ((condition.copy_fresh (n + 1)).imp fun condition' m hc => .bind
      ((body.copy_fresh m).imp fun body' k hb => .pure ?_))))
    simp only [Stmt.ids, Stmt.WellShaped]
    exact ⟨(hc.1.append hb.1).before, fun h => ⟨hc.2.1 h.1, hb.2 h.2⟩⟩
  | .guarded info body kind condition, n => by
    rw [Stmt.copy]
    refine .bind (.renew (.bind ((body.copy_fresh (n + 1)).imp fun body' m hb => .bind
      ((condition.copy_fresh m).imp fun condition' k hc => .pure ?_))))
    simp only [Stmt.ids, Stmt.WellShaped]
    exact ⟨(hb.1.append hc.1).before, fun h => ⟨hb.2 h.1, hc.2.1 h.2⟩⟩
  | .letIn info inits child, n => by
    rw [Stmt.copy]
    refine .bind (.renew (.bind ((copyInits_fresh inits (n + 1)).imp fun inits' m hi => .bind
      ((child.copy_fresh m).imp fun child' k hc => .pure ?_))))
    simp only [Stmt.ids, Stmt.WellShaped]
    exact ⟨(hi.1.append hc.1).before, fun h => ⟨hi.2 h.1, hc.2 h.2⟩⟩
  | .expr value, n => by
    rw [Stmt.copy]
    refine .bind ((value.copy_fresh n).imp fun value' m h => .pure ?_)
    simp only [Stmt.ids, Stmt.WellShaped]
    exact ⟨h.1, h.2.1⟩

theorem copyStmts_fresh :
    ∀ (ss : List Stmt) (n : Nat), Minting (copyStmts ss) n fun ss' m =>
      Fresh n m (stmtIds ss') ∧ (stmtsWellShaped ss → stmtsWellShaped ss')
  | [], n => by
    rw [copyStmts]
    refine .pure ?_
    simp only [stmtIds]
    exact ⟨.nil n, id⟩
  | s :: rest, n => by
    rw [copyStmts]
    refine .bind ((s.copy_fresh n).imp fun s' m hs => .bind
      ((copyStmts_fresh rest m).imp fun rest' k hr => .pure ?_))
    simp only [stmtIds, stmtsWellShaped]
    exact ⟨hs.1.append hr.1, fun h => ⟨hs.2 h.1, hr.2 h.2⟩⟩

theorem copyInits_fresh :
    ∀ (is : List Init) (n : Nat), Minting (copyInits is) n fun is' m =>
      Fresh n m (initIds is') ∧ (initsWellShaped is → initsWellShaped is')
  | [], n => by
    rw [copyInits]
    refine .pure ?_
    simp only [initIds]
    exact ⟨.nil n, id⟩
  | i :: rest, n => by
    rw [copyInits]
    refine .bind ((i.copy_fresh n).imp fun i' m hi => .bind
      ((copyInits_fresh rest m).imp fun rest' k hr => .pure ?_))
    simp only [initIds, initsWellShaped]
    exact ⟨hi.1.append hr.1, fun h => ⟨hi.2 h.1, hr.2 h.2⟩⟩

theorem copyArms_fresh :
    ∀ (as : List (Expr × Block)) (n : Nat), Minting (copyArms as) n fun as' m =>
      Fresh n m (armIds as') ∧ (armsWellShaped as → armsWellShaped as')
  | [], n => by
    rw [copyArms]
    refine .pure ?_
    simp only [armIds]
    exact ⟨.nil n, id⟩
  | (condition, block) :: rest, n => by
    rw [copyArms]
    refine .bind ((condition.copy_fresh n).imp fun condition' m hc => .bind
      ((block.copy_fresh m).imp fun block' k hb => .bind
        ((copyArms_fresh rest k).imp fun rest' l hr => .pure ?_)))
    simp only [armIds, armsWellShaped]
    exact ⟨(hc.1.append hb.1).append hr.1,
      fun h => ⟨hc.2.1 h.1, hb.2 h.2.1, hr.2 h.2.2⟩⟩

theorem copyValueArms_fresh :
    ∀ (as : List (List Expr × Block)) (n : Nat), Minting (copyValueArms as) n fun as' m =>
      Fresh n m (valueArmIds as') ∧ (valueArmsWellShaped as → valueArmsWellShaped as')
  | [], n => by
    rw [copyValueArms]
    refine .pure ?_
    simp only [valueArmIds]
    exact ⟨.nil n, id⟩
  | (values, block) :: rest, n => by
    rw [copyValueArms]
    refine .bind ((copyExprs_fresh values n).imp fun values' m hv => .bind
      ((block.copy_fresh m).imp fun block' k hb => .bind
        ((copyValueArms_fresh rest k).imp fun rest' l hr => .pure ?_)))
    simp only [valueArmIds, valueArmsWellShaped]
    exact ⟨(hv.1.append hb.1).append hr.1,
      fun h => ⟨hv.2.1 h.1, hb.2 h.2.1, hr.2 h.2.2⟩⟩

end

end Frontend
