import Frontend.Proofs.Analysis.Expr

/-!
# Values, declarations and targets

The parts of statements that bind names: values are matched with as many hints as there are targets,
declarations add their names to the innermost layer, and a target that is ignored is typed only
when the values are assigned.
-/

namespace Frontend

open Check

variable {p : Program} {stack : List Nat} {w : Demand} {s t : AnalysisState} {env : Env}
  {scope : ScopeId}

namespace Check

/-! ### Values -/

theorem takeApart_ensures (hi : Inv p s) (count : Nat) (type : Ty) (position : Position) :
    Ensures (Rejected p) (takeApart count type position) s fun types t =>
      t = s ∧ types.length = count := by
  unfold takeApart
  split
  · split
    · next hlen => exact .pure ⟨rfl, hlen⟩
    · exact .fail (hi.rejected _ (by rintro ⟨⟩))
  · exact .fail (hi.rejected _ (by rintro ⟨⟩))

theorem loopTypes_ensures (hi : Inv p s) (count : Nat) (elem : Ty) (position : Position) :
    Ensures (Rejected p) (loopTypes count elem position) s fun types t =>
      t = s ∧ types.length = count := by
  unfold loopTypes
  split
  · next hone => exact .pure ⟨rfl, hone.symm⟩
  · exact takeApart_ensures hi count elem position

theorem expectTypeIf_ensures (hi : Inv p s) (expected : Option Ty) (received : Ty)
    (position : Position) :
    Ensures (Rejected p) (expectTypeIf expected received position) s fun _ t => t = s := by
  cases expected with
  | none => exact .pure rfl
  | some expected => exact expectType_ensures hi fun _ => rfl

/-- There is a type for each declaration that is written with one. -/
theorem explicitTypes_ensures (hi : Inv p s) (decls : List VarDecl) :
    Ensures (Rejected p) (decls.mapM fun d => denoted? d.type) s fun types t =>
      t = s ∧ types.length = decls.length ∧
        ((∀ d ∈ decls, d.type.isSome) → ∀ type ∈ types, type.isSome) := by
  induction decls with
  | nil => exact .pure ⟨rfl, rfl, nofun⟩
  | cons d rest ih =>
    rw [List.mapM_cons]
    refine .bind ((denoted?_ensures (hi.rejected · ·)).imp fun type t _ h => ?_)
    obtain ⟨rfl, hsome⟩ := h
    refine .bind (ih.imp fun types t _ h => .pure ?_)
    obtain ⟨rfl, hlen, hknown⟩ := h
    refine ⟨rfl, congrArg Nat.succ hlen, fun htyped => ?_⟩
    rw [List.forall_mem_cons] at htyped ⊢
    exact ⟨hsome.trans htyped.1, hknown htyped.2⟩

/-- Declarations without values have the types of their annotations. -/
theorem declaredTypes_ensures (decls : List VarDecl) (types : List (Option Ty))
    (hlen : types.length = decls.length) (htyped : ∀ type ∈ types, type.isSome) :
    Ensures (Rejected p) (declaredTypes decls types) s fun types' t =>
      t = s ∧ types'.length = decls.length := by
  induction decls generalizing types with
  | nil => exact .pure ⟨rfl, rfl⟩
  | cons d rest ih =>
    cases types with
    | nil => cases hlen
    | cons type types =>
      rw [List.forall_mem_cons] at htyped
      cases type with
      | none => exact absurd htyped.1 nofun
      | some type =>
        refine .bind ((ih types (Nat.succ.inj hlen) htyped.2).imp fun types' t _ h => .pure ?_)
        exact ⟨h.1, congrArg Nat.succ h.2⟩

/-- There is a type for each hint. -/
theorem values_ensures {es : List Expr} (h : ∀ e ∈ es, e.Walks p stack w) (hints : List (Option Ty))
    (position : Position) (hr : Ready p stack s env scope (exprIds es)) :
    Ensures (Rejected p) (values w scope hints position es) s fun types t =>
      Walk p none (exprIds es) (exprsSites env es) (exprsTargets es) s t ∧
        types.length = hints.length := by
  cases es with
  | nil =>
    rw [values]
    split
    · next hempty =>
      refine .pure ⟨?_, (congrArg List.length (List.isEmpty_iff.mp hempty)).symm⟩
      simp only [exprIds, exprsSites, exprsTargets]
      exact .nil hr.inv
    · exact .fail (hr.inv.rejected _ (by rintro ⟨⟩))
  | cons e rest =>
    rw [List.forall_mem_cons] at h
    simp only [exprIds] at hr
    rw [values]
    split
    · next hlen =>
      refine .bind ((h.1 _ hr.left).imp fun type t _ he => ?_)
      obtain ⟨hwe, -⟩ := he
      refine .bind ((exprs_ensures h.2 hints.tail (hr.right hwe.step)).imp
        fun types u _ hrest => .pure ?_)
      obtain ⟨hwr, htypes⟩ := hrest
      simp only [exprIds, exprsSites, exprsTargets]
      refine ⟨hwe.append hr hwr, ?_⟩
      rw [List.length_cons, ← htypes.length_eq]
      exact hlen
    · split
      · next hempty =>
        have hnil : rest = [] := List.isEmpty_iff.mp hempty
        subst hnil
        simp only [exprIds, List.append_nil] at hr
        refine .bind ((h.1 _ hr).imp fun type t _ he => ?_)
        obtain ⟨hwe, -⟩ := he
        refine (takeApart_ensures hwe.step.inv hints.length type _).imp fun types u _ htake => ?_
        obtain ⟨rfl, hlen⟩ := htake
        simp only [exprIds, exprsSites, exprsTargets, List.append_nil]
        exact ⟨hwe, hlen⟩
      · exact .fail (hr.inv.rejected _ (by rintro ⟨⟩))

/-! ### Declarations -/

theorem introduced_cons (name : String) (node : Nat) (rest : List (String × Nat)) :
    introduced ((name, node) :: rest) = introduced [(name, node)] ++ introduced rest := by
  simp only [introduced, ← List.filter_append, List.singleton_append]

/-- The declaration of one variable in front of others. -/
private theorem declare_cons {info : NodeInfo} {name : String} {type : Ty} {isVar : Bool}
    {ids : List Nat} {sites : List Site} {names : List (String × Nat)} {act : Check Unit}
    (hr : Ready p stack s env scope (info.id :: ids)) (hblock : s.store.isBlock scope = true)
    (h : ∀ {t env'}, Ready p stack t env' scope ids → t.store.isBlock scope = true →
      Ensures (Rejected p) act t fun _ u =>
        Walk p (some scope) ids sites [] t u ∧ (env'.declare (introduced names)).Matches u scope) :
    Ensures (Rejected p) (declareVar scope info name type isVar >>= fun _ => act) s fun _ t =>
      Walk p (some scope) (info.id :: ids) (.declaration info name :: sites) [] s t ∧
        (env.declare (introduced ((name, info.id) :: names))).Matches t scope := by
  have hr' : Ready p stack s env scope ([info.id] ++ ids) := hr
  refine .bind ((declareVar_ensures hr'.left hblock name type isVar).imp fun _ t _ hfirst => ?_)
  obtain ⟨hwalk, hmatches⟩ := hfirst
  refine (h (hr'.next hwalk.step hmatches) (hwalk.step.grows.store.isBlock hblock)).imp
    fun _ u _ hrest => ?_
  rw [introduced_cons, Env.declare_append]
  exact ⟨hwalk.append hr' hrest.1, hrest.2⟩

/-- Variables that are declared with the types of their values are added to the layer. -/
theorem declareVars_ensures {decls : List VarDecl} {explicit : List (Option Ty)} {types : List Ty}
    (hr : Ready p stack s env scope (decls.map (·.info.id)))
    (hblock : s.store.isBlock scope = true) (hexplicit : explicit.length = decls.length)
    (htypes : types.length = decls.length) :
    Ensures (Rejected p) (declareVars scope decls explicit types) s fun _ t =>
      Walk p (some scope) (decls.map (·.info.id)) (decls.map fun d => .declaration d.info d.name)
        [] s t ∧
        (env.declare (introduced (decls.map fun d => (d.name, d.info.id)))).Matches t scope := by
  induction decls generalizing s env explicit types with
  | nil =>
    refine .pure ⟨.nil hr.inv, ?_⟩
    rw [List.map_nil, show introduced [] = [] from rfl, Env.declare_nil]
    exact hr.env
  | cons d rest ih =>
    cases explicit with
    | nil => cases hexplicit
    | cons expected explicit =>
      cases types with
      | nil => cases htypes
      | cons type types =>
        refine .bind ((expectTypeIf_ensures hr.inv expected type _).imp fun _ t _ heq => ?_)
        subst heq
        exact declare_cons hr hblock fun hr' hblock' =>
          ih hr' hblock' (Nat.succ.inj hexplicit) (Nat.succ.inj htypes)

/-- The variables of a loop are added to the layer. -/
theorem declareLoopVars_ensures {vars : List Param} {types : List Ty}
    (hr : Ready p stack s env scope (vars.map (·.info.id)))
    (hblock : s.store.isBlock scope = true) (htypes : types.length = vars.length) :
    Ensures (Rejected p) (declareLoopVars scope vars types) s fun _ t =>
      Walk p (some scope) (vars.map (·.info.id)) (paramSites vars) [] s t ∧
        (env.declare (loopNames vars)).Matches t scope := by
  induction vars generalizing s env types with
  | nil =>
    refine .pure ⟨.nil hr.inv, ?_⟩
    rw [show loopNames [] = [] from rfl, Env.declare_nil]
    exact hr.env
  | cons q rest ih =>
    cases types with
    | nil => cases htypes
    | cons type types =>
      refine .bind ((denoted?_ensures (hr.inv.rejected · ·)).imp fun expected t _ h => ?_)
      obtain ⟨rfl, -⟩ := h
      refine .bind ((expectTypeIf_ensures hr.inv expected type _).imp fun _ u _ heq => ?_)
      subst heq
      exact declare_cons hr hblock fun hr' hblock' => ih hr' hblock' (Nat.succ.inj htypes)

/-! ### Targets -/

/-- A target before the values are assigned: its sites are resolved or, if it is ignored, nothing
is known of it. -/
inductive Aimed (env : Env) (s : AnalysisState) : Expr → Option Ty → Prop
  | typed {e : Expr} {type : Ty} (h : Found e.ids (e.sites env) e.targets s) :
    Aimed env s e (some type)
  | ignored {info : NodeInfo} (hfind : env.find? "_" = none) (hempty : s.slots info.id = .empty) :
    Aimed env s (.varRef info "_" true) none

/-- A target stays as it is while other nodes are written to. -/
theorem Aimed.stays {e : Expr} {hint : Option Ty} {cur : Option ScopeId} {ids : List Nat}
    (h : Aimed env s e hint) (hi : Inv p s) (hs : Step p cur ids s t)
    (howned : ∀ node ∈ e.ids, Owned p s node) (hdisjoint : ∀ node ∈ e.ids, node ∉ ids) :
    Aimed env t e hint := by
  cases h with
  | typed h => exact .typed (h.stays hi hs howned hdisjoint)
  | @ignored info hfind hempty =>
    have hm := (Expr.varRef info "_" true).id_mem_ids
    have hslots : t.slots info.id = s.slots info.id :=
      hs.slots_eq hi (howned _ hm) (hdisjoint _ hm)
    exact .ignored hfind (hslots.trans hempty)

theorem Aimed.stays_all {es : List Expr} {hints : List (Option Ty)} {cur : Option ScopeId}
    {ids : List Nat} (h : List.Forall₂ (Aimed env s) es hints) (hi : Inv p s)
    (hs : Step p cur ids s t) (howned : ∀ node ∈ exprIds es, Owned p s node)
    (hdisjoint : ∀ node ∈ exprIds es, node ∉ ids) : List.Forall₂ (Aimed env t) es hints := by
  induction h with
  | nil => exact .nil
  | cons he _ ih =>
    simp only [exprIds, List.mem_append] at howned hdisjoint
    exact .cons
      (he.stays hi hs (fun n hn => howned n (.inl hn)) fun n hn => hdisjoint n (.inl hn))
      (ih (fun n hn => howned n (.inr hn)) fun n hn => hdisjoint n (.inr hn))

/-- A target that is ignored is an underscore that no variable is named after. -/
theorem isIgnored_eq_true {e : Expr} (h : isIgnored s.store scope e = true)
    (ht : e.asTarget = e) :
    ∃ info, e = .varRef info "_" true ∧ s.store.lookupVar scope "_" = none := by
  cases e with
  | varRef info name assigned =>
    simp only [isIgnored, Bool.and_eq_true, beq_iff_eq, Option.isNone_iff_eq_none] at h
    obtain ⟨rfl, hnone⟩ := h
    cases ht
    exact ⟨info, rfl, hnone⟩
  | _ => cases h

theorem targets_ensures {es : List Expr} (h : ∀ e ∈ es, e.Walks p stack w)
    (ht : ∀ e ∈ es, e.asTarget = e) (hr : Ready p stack s env scope (exprIds es)) :
    Ensures (Rejected p) (targets w scope es) s fun hints t =>
      Step p none (exprIds es) s t ∧ List.Forall₂ (Aimed env t) es hints := by
  induction es generalizing s with
  | nil =>
    rw [targets]
    refine .pure ⟨?_, .nil⟩
    simp only [exprIds]
    exact .refl hr.inv
  | cons e rest ih =>
    rw [List.forall_mem_cons] at h ht
    simp only [exprIds] at hr
    -- What is left of either case: the target is aimed at, and the others follow.
    have hfinish : ∀ {t : AnalysisState} {type : Option Ty},
        Step p none e.ids s t → Aimed env t e type →
        Ensures (Rejected p) (do return type :: (← targets w scope rest)) t fun hints u =>
          Step p none (exprIds (e :: rest)) s u ∧ List.Forall₂ (Aimed env u) (e :: rest) hints := by
      intro t type hs ha
      refine .bind ((ih h.2 ht.2 (hr.right hs)).imp fun hints u _ hrest => .pure ?_)
      obtain ⟨hsu, hall⟩ := hrest
      simp only [exprIds]
      refine ⟨hs.trans hsu,
        .cons (ha.stays hs.inv hsu (fun node hm => ?_) fun _ => hr.not_mem) hall⟩
      exact hs.owns (hr.writable.owned node (List.mem_append_left _ hm))
    rw [targets]
    refine .bind (.store ?_)
    dsimp only
    split
    · next hignored =>
      obtain ⟨info, rfl, hnone⟩ := isIgnored_eq_true hignored ht.1
      obtain ⟨hfind, -⟩ | ⟨owner, node, handle, -, hlook, -⟩ := hr.env.lookupVar "_"
      · have hm := List.mem_append_left (exprIds rest) (Expr.varRef info "_" true).id_mem_ids
        exact .bind (.pure (hfinish ((Step.refl hr.inv).mono (List.nil_subset _))
          (.ignored hfind (hr.writable.empty _ hm))))
      · rw [hnone] at hlook
        cases hlook
    · refine .bind (.map ((h.1 none hr.left).imp fun type t _ he => ?_))
      exact hfinish he.1.step (.typed he.1.found)

/-- A target that passes the check may be assigned to: it is an indexed value or a member, or a name
that is linked to a variable, and that is assignable. -/
theorem checkAssignable_ensures (hi : Inv p s) (target : Expr) :
    Ensures (Rejected p) (checkAssignable target) s fun _ t => t = s ∧ s.Assignable target := by
  unfold checkAssignable
  split
  · exact .pure ⟨rfl, .index _ _ _⟩
  · exact .pure ⟨rfl, .member _ _ _⟩
  · refine .bind (.get ?_)
    dsimp only
    split
    · next handle hlink =>
      split
      · next hany =>
        cases hv : s.store.var? handle with
        | none =>
          rw [hv] at hany
          cases hany
        | some v =>
          rw [hv] at hany
          exact .pure ⟨rfl, hi.fixed.assignable hlink hv hany⟩
      · exact .fail (hi.rejected _ (by rintro ⟨⟩))
    · simp only [Option.any_none, Bool.false_eq_true, if_false]
      exact .fail (hi.rejected _ (by rintro ⟨⟩))
  · exact .fail (hi.rejected _ (by rintro ⟨⟩))

/-- A target is assigned to, which types it if it is ignored. -/
theorem assignTarget_ensures (hi : Inv p s) {target : Expr} {expected : Option Ty}
    (ha : Aimed env s target expected) (howned : ∀ node ∈ target.ids, Owned p s node) (type : Ty) :
    Ensures (Rejected p) (assignTarget target expected type) s fun _ t =>
      Walk p none target.ids (target.sites env) (target :: target.targets) s t := by
  cases ha with
  | typed h =>
    refine .bind (expectType_ensures hi fun _ => ?_)
    refine (checkAssignable_ensures hi target).imp fun _ t _ hcheck => ?_
    obtain ⟨rfl, hassignable⟩ := hcheck
    exact ⟨(Step.refl hi).mono (List.nil_subset _), h.resolved,
      List.forall_mem_cons.mpr ⟨⟨target.id_mem_ids, hassignable⟩, h.assigned⟩⟩
  | @ignored info hfind hempty =>
    have hm := (Expr.varRef info "_" true).id_mem_ids
    refine (setType_ensures hi (howned _ hm) (congrArg Slots.type hempty) (.of_empty hempty)
      type).imp fun _ t _ h => ?_
    obtain ⟨hs, htype, hlinks⟩ := h
    have hnolink : t.links[info.id]? = none := by
      rw [hlinks]
      exact congrArg Slots.link hempty
    refine ⟨hs.mono (List.cons_subset.mpr ⟨hm, List.nil_subset _⟩), fun site hsite => ?_, ?_⟩
    · simp only [Expr.sites, Expr.parts_varRef, List.mem_cons, List.not_mem_nil, or_false] at hsite
      rcases hsite with rfl | rfl
      · exact ⟨hm, type, htype, .ignored hnolink nofun⟩
      · exact ⟨hm, .ignored hfind rfl hnolink⟩
    · rw [Expr.targets_varRef, List.forall_mem_singleton]
      exact ⟨hm, .ignored hnolink⟩

theorem assignTargets_ensures (hi : Inv p s) {es : List Expr} {hints : List (Option Ty)}
    (ha : List.Forall₂ (Aimed env s) es hints) (hnodup : (exprIds es).Nodup)
    (howned : ∀ node ∈ exprIds es, Owned p s node) {types : List Ty}
    (hlen : types.length = hints.length) :
    Ensures (Rejected p) (assignTargets es hints types) s fun _ t =>
      Walk p none (exprIds es) (exprsSites env es) (es ++ exprsTargets es) s t := by
  induction es generalizing s hints types with
  | nil =>
    refine .pure ?_
    simp only [exprIds, exprsSites, exprsTargets, List.append_nil]
    exact .nil hi
  | cons e rest ih =>
    cases ha with
    | @cons _ hint _ hints he hrest =>
      cases types with
      | nil => cases hlen
      | cons type types =>
        simp only [exprIds, List.nodup_append, List.mem_append] at hnodup howned
        have howned' : ∀ node ∈ e.ids, Owned p s node := fun node hm => howned node (.inl hm)
        have hdisjoint : ∀ node ∈ e.ids, node ∉ exprIds rest := fun node hm hm' =>
          hnodup.2.2 node hm node hm' rfl
        refine .bind ((assignTarget_ensures hi he howned' type).imp fun _ t _ hwe => ?_)
        have hstays := Aimed.stays_all hrest hi hwe.step (fun node hm => howned node (.inr hm))
          fun node hm hm' => hdisjoint node hm' hm
        refine (ih hwe.step.inv hstays hnodup.2.1
          (fun node hm => hwe.step.owns (howned node (.inr hm))) (Nat.succ.inj hlen)).imp
            fun _ u _ hwr => ?_
        simp only [exprIds, exprsSites, exprsTargets]
        refine (hwe.join howned' hdisjoint hwr (.inl rfl)).mono (fun _ hm => hm) (fun _ hm => hm) ?_
        intro target hm
        simp only [List.mem_append, List.mem_cons] at hm ⊢
        tauto

end Check

end Frontend
