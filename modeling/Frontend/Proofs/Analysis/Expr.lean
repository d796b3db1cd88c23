import Frontend.Proofs.Calls.Demand

/-!
# Walks over expressions

One lemma for each form of expression: if walks over its parts do what they should, so does the
walk over the whole. A walk over an expression gives it the type that the run answers and resolves
all its sites.
-/

namespace Frontend

open Check

/-- A run over an expression resolves its sites and answers its type. -/
def Expr.Walks (p : Program) (stack : List Nat) (w : Demand) (e : Expr) : Prop :=
  ∀ ⦃s : AnalysisState⦄ ⦃env : Env⦄ ⦃scope : ScopeId⦄ (hint : Option Ty),
    Ready p stack s env scope e.ids → Ensures (Rejected p) (expr w scope hint e) s fun type t =>
      Walk p none e.ids (e.sites env) e.targets s t ∧ t.types[e.id]? = some type

theorem Expr.id_mem_ids (e : Expr) : e.id ∈ e.ids := by
  cases e <;> simp [id, info, ids]

/-- What the run over the inside of an expression leaves behind, before the expression gets its
type. -/
structure Acted (p : Program) (env : Env) (e : Expr) (s : AnalysisState) (type : Ty)
    (t : AnalysisState) : Prop where
  walk : Walk p none e.ids (e.parts env) e.targets s t
  untyped : t.types[e.id]? = none
  understood : t.Understood e.id
  rule : Typing t e type

variable {p : Program} {stack : List Nat} {w : Demand} {s t : AnalysisState} {env : Env}
  {scope : ScopeId}

theorem Ready.tail {e : Expr} {ids : List Nat} (hr : Ready p stack s env scope e.ids)
    (hids : e.ids = e.id :: ids) : Ready p stack s env scope ids := by
  rw [hids] at hr
  exact hr.sublist (List.sublist_cons_self e.id ids)

/-- A walk over the parts of an expression leaves the expression itself alone. -/
theorem Ready.head_empty {e : Expr} {ids : List Nat} (hr : Ready p stack s env scope e.ids)
    (hids : e.ids = e.id :: ids) (hs : Step p none ids s t) : t.slots e.id = .empty := by
  have hnodup := hr.writable.nodup
  rw [hids] at hnodup
  rw [hs.slots_eq hr.inv (hr.writable.owned e.id e.id_mem_ids) (List.nodup_cons.mp hnodup).1]
  exact hr.writable.empty e.id e.id_mem_ids

theorem Acted.of_walk {e : Expr} {ids : List Nat} {type : Ty} (hr : Ready p stack s env scope e.ids)
    (hids : e.ids = e.id :: ids) (hw : Walk p none ids (e.parts env) e.targets s t)
    (rule : Typing t e type) : Acted p env e s type t where
  walk := by
    rw [hids]
    exact hw.mono (List.subset_cons_self e.id ids) (fun _ hm => hm) fun _ hm => hm
  untyped := congrArg Slots.type (hr.head_empty hids hw.step)
  understood := .of_empty (hr.head_empty hids hw.step)
  rule := rule

/-- An expression gets the type that the run over its inside answers. -/
theorem typing_ensures (hw : w.Sound p stack) {e : Expr} (hr : Ready p stack s env scope e.ids)
    {act : Check Ty} (h : Ensures (Rejected p) act s fun type t => Acted p env e s type t) :
    Ensures (Rejected p) (typing w e.id act) s fun type t =>
      Walk p none e.ids (e.sites env) e.targets s t ∧ t.types[e.id]? = some type := by
  have henter : Orderly p stack (.enter e.id) s := hr.nested.orderly hr.inv nofun nofun nofun
  refine .bind ((hw.visit (.enter e.id) hr.inv henter).imp fun _ t _ heq => ?_)
  subst heq
  refine .bind (.bind (h.imp fun type u _ ha => ?_))
  have ho := ha.walk.step.owns (hr.writable.owned e.id e.id_mem_ids)
  refine .bind ((setType_ensures ha.walk.step.inv ho ha.untyped ha.understood type).imp fun _ v _ h => .pure ?_)
  obtain ⟨hs, htype, hlinks⟩ := h
  have hleave : Orderly p stack (.leave e.id) v :=
    ((hr.nested.step ha.walk.step).step hs).orderly hs.inv nofun nofun nofun
  refine .bind ((hw.visit (.leave e.id) hs.inv hleave).imp fun _ x _ heq => .pure ?_)
  subst heq
  have hlater := hs.later ha.walk.step.inv
  have hsame : ∀ node : Nat, x.links[node]? = u.links[node]? := fun node => by rw [hlinks]
  refine ⟨⟨(ha.walk.step.trans hs).mono ?_, fun site hm => ?_, fun target hm => ?_⟩, htype⟩
  · exact List.append_subset.mpr
      ⟨fun _ h => h, List.cons_subset.mpr ⟨e.id_mem_ids, List.nil_subset _⟩⟩
  · rcases List.mem_cons.mp hm with rfl | hm
    · exact ⟨e.id_mem_ids, type, htype, hlater.typing (hsame e.id) ha.rule⟩
    · obtain ⟨hid, hres⟩ := ha.walk.found.resolved site hm
      exact ⟨hid, hlater.resolved (hsame site.id) hres⟩
  · obtain ⟨hid, hassignable⟩ := ha.walk.found.assigned target hm
    exact ⟨hid, hassignable.grows hs.grows (hsame target.id)⟩

/-! ### Lists of expressions -/

theorem exprs_ensures {es : List Expr} (h : ∀ e ∈ es, e.Walks p stack w) (hints : List (Option Ty))
    (hr : Ready p stack s env scope (exprIds es)) :
    Ensures (Rejected p) (exprs w scope hints es) s fun types t =>
      Walk p none (exprIds es) (exprsSites env es) (exprsTargets es) s t ∧ t.HaveTypes es types := by
  induction es generalizing s hints with
  | nil =>
    rw [exprs]
    refine .pure ⟨?_, .nil⟩
    simp only [exprIds, exprsSites, exprsTargets]
    exact .nil hr.inv
  | cons e rest ih =>
    rw [List.forall_mem_cons] at h
    simp only [exprIds] at hr
    rw [exprs]
    refine .bind ((h.1 _ hr.left).imp fun type t _ he => ?_)
    obtain ⟨hwe, hte⟩ := he
    refine .bind ((ih h.2 hints.tail (hr.right hwe.step)).imp fun types u _ hrest => .pure ?_)
    obtain ⟨hwr, htr⟩ := hrest
    simp only [exprIds, exprsSites, exprsTargets]
    exact ⟨hwe.append hr hwr, .cons (hwr.step.grows.type hte) htr⟩

theorem sameType_ensures {es : List Expr} (h : ∀ e ∈ es, e.Walks p stack w) (type : Ty)
    (hr : Ready p stack s env scope (exprIds es)) :
    Ensures (Rejected p) (sameType w scope type es) s fun _ t =>
      Walk p none (exprIds es) (exprsSites env es) (exprsTargets es) s t ∧
        ∀ e ∈ es, t.types[e.id]? = some type := by
  induction es generalizing s with
  | nil =>
    rw [sameType]
    refine .pure ⟨?_, nofun⟩
    simp only [exprIds, exprsSites, exprsTargets]
    exact .nil hr.inv
  | cons e rest ih =>
    rw [List.forall_mem_cons] at h
    simp only [exprIds] at hr
    rw [sameType]
    refine .bind ((h.1 _ hr.left).imp fun actual t _ he => ?_)
    obtain ⟨hwe, hte⟩ := he
    refine .bind (expectType_ensures hwe.step.inv fun heq => ?_)
    subst heq
    refine (ih h.2 (hr.right hwe.step)).imp fun _ u _ hrest => ?_
    obtain ⟨hwr, htr⟩ := hrest
    simp only [exprIds, exprsSites, exprsTargets]
    exact ⟨hwe.append hr hwr, List.forall_mem_cons.mpr ⟨hwr.step.grows.type hte, htr⟩⟩

theorem sameEntries_ensures {es : List (Expr × Expr)}
    (h : ∀ e ∈ es, e.1.Walks p stack w ∧ e.2.Walks p stack w) (key value : Ty)
    (hr : Ready p stack s env scope (entryIds es)) :
    Ensures (Rejected p) (sameEntries w scope key value es) s fun _ t =>
      Walk p none (entryIds es) (entriesSites env es) (entriesTargets es) s t ∧
        ∀ e ∈ es, t.types[e.1.id]? = some key ∧ t.types[e.2.id]? = some value := by
  induction es generalizing s with
  | nil =>
    rw [sameEntries]
    refine .pure ⟨?_, nofun⟩
    simp only [entryIds, entriesSites, entriesTargets]
    exact .nil hr.inv
  | cons e rest ih =>
    obtain ⟨k, v⟩ := e
    rw [List.forall_mem_cons] at h
    simp only [entryIds, List.append_assoc] at hr
    rw [sameEntries]
    refine .bind ((h.1.1 _ hr.left).imp fun actual t _ hk => ?_)
    obtain ⟨hwk, htk⟩ := hk
    have hrk := hr.right hwk.step
    refine .bind (expectType_ensures hwk.step.inv fun heq => ?_)
    subst heq
    refine .bind ((h.1.2 _ hrk.left).imp fun actual' u _ hv => ?_)
    obtain ⟨hwv, htv⟩ := hv
    refine .bind (expectType_ensures hwv.step.inv fun heq => ?_)
    subst heq
    refine (ih h.2 (hrk.right hwv.step)).imp fun _ x _ hrest => ?_
    obtain ⟨hwr, htr⟩ := hrest
    have hg := hwr.step.grows
    simp only [entryIds, entriesSites, entriesTargets, List.append_assoc]
    refine ⟨hwk.append hr (hwv.append hrk hwr), List.forall_mem_cons.mpr ⟨?_, htr⟩⟩
    exact ⟨hg.type (hwv.step.grows.type htk), hg.type htv⟩

/-! ### Forms of expressions -/

theorem literal_walks (hw : w.Sound p stack) (info : NodeInfo) (value : Literal) :
    (Expr.literal info value).Walks p stack w := by
  intro s env scope hint hr
  have hids : (Expr.literal info value).ids = info.id :: [] := by simp only [Expr.ids]
  rw [expr_literal]
  refine typing_ensures hw hr (.pure (.of_walk hr hids ?_ (.literal info value)))
  rw [Expr.parts, Expr.targets]
  exact .nil hr.inv

theorem array_walks (hw : w.Sound p stack) (info : NodeInfo) {elems : List Expr}
    (h : ∀ e ∈ elems, e.Walks p stack w) : (Expr.array info elems).Walks p stack w := by
  intro s env scope hint hready
  have hids : (Expr.array info elems).ids = info.id :: exprIds elems := by simp only [Expr.ids]
  have hparts := hready.tail hids
  rw [expr.eq_def]
  refine typing_ensures hw hready ?_
  cases elems with
  | nil =>
    dsimp only
    split
    · next elem _ =>
      refine .pure (.of_walk hready hids ?_ (.array info nofun))
      simp only [Expr.parts, Expr.targets, exprIds, exprsSites, exprsTargets]
      exact .nil hready.inv
    · exact .fail (hready.inv.rejected _ (by rintro ⟨⟩))
  | cons first rest =>
    rw [List.forall_mem_cons] at h
    simp only [exprIds] at hparts
    refine .bind ((h.1 _ hparts.left).imp fun elem t _ hf => ?_)
    obtain ⟨hwf, htf⟩ := hf
    refine .bind ((sameType_ensures h.2 elem (hparts.right hwf.step)).imp fun _ u _ hs => ?_)
    obtain ⟨hws, hts⟩ := hs
    refine .pure (.of_walk hready hids ?_ (.array info ?_))
    · simp only [Expr.parts, Expr.targets, exprIds, exprsSites, exprsTargets]
      exact hwf.append hparts hws
    · exact List.forall_mem_cons.mpr ⟨hws.step.grows.type htf, hts⟩

theorem tuple_walks (hw : w.Sound p stack) (info : NodeInfo) {elems : List Expr}
    (h : ∀ e ∈ elems, e.Walks p stack w) : (Expr.tuple info elems).Walks p stack w := by
  intro s env scope hint hready
  have hids : (Expr.tuple info elems).ids = info.id :: exprIds elems := by simp only [Expr.ids]
  rw [expr.eq_def]
  refine typing_ensures hw hready ?_
  refine .bind ((exprs_ensures h _ (hready.tail hids)).imp fun types t _ hes => ?_)
  obtain ⟨hwe, hte⟩ := hes
  refine .pure (.of_walk hready hids ?_ (.tuple info hte))
  rw [Expr.parts, Expr.targets]
  exact hwe

theorem dict_walks (hw : w.Sound p stack) (info : NodeInfo) {entries : List (Expr × Expr)}
    (h : ∀ e ∈ entries, e.1.Walks p stack w ∧ e.2.Walks p stack w) :
    (Expr.dict info entries).Walks p stack w := by
  intro s env scope hint hready
  have hids : (Expr.dict info entries).ids = info.id :: entryIds entries := by simp only [Expr.ids]
  have hparts := hready.tail hids
  rw [expr.eq_def]
  refine typing_ensures hw hready ?_
  cases entries with
  | nil =>
    dsimp only
    split
    · refine .pure (.of_walk hready hids ?_ (.dict info nofun))
      simp only [Expr.parts, Expr.targets, entryIds, entriesSites, entriesTargets]
      exact .nil hready.inv
    · exact .fail (hready.inv.rejected _ (by rintro ⟨⟩))
  | cons first rest =>
    obtain ⟨k, v⟩ := first
    rw [List.forall_mem_cons] at h
    simp only [entryIds, List.append_assoc] at hparts
    refine .bind ((h.1.1 _ hparts.left).imp fun key t _ hk => ?_)
    obtain ⟨hwk, htk⟩ := hk
    have hrk := hparts.right hwk.step
    refine .bind ((h.1.2 _ hrk.left).imp fun value u _ hv => ?_)
    obtain ⟨hwv, htv⟩ := hv
    refine .bind ((sameEntries_ensures h.2 key value (hrk.right hwv.step)).imp fun _ x _ hs => ?_)
    obtain ⟨hws, hts⟩ := hs
    have hg := hws.step.grows
    refine .pure (.of_walk hready hids ?_ (.dict info ?_))
    · simp only [Expr.parts, Expr.targets, entryIds, entriesSites, entriesTargets, List.append_assoc]
      exact hwk.append hparts (hwv.append hrk hws)
    · exact List.forall_mem_cons.mpr
        ⟨⟨hg.type (hwv.step.grows.type htk), hg.type htv⟩, hts⟩

theorem varRef_walks (hw : w.Sound p stack) (info : NodeInfo) (name : String) (assigned : Bool) :
    (Expr.varRef info name assigned).Walks p stack w := by
  intro s env scope hint hready
  have hids : (Expr.varRef info name assigned).ids = [info.id] := by simp only [Expr.ids]
  rw [expr.eq_def]
  refine typing_ensures hw hready ?_
  rw [hids] at hready
  refine (nameType_ensures hw hready name assigned).imp fun type t _ h => ?_
  obtain ⟨hs, hnone, href, hrule⟩ := h
  refine ⟨⟨by rw [hids]; exact hs, fun site hm => ?_, ?_⟩, hnone, hrule.understood, hrule⟩
  · rw [Expr.parts_varRef, List.mem_singleton] at hm
    rw [hm, hids]
    exact ⟨List.mem_cons_self, href⟩
  · rw [Expr.targets_varRef]
    exact List.forall_mem_nil _

theorem binary_walks (hw : w.Sound p stack) (info : NodeInfo) (op : BinaryOp) {lhs rhs : Expr}
    (hl : lhs.Walks p stack w) (hr : rhs.Walks p stack w) :
    (Expr.binary info op lhs rhs).Walks p stack w := by
  intro s env scope hint hready
  have hids : (Expr.binary info op lhs rhs).ids = info.id :: (lhs.ids ++ rhs.ids) := by
    simp only [Expr.ids]
  have hparts := hready.tail hids
  rw [expr.eq_def]
  refine typing_ensures hw hready ?_
  refine .bind ((hl none hparts.left).imp fun left t _ h => ?_)
  obtain ⟨hwl, htl⟩ := h
  refine .bind ((hr (some left) (hparts.right hwl.step)).imp fun right u _ h => ?_)
  obtain ⟨hwr, htr⟩ := h
  refine .bind (expectType_ensures hwr.step.inv fun heq => ?_)
  subst heq
  have hwalk := hwl.append hparts hwr
  split
  · next type htype =>
    refine .pure (.of_walk hready hids ?_ ?_)
    · simp only [Expr.parts, Expr.targets]
      exact hwalk
    · exact .binary info (hwr.step.grows.type htl) htr (BinaryOp.result?_eq_some_iff.mp htype)
  · exact .fail (hwalk.step.inv.rejected _ (by rintro ⟨⟩))


theorem member_walks (hw : w.Sound p stack) (info : NodeInfo) {receiver : Expr} (name : String)
    (h : receiver.Walks p stack w) : (Expr.member info receiver name).Walks p stack w := by
  intro s env scope hint hready
  have hids : (Expr.member info receiver name).ids = info.id :: receiver.ids := by
    simp only [Expr.ids]
  rw [expr.eq_def]
  refine typing_ensures hw hready ?_
  refine .bind ((h none (hready.tail hids)).imp fun on t _ hr => ?_)
  obtain ⟨hwr, htr⟩ := hr
  have hempty := hready.head_empty hids hwr.step
  have ho := hwr.step.owns
    (hready.writable.owned info.id (Expr.member info receiver name).id_mem_ids)
  split
  · next type hm =>
    refine .pure (.of_walk hready hids ?_ (.builtinMember (congrArg Slots.link hempty) htr hm))
    simp only [Expr.parts, Expr.targets]
    exact hwr
  · next hm =>
    refine .bind ((callFunction_ensures hw hwr.step.inv (hready.nested.step hwr.step) name
      [on] _).imp fun r u _ hc => ?_)
    obtain ⟨hs, hchosen, hgives⟩ := hc
    have hslots := (hs.slots_eq hwr.step.inv ho List.not_mem_nil).trans hempty
    refine .bind ((link_ensures hs.inv (hs.owns ho) (congrArg Slots.link hslots)
      (congrArg Slots.type hslots) _).imp fun _ v _ hl => .pure ?_)
    obtain ⟨hsl, hlink, htypes⟩ := hl
    have hall : Step p none [info.id] t v := hs.trans hsl
    have hnodup := hready.writable.nodup
    rw [hids] at hnodup
    have hlater := hsl.later hs.inv
    refine ⟨?_, ?_, .of_gives hlink (hlater.gives hgives), ?_⟩
    · simp only [Expr.parts, Expr.targets]
      rw [hids]
      have hfound := hwr.stays hall (hready.tail hids).writable.owned fun node hm hm' =>
        (List.nodup_cons.mp hnodup).1 (List.mem_singleton.mp hm' ▸ hm)
      refine ⟨(hwr.step.trans hall).mono fun node hm => ?_,
        hfound.mono (List.subset_cons_self _ _) (fun _ hm => hm) fun _ hm => hm⟩
      simp only [List.mem_append, List.mem_cons] at hm ⊢
      tauto
    · rw [htypes]
      exact congrArg Slots.type hslots
    · exact .memberCall hlink (hall.grows.type htr) hm (hlater.chosen hchosen)
        (hlater.gives hgives)

/-- The type of an index expression follows the rule. -/
theorem indexType_ensures (hi : Inv p s) (receiver index : Expr) (on key : Ty) :
    Ensures (Rejected p) (indexType receiver index on key) s fun type t =>
      t = s ∧ index.Indexes on key type := by
  unfold indexType
  split
  · split
    · next hk => exact .pure ⟨rfl, .array hk⟩
    · exact .fail (hi.rejected _ (by rintro ⟨⟩))
  · split
    · next hk => exact .pure ⟨rfl, .string hk⟩
    · exact .fail (hi.rejected _ (by rintro ⟨⟩))
  · next k v =>
    refine .bind (expectType_ensures hi fun heq => .pure ⟨rfl, ?_⟩)
    subst heq
    exact .dict k v
  · next elems =>
    split
    · next elem he =>
      obtain ⟨position, hp, hel⟩ := Option.bind_eq_some_iff.mp he
      exact .pure ⟨rfl, .tuple key hp hel⟩
    · exact .fail (hi.rejected _ (by rintro ⟨⟩))
  · exact .fail (hi.rejected _ (by rintro ⟨⟩))

theorem index_walks (hw : w.Sound p stack) (info : NodeInfo) {receiver index : Expr}
    (hr : receiver.Walks p stack w) (hi : index.Walks p stack w) :
    (Expr.index info receiver index).Walks p stack w := by
  intro s env scope hint hready
  have hids : (Expr.index info receiver index).ids = info.id :: (receiver.ids ++ index.ids) := by
    simp only [Expr.ids]
  have hparts := hready.tail hids
  rw [expr.eq_def]
  refine typing_ensures hw hready ?_
  refine .bind ((hr none hparts.left).imp fun on t _ h => ?_)
  obtain ⟨hwr, htr⟩ := h
  refine .bind ((hi (indexHint on) (hparts.right hwr.step)).imp fun key u _ h => ?_)
  obtain ⟨hwi, hti⟩ := h
  refine (indexType_ensures hwi.step.inv receiver index on key).imp fun type v _ h => ?_
  obtain ⟨rfl, hrule⟩ := h
  refine .of_walk hready hids ?_ (.index info (hwi.step.grows.type htr) hti hrule)
  simp only [Expr.parts, Expr.targets]
  exact hwr.append hparts hwi

theorem unary_walks (hw : w.Sound p stack) (info : NodeInfo) (op : UnaryOp) {operand : Expr}
    (h : operand.Walks p stack w) : (Expr.unary info op operand).Walks p stack w := by
  intro s env scope hint hready
  have hids : (Expr.unary info op operand).ids = info.id :: operand.ids := by simp only [Expr.ids]
  rw [expr.eq_def]
  refine typing_ensures hw hready ?_
  refine .bind ((h hint (hready.tail hids)).imp fun on t _ ho => ?_)
  obtain ⟨hwo, hto⟩ := ho
  split
  · next type htype =>
    refine .pure (.of_walk hready hids ?_ (.unary info hto (UnaryOp.result_eq_ok_iff.mp htype)))
    simp only [Expr.parts, Expr.targets]
    exact hwo
  · exact .fail (hwo.step.inv.rejected _ (by rintro ⟨⟩))

theorem cast_walks (hw : w.Sound p stack) (info : NodeInfo) {value : Expr} (written : TypeExpr)
    (h : value.Walks p stack w) : (Expr.cast info value written).Walks p stack w := by
  intro s env scope hint hready
  have hids : (Expr.cast info value written).ids =
      info.id :: (value.ids ++ written.ids) := by simp only [Expr.ids]
  have hparts := hready.tail hids
  rw [expr.eq_def]
  refine typing_ensures hw hready ?_
  refine .bind ((h none hparts.left).imp fun actual t _ hv => ?_)
  obtain ⟨hwv, htv⟩ := hv
  refine (denoted_ensures hwv.step.inv written).imp fun type u _ hd => ?_
  obtain ⟨rfl, hresolve⟩ := hd
  refine .of_walk hready hids ?_ (.cast info htv hresolve)
  simp only [Expr.parts, Expr.targets]
  exact hwv.mono (List.subset_append_left _ _) (fun _ h => h) fun _ h => h

theorem typed_walks (hw : w.Sound p stack) (info : NodeInfo) {value : Expr} (written : TypeExpr)
    (h : value.Walks p stack w) : (Expr.typed info value written).Walks p stack w := by
  intro s env scope hint hready
  have hids : (Expr.typed info value written).ids =
      info.id :: (value.ids ++ written.ids) := by simp only [Expr.ids]
  have hparts := hready.tail hids
  rw [expr.eq_def]
  refine typing_ensures hw hready ?_
  refine .bind ((denoted_ensures hready.inv written).imp fun type t _ hd => ?_)
  obtain ⟨rfl, hresolve⟩ := hd
  refine .bind ((h (some type) hparts.left).imp fun actual t _ hv => ?_)
  obtain ⟨hwv, htv⟩ := hv
  refine .bind (expectType_ensures hwv.step.inv fun heq => .pure ?_)
  subst heq
  refine .of_walk hready hids ?_ (.typed info htv hresolve)
  simp only [Expr.parts, Expr.targets]
  exact hwv.mono (List.subset_append_left _ _) (fun _ h => h) fun _ h => h

theorem ifElse_walks (hw : w.Sound p stack) (info : NodeInfo) (kind : IfKind)
    {condition thenValue elseValue : Expr} (hc : condition.Walks p stack w)
    (ht : thenValue.Walks p stack w) (he : elseValue.Walks p stack w) :
    (Expr.ifElse info kind condition thenValue elseValue).Walks p stack w := by
  intro s env scope hint hready
  have hids : (Expr.ifElse info kind condition thenValue elseValue).ids =
      info.id :: (condition.ids ++ (thenValue.ids ++ elseValue.ids)) := by
    simp only [Expr.ids, List.append_assoc]
  have hparts := hready.tail hids
  rw [expr.eq_def]
  refine typing_ensures hw hready ?_
  refine .bind ((hc (some .bool) hparts.left).imp fun type t _ h => ?_)
  obtain ⟨hwc, htc⟩ := h
  have hbranches := hparts.right hwc.step
  refine .bind (expectType_ensures hwc.step.inv fun heq => ?_)
  subst heq
  refine .bind ((ht hint hbranches.left).imp fun thenType u _ h => ?_)
  obtain ⟨hwt, htt⟩ := h
  refine .bind ((he (some thenType) (hbranches.right hwt.step)).imp fun elseType v _ h => ?_)
  obtain ⟨hwe, hte⟩ := h
  refine .bind (expectType_ensures hwe.step.inv fun heq => .pure ?_)
  subst heq
  have hg := hwe.step.grows
  refine .of_walk hready hids ?_ (.ifElse info kind (hg.type (hwt.step.grows.type htc))
    (hg.type htt) hte)
  simp only [Expr.parts, Expr.targets, List.append_assoc]
  exact hwc.append hparts (hwt.append hbranches hwe)

theorem range_walks (hw : w.Sound p stack) (info : NodeInfo) {first last : Expr} (inclusive : Bool)
    (hf : first.Walks p stack w) (hl : last.Walks p stack w) :
    (Expr.range info first last inclusive).Walks p stack w := by
  intro s env scope hint hready
  have hids : (Expr.range info first last inclusive).ids = info.id :: (first.ids ++ last.ids) := by
    simp only [Expr.ids]
  have hparts := hready.tail hids
  rw [expr.eq_def]
  refine typing_ensures hw hready ?_
  refine .bind ((hf none hparts.left).imp fun type t _ h => ?_)
  obtain ⟨hwf, htf⟩ := h
  refine .bind ((hl (some type) (hparts.right hwf.step)).imp fun lastType u _ h => ?_)
  obtain ⟨hwl, htl⟩ := h
  refine .bind (expectType_ensures hwl.step.inv fun heq => ?_)
  subst heq
  split
  · next hn =>
    refine .pure (.of_walk hready hids ?_ (.range info inclusive (hwl.step.grows.type htf) htl hn))
    simp only [Expr.parts, Expr.targets]
    exact hwf.append hparts hwl
  · exact .fail (hwl.step.inv.rejected _ (by rintro ⟨⟩))

/-! ### Calls -/

/-- A call of a value whose type takes the arguments gives its result. -/
theorem callValue_ensures (hi : Inv p s) (site : NodeInfo) (callee : Expr) (type : Ty)
    (label : String) (args : List Ty) :
    Ensures (Rejected p) (callValue site callee type label args) s fun result t =>
      t = s ∧ ∃ params ret, type = .func params ret ∧ List.Forall₂ Ty.Accepts params args ∧
        result = ret.getD .unit := by
  unfold callValue
  split
  · next params ret =>
    split
    · next hscore =>
      exact .pure ⟨rfl, params, ret, rfl, (Overload.scoreParams_pos_iff _ _).mp hscore, rfl⟩
    · exact .fail (hi.rejected _ (by rintro ⟨⟩))
  · exact .fail (hi.rejected _ (by rintro ⟨⟩))

/-- A call by a name that is no variable. -/
theorem callByName_acted (hw : w.Sound p stack) {info callee : NodeInfo} {name : String}
    {assigned : Bool} {args : List Expr} {types : List Ty}
    (hready : Ready p stack s env scope (Expr.call info (.varRef callee name assigned) args).ids)
    (hwa : Walk p none (exprIds args) (exprsSites env args) (exprsTargets args) s t)
    (hta : t.HaveTypes args types) (hnone : t.store.lookupVar scope name = none) :
    Ensures (Rejected p) (callByName w info callee name types) t fun type u =>
      Acted p env (.call info (.varRef callee name assigned) args) s type u := by
  have hids : (Expr.call info (.varRef callee name assigned) args).ids =
      [info.id, callee.id] ++ exprIds args := by simp only [Expr.ids]; rfl
  rw [hids] at hready
  have hargs := hready.perm List.perm_append_comm
  have hheads := hargs.right hwa.step
  have hwr := hheads.writable.perm (List.Perm.swap callee.id info.id [])
  obtain ⟨hfind, -⟩ | ⟨owner, node, handle, -, hlook, -⟩ := hheads.env.lookupVar name
  · refine (callByName_ensures hw hwa.step.inv hheads.nested hwr name types).imp
      fun type u _ h => ?_
    obtain ⟨hs, huntyped, id, hlcallee, hlsite, hchosen, hgives, shown, hshown, hof⟩ := h
    have hsub : exprIds args ++ [callee.id, info.id] ⊆
        (Expr.call info (.varRef callee name assigned) args).ids := by
      intro node hm
      rw [hids]
      simp only [List.mem_append, List.mem_cons] at hm ⊢
      tauto
    have hargs' := hwa.stays hs hargs.left.writable.owned fun node hm' hm'' =>
      hargs.not_mem hm' ((List.Perm.swap info.id callee.id []).mem_iff.mp hm'')
    have hunderstood : u.Understood info.id := .of_isOfType hlsite hof
    refine ⟨⟨(hwa.step.trans hs).mono hsub, fun site hm => ?_, fun target hm => ?_⟩, huntyped,
      hunderstood, ?_⟩
    · simp only [Expr.parts, Expr.asCallee, List.cons_append, List.nil_append, List.mem_cons] at hm
      rcases hm with rfl | rfl | hm
      · refine ⟨hsub (List.mem_append_right _ List.mem_cons_self), shown, hshown, ?_⟩
        exact .ofFunction hlcallee hof
      · refine ⟨hsub (List.mem_append_right _ List.mem_cons_self), ?_⟩
        exact .ofFunction hfind hlcallee (hchosen.namesFunction hs.inv)
      · obtain ⟨hid, hres⟩ := hargs'.resolved site hm
        exact ⟨hsub (List.mem_append_left _ hid), hres⟩
    · simp only [Expr.targets, List.nil_append] at hm
      obtain ⟨hid, hassignable⟩ := hargs'.assigned target hm
      exact ⟨hsub (List.mem_append_left _ hid), hassignable⟩
    · exact .callByName hlsite hlcallee ((hs.later hwa.step.inv).haveTypes hta) hchosen hgives
  · rw [hnone] at hlook
    cases hlook

/-- A call of a value. -/
theorem callValue_acted {info : NodeInfo} {callee : Expr} {args : List Expr} {types : List Ty}
    (hready : Ready p stack s env scope (Expr.call info callee args).ids)
    (hc : callee.Walks p stack w) (hcallee : callee.asCallee = .expr callee)
    (hwa : Walk p none (exprIds args) (exprsSites env args) (exprsTargets args) s t)
    (hta : t.HaveTypes args types) :
    Ensures (Rejected p) (do
      let type ← expr w scope none callee
      callValue info callee type callee.label types) t fun type u =>
      Acted p env (.call info callee args) s type u := by
  have hids : (Expr.call info callee args).ids = info.id :: (callee.ids ++ exprIds args) := by
    simp only [Expr.ids]
  have hparts := (hready.tail hids).perm List.perm_append_comm
  refine .bind ((hc none (hparts.right hwa.step)).imp fun type u _ h => ?_)
  obtain ⟨hwc, htc⟩ := h
  refine (callValue_ensures hwc.step.inv info callee type _ types).imp fun result v _ h => ?_
  obtain ⟨rfl, params, ret, rfl, haccepts, rfl⟩ := h
  have hwalk : Walk p none (callee.ids ++ exprIds args) ((Expr.call info callee args).parts env)
      (Expr.call info callee args).targets s v := by
    refine (hwa.append hparts hwc).mono List.perm_append_comm.subset ?_ ?_
    · simp only [Expr.parts, hcallee]
      exact List.perm_append_comm.subset
    · simp only [Expr.targets]
      exact List.perm_append_comm.subset
  have hempty := hready.head_empty hids hwalk.step
  exact .of_walk hready hids hwalk (.callOfValue (congrArg Slots.link hempty) htc
    ((hwc.step.later hwa.step.inv).haveTypes hta) haccepts)

/-- A call of a member: one that the receiver has by its type, or a function that takes the
receiver first. -/
theorem callOnReceiver_acted (hw : w.Sound p stack) {info callee : NodeInfo} {receiver : Expr}
    {name : String} {args : List Expr} {types : List Ty}
    (hready : Ready p stack s env scope (Expr.call info (.member callee receiver name) args).ids)
    (h : receiver.Walks p stack w)
    (hwa : Walk p none (exprIds args) (exprsSites env args) (exprsTargets args) s t)
    (hta : t.HaveTypes args types) :
    Ensures (Rejected p) (do
      let on ← expr w scope none receiver
      match if types.isEmpty then on.member? name else none with
      | some type => do
        setType callee.id type
        pure type
      | none => callByName w info callee name (on :: types)) t fun type u =>
      Acted p env (.call info (.member callee receiver name) args) s type u := by
  have hids : (Expr.call info (.member callee receiver name) args).ids =
      [info.id, callee.id] ++ (receiver.ids ++ exprIds args) := by simp only [Expr.ids]; rfl
  have hready' := hready
  rw [hids] at hready'
  have hall : Ready p stack s env scope ((exprIds args ++ receiver.ids) ++ [info.id, callee.id]) :=
    hready'.perm (List.perm_append_comm.trans (List.perm_append_comm.append_right _))
  have hrest := hall
  rw [List.append_assoc] at hrest
  have hreceiver := hrest.right hwa.step
  refine .bind ((h none hreceiver.left).imp fun on u _ hr => ?_)
  obtain ⟨hwr, htr⟩ := hr
  have hwalk := hwa.append hall.left hwr
  have hheads := hall.right hwalk.step
  have hta' := (hwr.step.later hwa.step.inv).haveTypes hta
  have hinfo := hheads.writable.empty info.id List.mem_cons_self
  have hcallee := hheads.writable.empty callee.id (List.mem_cons_of_mem _ List.mem_cons_self)
  have hne : info.id ≠ callee.id := fun heq =>
    (List.nodup_cons.mp hheads.writable.nodup).1 (heq ▸ List.mem_cons_self)
  -- What is left of either case: the call writes to the heads, and the callee gets its type.
  have hfinish : ∀ {v : AnalysisState} {type shown : Ty},
      Step p none [info.id, callee.id] u v → v.types[info.id]? = none → v.Understood info.id →
      v.types[callee.id]? = some shown → CalleeTyping v (.member callee receiver name) shown →
      Typing v (.call info (.member callee receiver name) args) type →
      Acted p env (.call info (.member callee receiver name) args) s type v := by
    intro v type shown hs huntyped hunderstood hshown hcalleeTyping hrule
    have hsub : (exprIds args ++ receiver.ids) ++ [info.id, callee.id] ⊆
        (Expr.call info (.member callee receiver name) args).ids := by
      rw [hids]
      exact (List.perm_append_comm.trans (List.perm_append_comm.append_left _)).subset
    have hparts := hwalk.stays hs hall.left.writable.owned fun node => hall.not_mem
    refine ⟨⟨(hwalk.step.trans hs).mono hsub, fun site hm => ?_, fun target hm => ?_⟩, huntyped,
      hunderstood, hrule⟩
    · simp only [Expr.parts, Expr.asCallee, List.cons_append, List.mem_cons, List.mem_append] at hm
      rcases hm with rfl | hm
      · have hmem : callee.id ∈ (exprIds args ++ receiver.ids) ++ [info.id, callee.id] :=
          List.mem_append_right _ (List.mem_cons_of_mem _ List.mem_cons_self)
        exact ⟨hsub hmem, shown, hshown, hcalleeTyping⟩
      · have hm' : site ∈ exprsSites env args ++ receiver.sites env := by
          simp only [Expr.sites, List.mem_append, List.mem_cons]
          tauto
        obtain ⟨hid, hres⟩ := hparts.resolved site hm'
        exact ⟨hsub (List.mem_append_left _ hid), hres⟩
    · simp only [Expr.targets] at hm
      obtain ⟨hid, hassignable⟩ := hparts.assigned target (List.perm_append_comm.subset hm)
      exact ⟨hsub (List.mem_append_left _ hid), hassignable⟩
  split
  · next type hmember =>
    split at hmember
    · next hempty =>
      have hnil : types = [] := List.isEmpty_iff.mp hempty
      subst hnil
      cases hta
      have ho := hheads.writable.owned callee.id (List.mem_cons_of_mem _ List.mem_cons_self)
      refine .bind ((setType_ensures hwr.step.inv ho (congrArg Slots.type hcallee)
        (.of_empty hcallee) type).imp fun _ v _ hs => .pure ?_)
      obtain ⟨hs, hshown, hlinks⟩ := hs
      have hinfo' : v.slots info.id = .empty := by
        rw [hs.slots_eq hwr.step.inv (hheads.writable.owned info.id List.mem_cons_self)
          (fun hm => hne (List.mem_singleton.mp hm))]
        exact hinfo
      have hlcallee : v.links[callee.id]? = none := by
        rw [hlinks]
        exact congrArg Slots.link hcallee
      have htr' := hs.grows.type htr
      refine hfinish (hs.mono (List.subset_cons_self _ _)) (congrArg Slots.type hinfo')
        (.of_empty hinfo') hshown ?_ ?_
      · exact .builtin hlcallee htr' hmember
      · exact .callOfMember (congrArg Slots.link hinfo') htr' hmember hshown
    · cases hmember
  · next hmember =>
    have hwr' := hheads.writable.perm (List.Perm.swap callee.id info.id [])
    refine (callByName_ensures hw hwr.step.inv hheads.nested hwr' name (on :: types)).imp
      fun type v _ hs => ?_
    obtain ⟨hs, huntyped, id, hlcallee, hlsite, hchosen, hgives, shown, hshown, hof⟩ := hs
    have hlater := hs.later hwr.step.inv
    refine hfinish (hs.mono (List.Perm.swap info.id callee.id []).subset) huntyped
      (.of_isOfType hlsite hof) hshown (.function hlcallee hof) ?_
    refine .callOnReceiver hlsite hlcallee (hs.grows.type htr) (hlater.haveTypes hta') ?_ hchosen
      hgives
    rintro rfl
    cases hta
    simpa using hmember

theorem call_walks (hw : w.Sound p stack) (info : NodeInfo) {callee : Expr} {args : List Expr}
    (hc : callee.Walks p stack w)
    (hm : ∀ {ci r n}, callee = .member ci r n → r.Walks p stack w)
    (ha : ∀ e ∈ args, e.Walks p stack w) : (Expr.call info callee args).Walks p stack w := by
  intro s env scope hint hready
  have hids : (Expr.call info callee args).ids = info.id :: (callee.ids ++ exprIds args) := by
    simp only [Expr.ids]
  have hargs := (hready.tail hids).perm List.perm_append_comm
  rw [expr.eq_def]
  refine typing_ensures hw hready ?_
  refine .bind ((exprs_ensures ha [] hargs.left).imp fun types t _ h => ?_)
  obtain ⟨hwa, hta⟩ := h
  dsimp only
  split
  · refine .bind (.store ?_)
    split
    · next hnone => exact callByName_acted hw hready hwa hta (by simpa using hnone)
    · exact callValue_acted hready hc rfl hwa hta
  · exact callOnReceiver_acted hw hready (hm rfl) hwa hta
  · next hname hmember =>
    refine callValue_acted hready hc ?_ hwa hta
    cases callee with
    | member ci r n => exact absurd rfl (hmember ci r n)
    | _ => rfl

end Frontend
