import Frontend.Proofs.Ensures
import Frontend.Proofs.Analysis.Nesting

/-!
# Steps of the analysis

`Step` says what a stretch of analysis may do: the invariant is kept, everything known stays known,
only the given nodes are written to beside definitions not begun before, and only the current block
scope gets new variables. `Ready` is what a walk over nodes needs, `Walk` what it leaves behind:
a step, and the resolved sites. Both split along the lists of nodes and sites.
-/

namespace Frontend

/-- Nothing has been written twice, and nothing is known of the bodies of templates. -/
structure Untouched (p : Program) (s : AnalysisState) : Prop where
  refused : s.refused = []
  template : ∀ {d : FuncDef} {node : Nat}, .function d ∈ p.definitions → d.isTemplate = true →
    node ∈ (Definition.function d).bodyIds → s.slots node = .empty

/-- A failure that is no second write of a type and has left no trace of a second write. -/
structure Clean (p : Program) (e : Failure) (s : AnalysisState) : Prop where
  cause : ∀ node, e ≠ .fault (.typeRewritten node)
  untouched : Untouched p s

/-- The report of a return statement that lies in no function. -/
def Error.IsStrayReturn (e : Error) : Prop := e.cause = .invalidReturn "return outside of a function"

/-- A refusal of the program that has left no trace of a second write. No return statement is
reported as lying in no function. -/
structure Rejected (p : Program) (e : Failure) (s : AnalysisState) : Prop where
  cause : ∃ error, e = .error error
  untouched : Untouched p s
  inside : ∀ error, e = .error error → ¬ error.IsStrayReturn

/-- What a stretch of analysis may do, where `ids` are the nodes written to and `cur` is the block
scope that gets new variables. -/
structure Advance (p : Program) (cur : Option ScopeId) (ids : List Nat) (s t : AnalysisState) :
    Prop where
  inv : Inv p t
  grows : s.Grows t
  nextId : s.nextId ≤ t.nextId
  functions : t.store.functions = s.store.functions
  constants : t.store.constants.size = s.store.constants.size
  frame : ∀ {node}, node < s.nextId → node ∉ ids → ¬ Pending p s node → t.slots node = s.slots node
  kept : ∀ {id a b}, s.store.scopes[id]? = some a → t.store.scopes[id]? = some b →
    cur ≠ some id → b.body = a.body
  fresh : ∀ {d}, Defined p t d → Defined p s d ∨ ∀ node ∈ d.ids, s.nextId ≤ node
  active : ∀ {d}, Defined p t d → t.progress[d.info.id]? = some .inProgress →
    s.progress[d.info.id]? = some .inProgress
  running : ∀ {d}, Defined p s d → s.progress[d.info.id]? = some .inProgress →
    t.progress[d.info.id]? = some .inProgress
  unfinished : ∀ template, t.unfinished template = s.unfinished template

/-- A stretch of analysis that leaves no new definition behind without having begun it. -/
structure Step (p : Program) (cur : Option ScopeId) (ids : List Nat) (s t : AnalysisState) : Prop
    extends Advance p cur ids s t where
  begun : ∀ {d}, Defined p t d → t.progress[d.info.id]? = none → Defined p s d
  counted : ∀ template, t.active.getD template 0 = s.active.getD template 0

/-- Nodes that a walk may write to: each belongs to a body under analysis, and nothing is known
of it. -/
structure Writable (p : Program) (s : AnalysisState) (ids : List Nat) : Prop where
  nodup : ids.Nodup
  owned : ∀ node ∈ ids, Owned p s node
  empty : ∀ node ∈ ids, s.slots node = .empty

/-- What a walk over nodes needs: the invariant, the definitions under analysis, a scope that
matches the environment, and nodes that may be written to. -/
structure Ready (p : Program) (stack : List Nat) (s : AnalysisState) (env : Env) (scope : ScopeId)
    (ids : List Nat) : Prop where
  inv : Inv p s
  nested : Nested p stack s
  env : env.Matches s scope
  writable : Writable p s ids

/-- What has been found out at some nodes: the sites are resolved, and the targets of assignments
may be assigned to. -/
structure Found (ids : List Nat) (sites : List Site) (targets : List Expr) (t : AnalysisState) :
    Prop where
  resolved : ∀ site ∈ sites, site.id ∈ ids ∧ site.Resolved t
  assigned : ∀ e ∈ targets, e.id ∈ ids ∧ t.Assignable e

/-- What a walk over nodes leaves behind. -/
structure Walk (p : Program) (cur : Option ScopeId) (ids : List Nat) (sites : List Site)
    (targets : List Expr) (s t : AnalysisState) : Prop where
  step : Step p cur ids s t
  found : Found ids sites targets t

variable {p : Program} {stack : List Nat} {s t u : AnalysisState} {cur : Option ScopeId}
  {ids ids' : List Nat} {sites sites' : List Site} {targets targets' : List Expr} {env : Env}
  {scope : ScopeId}

theorem Inv.untouched (hi : Inv p s) : Untouched p s where
  refused := hi.refused
  template hd ht hm := hi.empty (.program hd) (hi.template hd ht) hm

theorem Untouched.rejected (hu : Untouched p s) (e : Error) (h : ¬ e.IsStrayReturn) :
    Rejected p (.error e) s :=
  ⟨⟨e, rfl⟩, hu, fun _ heq => Failure.error.inj heq ▸ h⟩

/-- The program may be refused at any time. -/
theorem Inv.rejected (hi : Inv p s) (e : Error) (h : ¬ e.IsStrayReturn) :
    Rejected p (.error e) s := hi.untouched.rejected e h

theorem Rejected.clean {e : Failure} (h : Rejected p e s) : Clean p e s := by
  obtain ⟨⟨e, rfl⟩, hu, -⟩ := h
  exact ⟨nofun, hu⟩

namespace Advance

/-- What is under analysis stays so. -/
theorem owns (h : Advance p cur ids s t) {node : Nat} (ho : Owned p s node) : Owned p t node := by
  obtain ⟨d, hd, hprogress, hm⟩ := ho
  exact ⟨d, hd.grows h.grows fun _ => id, h.running hd hprogress, hm⟩

theorem later (h : Advance p cur ids s t) (hi : Inv p s) : s.Later t :=
  hi.later h.grows h.functions

/-- A node that was there and not pending is not pending later. -/
theorem not_pending (h : Advance p cur ids s t) {node : Nat} (hlt : node < s.nextId)
    (hn : ¬ Pending p s node) : ¬ Pending p t node := by
  rintro ⟨d, hd, hnone, hm⟩
  rcases h.fresh hd with hd | hd
  · exact hn ⟨d, hd, h.grows.progress_eq_none hnone, hm⟩
  · exact absurd (hd node hm) (by omega)

/-- Two stretches make one; a scope that the first has opened does not count as changed. -/
theorem trans {next : Option ScopeId} (h : Advance p cur ids s t) (h' : Advance p next ids' t u)
    (hnext : next = cur ∨ ∀ id, next = some id → s.store.scopes[id]? = none) :
    Advance p cur (ids ++ ids') s u where
  inv := h'.inv
  grows := h.grows.trans h'.grows
  nextId := Nat.le_trans h.nextId h'.nextId
  functions := h'.functions.trans h.functions
  constants := h'.constants.trans h.constants
  frame hlt hm hn := by
    rw [List.mem_append, not_or] at hm
    rw [h'.frame (Nat.lt_of_lt_of_le hlt h.nextId) hm.2 (h.not_pending hlt hn),
      h.frame hlt hm.1 hn]
  kept {id a c} ha hc hcur := by
    obtain ⟨b, hb, hab⟩ := h.grows.store.scope ha
    have hne : next ≠ some id := by
      rcases hnext with rfl | hnext
      · exact hcur
      · intro heq
        rw [hnext id heq] at ha
        cases ha
    rw [h'.kept hb hc hne, h.kept ha hb hcur]
  fresh hd := by
    rcases h'.fresh hd with hd | hd
    · exact h.fresh hd
    · exact .inr fun node hm => Nat.le_trans h.nextId (hd node hm)
  active {d} hd hin := by
    have hmid := h'.active hd hin
    rcases h'.fresh hd with hd' | hd'
    · exact h.active hd' hmid
    · have hunused : t.progress[d.info.id]? = none :=
        congrArg Slots.progress (h.inv.unused (hd' _ d.info_mem_ids))
      rw [hunused] at hmid
      cases hmid
  running hd hin := h'.running (hd.grows h.grows fun _ => id) (h.running hd hin)
  unfinished k := (h'.unfinished k).trans (h.unfinished k)

/-- A writable node that is not written to stays as it is. -/
theorem slots_eq (h : Advance p cur ids s t) (hi : Inv p s) {node : Nat} (ho : Owned p s node)
    (hm : node ∉ ids) : t.slots node = s.slots node :=
  h.frame (hi.lt_nextId ho) hm (hi.not_pending ho)

/-- Layers stay matched unless one of the scopes gets new variables. -/
theorem matches_layers (h : Advance p cur ids s t) (hi : Inv p s) {scopes : List ScopeId}
    (hm : List.Forall₂ (Layer.Matches s) env scopes)
    (hex : ∀ id ∈ scopes, ∃ a, s.store.scopes[id]? = some a)
    (hcur : ∀ id ∈ scopes, cur ≠ some id) : List.Forall₂ (Layer.Matches t) env scopes := by
  induction hm with
  | nil => exact .nil
  | @cons l id env scopes hl _ ih =>
    rw [List.forall_mem_cons] at hex hcur
    obtain ⟨a, ha⟩ := hex.1
    obtain ⟨b, hb, -⟩ := h.grows.store.scope ha
    have hnames := h.grows.store.namesIn_kept h.constants ha hb (h.kept ha hb hcur.1)
      fun f => hi.linked
    exact .cons (hl.grows h.grows.link h.grows.scope hnames) (ih hex.2 hcur.2)

/-- An environment stays matched unless one of its scopes gets new variables. -/
theorem matches_env (h : Advance p cur ids s t) (hi : Inv p s) (hm : env.Matches s scope)
    (hcur : ∀ id ∈ s.store.chain scope, cur ≠ some id) : env.Matches t scope := by
  obtain ⟨a, ha⟩ := hm.scope
  obtain ⟨b, hb, -⟩ := h.grows.store.scope ha
  refine ⟨⟨b, hb⟩, ?_⟩
  rw [h.grows.store.chain_eq ha]
  exact h.matches_layers hi hm.layers (fun id => hi.scope_of_mem_chain) hcur

end Advance

namespace Step

theorem refl (hi : Inv p s) : Step p cur [] s s where
  inv := hi
  grows := .refl s
  nextId := Nat.le_refl _
  functions := rfl
  constants := rfl
  frame _ _ _ := rfl
  kept ha hb _ := by
    rw [ha] at hb
    cases hb
    rfl
  fresh hd := .inl hd
  active _ hin := hin
  running _ hin := hin
  unfinished _ := rfl
  begun hd _ := hd
  counted _ := rfl

theorem mono (h : Step p cur ids s t) (hs : ids ⊆ ids') : Step p cur ids' s t :=
  { h with frame := fun hlt hm => h.frame hlt fun hm' => hm (hs hm') }

/-- A step that changes no scope at all. -/
theorem lift (h : Step p none ids s t) : Step p cur ids s t :=
  { h with kept := fun ha hb _ => h.kept ha hb nofun }

/-- Two steps make one; a scope that the first has opened does not count as changed. -/
theorem trans' {next : Option ScopeId} (h : Step p cur ids s t) (h' : Step p next ids' t u)
    (hnext : next = cur ∨ ∀ id, next = some id → s.store.scopes[id]? = none) :
    Step p cur (ids ++ ids') s u :=
  { h.toAdvance.trans h'.toAdvance hnext with
    begun := fun hd hnone => h.begun (h'.begun hd hnone) (h'.grows.progress_eq_none hnone)
    counted := fun k => (h'.counted k).trans (h.counted k) }

theorem trans (h : Step p cur ids s t) (h' : Step p cur ids' t u) : Step p cur (ids ++ ids') s u :=
  h.trans' h' (.inl rfl)

end Step

/-- The definitions under analysis stay the same. -/
theorem Nested.step (hn : Nested p stack s) (hs : Step p cur ids s t) : Nested p stack t where
  nodup := hn.nodup
  running id hm := by
    obtain ⟨d, hd, rfl, hin⟩ := hn.running id hm
    exact ⟨d, hd.grows hs.grows fun _ h => h, rfl, hs.running hd hin⟩
  counted k := by
    rw [hs.counted, hs.unfinished]
    exact hn.counted k
  stacked k := by
    rw [hs.counted, hn.stacked]
    refine (AnalysisState.instancesOn_eq fun id hm => ⟨?_, ?_⟩).symm
    · -- What is on the stack is under analysis, and no other copies are than before.
      rintro ⟨c, hc, rfl⟩
      obtain ⟨d, hd, heq, hin⟩ := hn.running _ hm
      have hlater : t.progress[c.info.id]? = some .inProgress := by
        rw [← heq] at hin ⊢
        exact hs.running hd hin
      have hunfinished : c ∈ t.unfinished k :=
        List.mem_filter.mpr ⟨Array.mem_toList_iff.mpr hc, decide_eq_true hlater⟩
      rw [hs.unfinished k] at hunfinished
      exact ⟨c, Array.mem_toList_iff.mp (List.mem_filter.mp hunfinished).1, rfl⟩
    · rintro ⟨c, hc, rfl⟩
      exact ⟨c, hs.grows.copies hc, rfl⟩
  limited k := by
    rw [hs.counted]
    exact hn.limited k
  begun {k c} hc hnone := by
    have hold := hs.begun (.copy hc) hnone
    have hnone' := hs.grows.progress_eq_none hnone
    cases hold with
    | program hm =>
      obtain ⟨i, -, f, template, -, hinst⟩ := hs.inv.copied hc
      exact hinst.foreign hm
    | copy hc' => exact hn.begun hc' hnone'

namespace Writable

theorem sublist (h : Writable p s ids) (hs : ids'.Sublist ids) : Writable p s ids' where
  nodup := h.nodup.sublist hs
  owned node hm := h.owned node (hs.subset hm)
  empty node hm := h.empty node (hs.subset hm)

theorem perm (h : Writable p s ids) (hp : ids.Perm ids') : Writable p s ids' where
  nodup := hp.nodup_iff.mp h.nodup
  owned node hm := h.owned node (hp.mem_iff.mpr hm)
  empty node hm := h.empty node (hp.mem_iff.mpr hm)

theorem left (h : Writable p s (ids ++ ids')) : Writable p s ids :=
  h.sublist (List.sublist_append_left ids ids')

/-- Nodes stay writable while others are written to. -/
theorem stays (h : Writable p s ids) (hi : Inv p s) (hs : Step p cur ids' s t)
    (hdisjoint : ∀ node ∈ ids, node ∉ ids') : Writable p t ids where
  nodup := h.nodup
  owned node hm := hs.owns (h.owned node hm)
  empty node hm := by
    rw [hs.toAdvance.slots_eq hi (h.owned node hm) (hdisjoint node hm)]
    exact h.empty node hm

/-- The nodes behind those that have been written to are still writable. -/
theorem right (h : Writable p s (ids ++ ids')) (hi : Inv p s) (hs : Step p cur ids s t) :
    Writable p t ids' :=
  (h.sublist (List.sublist_append_right ids ids')).stays hi hs fun node hm hm' =>
    (List.nodup_append.mp h.nodup).2.2 node hm' node hm rfl

end Writable

namespace Ready

theorem sublist (h : Ready p stack s env scope ids) (hs : ids'.Sublist ids) :
    Ready p stack s env scope ids' := ⟨h.inv, h.nested, h.env, h.writable.sublist hs⟩

theorem perm (h : Ready p stack s env scope ids) (hp : ids.Perm ids') :
    Ready p stack s env scope ids' :=
  ⟨h.inv, h.nested, h.env, h.writable.perm hp⟩

theorem left (h : Ready p stack s env scope (ids ++ ids')) : Ready p stack s env scope ids :=
  ⟨h.inv, h.nested, h.env, h.writable.left⟩

theorem right (h : Ready p stack s env scope (ids ++ ids')) (hs : Step p none ids s t) :
    Ready p stack t env scope ids' :=
  ⟨hs.inv, h.nested.step hs, hs.toAdvance.matches_env h.inv h.env fun _ _ => nofun,
    h.writable.right h.inv hs⟩

theorem stays (h : Ready p stack s env scope ids) (hs : Step p none ids' s t)
    (hdisjoint : ∀ node ∈ ids, node ∉ ids') : Ready p stack t env scope ids :=
  ⟨hs.inv, h.nested.step hs, hs.toAdvance.matches_env h.inv h.env fun _ _ => nofun,
    h.writable.stays h.inv hs hdisjoint⟩

/-- What follows in a scope that has got new variables. -/
theorem next {env' : Env} {scope' : ScopeId} (h : Ready p stack s env scope (ids ++ ids'))
    (hs : Step p cur ids s t) (he : env'.Matches t scope') : Ready p stack t env' scope' ids' :=
  ⟨hs.inv, h.nested.step hs, he, h.writable.right h.inv hs⟩

theorem not_mem (h : Ready p stack s env scope (ids ++ ids')) {node : Nat} (hm : node ∈ ids) :
    node ∉ ids' := fun hm' => (List.nodup_append.mp h.writable.nodup).2.2 node hm node hm' rfl

end Ready

namespace Found

theorem nil : Found ids [] [] t := ⟨List.forall_mem_nil _, List.forall_mem_nil _⟩

theorem mono (h : Found ids sites targets t) (hids : ids ⊆ ids') (hsites : sites' ⊆ sites)
    (htargets : targets' ⊆ targets) : Found ids' sites' targets' t where
  resolved site hm := ⟨hids (h.resolved site (hsites hm)).1, (h.resolved site (hsites hm)).2⟩
  assigned e hm := ⟨hids (h.assigned e (htargets hm)).1, (h.assigned e (htargets hm)).2⟩

theorem append (h : Found ids sites targets t) (h' : Found ids sites' targets' t) :
    Found ids (sites ++ sites') (targets ++ targets') t :=
  ⟨List.forall_mem_append.mpr ⟨h.resolved, h'.resolved⟩,
    List.forall_mem_append.mpr ⟨h.assigned, h'.assigned⟩⟩

/-- What has been found out stays so while other nodes are written to. -/
theorem stays (h : Found ids sites targets t) (hi : Inv p t) (hs : Step p cur ids' t u)
    (howned : ∀ node ∈ ids, Owned p t node) (hdisjoint : ∀ node ∈ ids, node ∉ ids') :
    Found ids sites targets u := by
  have hlinks : ∀ node ∈ ids, u.links[node]? = t.links[node]? := fun node hm =>
    congrArg Slots.link (hs.slots_eq hi (howned node hm) (hdisjoint node hm))
  refine ⟨fun site hm => ?_, fun e hm => ?_⟩
  · obtain ⟨hid, hr⟩ := h.resolved site hm
    exact ⟨hid, (hs.toAdvance.later hi).resolved (hlinks _ hid) hr⟩
  · obtain ⟨hid, ha⟩ := h.assigned e hm
    exact ⟨hid, ha.grows hs.grows (hlinks _ hid)⟩

end Found

namespace Walk

theorem of_step (h : Step p cur ids s t) : Walk p cur ids [] [] s t := ⟨h, .nil⟩

theorem nil (hi : Inv p s) : Walk p cur [] [] [] s s := .of_step (.refl hi)

theorem mono (h : Walk p cur ids sites targets s t) (hids : ids ⊆ ids') (hsites : sites' ⊆ sites)
    (htargets : targets' ⊆ targets) : Walk p cur ids' sites' targets' s t :=
  ⟨h.step.mono hids, h.found.mono hids hsites htargets⟩

theorem lift (h : Walk p none ids sites targets s t) : Walk p cur ids sites targets s t :=
  ⟨h.step.lift, h.found⟩

/-- What has been found out on a walk stays so while other nodes are written to. -/
theorem stays (h : Walk p cur ids sites targets s t) {next : Option ScopeId}
    (hs : Step p next ids' t u) (howned : ∀ node ∈ ids, Owned p s node)
    (hdisjoint : ∀ node ∈ ids, node ∉ ids') : Found ids sites targets u :=
  h.found.stays h.step.inv hs (fun node hm => h.step.owns (howned node hm)) hdisjoint

/-- Two walks over different nodes make one. -/
theorem join {next : Option ScopeId} (h : Walk p cur ids sites targets s t)
    (howned : ∀ node ∈ ids, Owned p s node) (hdisjoint : ∀ node ∈ ids, node ∉ ids')
    (h' : Walk p next ids' sites' targets' t u)
    (hnext : next = cur ∨ ∀ id, next = some id → s.store.scopes[id]? = none) :
    Walk p cur (ids ++ ids') (sites ++ sites') (targets ++ targets') s u where
  step := h.step.trans' h'.step hnext
  found := ((h.stays h'.step howned hdisjoint).mono (List.subset_append_left _ _) (fun _ hm => hm)
    fun _ hm => hm).append (h'.found.mono (List.subset_append_right _ _) (fun _ hm => hm)
      fun _ hm => hm)

theorem append' {next : Option ScopeId} (h : Walk p cur ids sites targets s t)
    (hr : Ready p stack s env scope (ids ++ ids')) (h' : Walk p next ids' sites' targets' t u)
    (hnext : next = cur ∨ ∀ id, next = some id → s.store.scopes[id]? = none) :
    Walk p cur (ids ++ ids') (sites ++ sites') (targets ++ targets') s u :=
  h.join (fun node hm => hr.writable.owned node (List.mem_append_left _ hm))
    (fun _ => hr.not_mem) h' hnext

theorem append (h : Walk p cur ids sites targets s t) (hr : Ready p stack s env scope (ids ++ ids'))
    (h' : Walk p cur ids' sites' targets' t u) :
    Walk p cur (ids ++ ids') (sites ++ sites') (targets ++ targets') s u :=
  h.append' hr h' (.inl rfl)

/-- A step that writes to none of the nodes follows. -/
theorem andThen (h : Walk p cur ids sites targets s t) (howned : ∀ node ∈ ids, Owned p s node)
    (hs : Step p cur [] t u) : Walk p cur ids sites targets s u where
  step := (h.step.trans hs).mono (by rw [List.append_nil]; exact fun _ hm => hm)
  found := h.stays hs howned fun _ _ => List.not_mem_nil

end Walk

/-! ### Steps that write to nodes at hand -/

/-- A change that writes to nodes of bodies under analysis is a step. -/
theorem Step.owned (hi : Inv p s) (hg : s.Grows t) (howned : ∀ node ∈ ids, Owned p s node)
    (hcopies : t.copies = s.copies) (hknown : t.known = s.known) (hactive : t.active = s.active)
    (hnext : t.nextId = s.nextId) (hrefused : t.refused = s.refused)
    (hfunctions : t.store.functions = s.store.functions)
    (hconstants : t.store.constants.size = s.store.constants.size)
    (hframe : ∀ {node}, node ∉ ids → t.slots node = s.slots node)
    (hlinked : ∀ {scope id}, t.store.scopeFuncId? scope = some id → (t.store.func? id).isSome)
    (hdeclared : ∀ {id g d}, t.store.func? id = some g → g.decl = some d →
      s.store.func? id = none → ∃ scope, Declares t id g d scope)
    (hsettled : ∀ {id f d}, Defined p s (.function d) → t.store.func? id = some f →
      f.decl = some d → t.progress[d.info.id]? = some .done → f.kind.returnsValue = true →
      f.ret.isSome)
    (hunderstood : ∀ node ∈ ids, (t.types[node]?).isSome → t.Understood node)
    (houter : ∀ {id o : ScopeId} {a : Scope}, t.store.scopes[id]? = some a → o ∈ a.outer → o < id)
    (hkept : ∀ {id a b}, s.store.scopes[id]? = some a → t.store.scopes[id]? = some b →
      cur ≠ some id → b.body = a.body) : Step p cur ids s t := by
  have hframe' : ∀ {d node}, Defined p s d → s.progress[d.info.id]? ≠ some .inProgress →
      node ∈ d.ids → t.slots node = s.slots node := by
    refine fun {d node} hd hprogress hm => hframe fun hids => hprogress ?_
    obtain ⟨e, he, hin, hm'⟩ := howned node hids
    rw [hi.disjoint hd he hm (Definition.mem_ids_of_mem_bodyIds hm')]
    exact hin
  have hdef : ∀ {d}, Defined p t d → Defined p s d := by
    intro d hd
    cases hd with
    | program h => exact .program h
    | copy h => exact .copy (by rw [← hcopies]; exact h)
  have hrunning : ∀ {d}, Defined p s d → s.progress[d.info.id]? = some .inProgress →
      t.progress[d.info.id]? = some .inProgress := by
    intro d hd hin
    refine (congrArg Slots.progress (hframe fun hids => ?_)).trans hin
    obtain ⟨e, he, -, hm⟩ := howned _ hids
    have hde := hi.disjoint hd he d.info_mem_ids (Definition.mem_ids_of_mem_bodyIds hm)
    exact Definition.info_not_mem_bodyIds (hi.nodup hd) (hde ▸ hm)
  have hunderstood' : ∀ {node}, (t.types[node]?).isSome → t.Understood node := by
    intro node ht
    by_cases hm : node ∈ ids
    · exact hunderstood node hm ht
    · exact hi.understood_of_slots hg.store (hframe hm) ht
  have hstarted : ∀ {d}, Defined p s d → t.progress[d.info.id]? = some .inProgress →
      s.progress[d.info.id]? = some .inProgress := by
    intro d hd hin
    by_contra hne
    have hslots := hframe' hd hne d.info_mem_ids
    exact hne ((congrArg Slots.progress hslots).symm.trans hin)
  exact
    { inv := hi.advance hg hcopies hknown hnext hrefused hfunctions hconstants
        (fun hn => hframe fun hids => absurd (hi.lt_nextId (howned _ hids)) (by omega))
        hlinked hdeclared hframe' hrunning hsettled hunderstood' houter
      grows := hg
      nextId := Nat.le_of_eq hnext.symm
      functions := hfunctions
      constants := hconstants
      frame := fun _ hm _ => hframe hm
      kept := hkept
      fresh := fun hd => .inl (hdef hd)
      active := fun hd => hstarted (hdef hd)
      running := hrunning
      unfinished := AnalysisState.unfinished_eq hcopies fun hc =>
        ⟨hstarted (d := .function _) (.copy hc), hrunning (d := .function _) (.copy hc)⟩
      begun := fun hd _ => hdef hd
      counted := fun _ => by rw [hactive] }

/-- A change that leaves the symbols and scopes alone. -/
theorem Step.of_store_eq (hi : Inv p s) (hg : s.Grows t) (howned : ∀ node ∈ ids, Owned p s node)
    (hstore : t.store = s.store) (hcopies : t.copies = s.copies) (hknown : t.known = s.known)
    (hactive : t.active = s.active) (hnext : t.nextId = s.nextId)
    (hrefused : t.refused = s.refused)
    (hframe : ∀ {node}, node ∉ ids → t.slots node = s.slots node)
    (hsettled : ∀ {id f d}, Defined p s (.function d) → s.store.func? id = some f →
      f.decl = some d → t.progress[d.info.id]? = some .done → f.kind.returnsValue = true →
      f.ret.isSome)
    (hunderstood : ∀ node ∈ ids, (t.types[node]?).isSome → t.Understood node) :
    Step p none ids s t := by
  refine Step.owned hi hg howned hcopies hknown hactive hnext hrefused (by rw [hstore])
    (by rw [hstore]) hframe ?_ ?_ ?_ hunderstood ?_ ?_
  · rw [hstore]
    exact hi.linked
  · rw [hstore]
    intro id g d hg _ hnone
    rw [hg] at hnone
    cases hnone
  · rw [hstore]
    exact hsettled
  · rw [hstore]
    exact hi.outer
  · rw [hstore]
    intro id a b ha hb _
    rw [ha] at hb
    cases hb
    rfl

end Frontend
