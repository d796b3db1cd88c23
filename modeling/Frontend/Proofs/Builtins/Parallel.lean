import Frontend.Proofs.Analysis.Opening
import Frontend.Proofs.Analysis.Stateless
import Frontend.Proofs.Builtins.Behind

/-!
# Two runs side by side

The state of an analysis with builtin functions is beside the state of one without them if it is
the same but for the builtin functions in front. `Parallel` says of two actions that they keep to
this: if the one without builtin functions gives a result, then so does the other one, and if it
refuses the program, the other one refuses it for the same cause at the same place. There is a rule
for each way to build an action.
-/

namespace Frontend

/-- An instance of a template, behind the builtin functions. -/
def Instance.behind (i : Instance) : Instance := { i with func := Builtin.behind i.func }

/-- What two analyses found out is the same, but for the builtin functions in front of the functions
of the second one. -/
structure Beside (s t : AnalysisState) : Prop where
  store : t.store = s.store.behind
  types : t.types = s.types
  links : ∀ node : Nat, t.links[node]? = s.links[node]?.map Link.behind
  scopes : t.scopes = s.scopes
  copies : t.copies = s.copies
  refused : t.refused = s.refused
  progress : t.progress = s.progress
  known : t.known = s.known.map Instance.behind
  active : t.active = s.active
  nextId : t.nextId = s.nextId

/-- The definition of a function mentions no builtin function. -/
def FuncSymbol.Discreet (f : FuncSymbol) : Prop := ∀ d ∈ f.decl, Frontend.Discreet d.names

/-- The definitions of all functions mention no builtin function. -/
def Store.Discreet (s : Store) : Prop := ∀ f ∈ s.funcs, f.Discreet

/-- A state and the one beside it, in both of which no definition mentions a builtin function. -/
structure Tied (s t : AnalysisState) : Prop extends Beside s t where
  discreet : s.store.Discreet

theorem Store.Discreet.func? {s : Store} (h : s.Discreet) {id : FuncId} {f : FuncSymbol}
    (hf : s.func? id = some f) : f.Discreet := h f (Array.mem_of_getElem? hf)

theorem Store.Discreet.lookupFunctions {s : Store} (h : s.Discreet) {name : String}
    {c : FuncId × FuncSymbol} (hc : c ∈ s.lookupFunctions name) : c.2.Discreet := by
  obtain ⟨id, -, hid⟩ := List.mem_filterMap.mp (List.mem_of_mem_filter hc)
  obtain ⟨f, hf, rfl⟩ := Option.map_eq_some_iff.mp hid
  exact h.func? hf

namespace Tied

variable {s s' : AnalysisState}

/-- Other symbols with the same functions. -/
theorem withStore (h : Tied s s') {st : Store} (hst : st.Discreet) :
    Tied { s with store := st } { s' with store := st.behind } :=
  { h with store := rfl, discreet := hst }

theorem contains_links (h : Tied s s') (node : Nat) :
    s'.links.contains node = s.links.contains node := by
  rw [Std.TreeMap.contains_eq_isSome_getElem?, Std.TreeMap.contains_eq_isSome_getElem?, h.links,
    Option.isSome_map]

theorem link (h : Tied s s') (node : Nat) (target : Link) :
    Tied { s with toResolution := s.toResolution.link node target }
      { s' with toResolution := s'.toResolution.link node target.behind } := by
  unfold Resolution.link
  rw [h.contains_links]
  by_cases hn : s.links.contains node = true
  · rw [if_pos hn, if_pos hn]
    exact { h with refused := congrArg (node :: ·) h.refused }
  · rw [if_neg hn, if_neg hn]
    refine { h with links := fun n => ?_ }
    simp only [Std.TreeMap.getElem?_insert, h.links]
    split <;> rfl

theorem setScope (h : Tied s s') (node : Nat) (scope : ScopeId) :
    Tied { s with toResolution := s.toResolution.setScope node scope }
      { s' with toResolution := s'.toResolution.setScope node scope } := by
  have hcontains : s'.scopes.contains node = s.scopes.contains node := by rw [h.scopes]
  unfold Resolution.setScope
  rw [hcontains]
  by_cases hn : s.scopes.contains node = true
  · rw [if_pos hn, if_pos hn]
    exact { h with refused := congrArg (node :: ·) h.refused }
  · rw [if_neg hn, if_neg hn]
    exact { h with scopes := congrArg (·.insert node scope) h.scopes }

end Tied

variable {α β : Type}

/-- From two states, two actions give related results, or the second one refuses the program as the
first one does. Nothing is said of a run that breaks a precondition. -/
def Tracks (related : α → α → Prop) (act act' : Check α) (s s' : AnalysisState) : Prop :=
  Ensures (fun e _ => (∃ error, e = .error error) → ∃ t', act' s' = .error e t') act s
    fun a t => ∃ a' t', act' s' = .ok a' t' ∧ related a a' ∧ Tied t t'

/-- Reading the symbols first, both go on from what they find. -/
theorem Tracks.store {related : β → β → Prop} {f f' : Store → Check β} {s s' : AnalysisState}
    (h : Tracks related (f s.store) (f' s'.store) s s') :
    Tracks related (Check.store >>= f) (Check.store >>= f') s s' := h

/-- One action tracks another one from all tied states. -/
def Parallel (related : α → α → Prop) (act act' : Check α) : Prop :=
  ∀ ⦃s s' : AnalysisState⦄, Tied s s' → Tracks related act act' s s'

/-- An action that does the same from tied states. -/
abbrev Alike (act : Check α) : Prop := Parallel Eq act act

namespace Parallel

variable {related : α → α → Prop} {relatedNext : β → β → Prop} {act act' : Check α}

theorem pure {a a' : α} (h : related a a') : Parallel related (pure a) (pure a') :=
  fun _ s' hs => Ensures.pure ⟨a', s', rfl, h, hs⟩

theorem throw (e : Failure) : Parallel related (throw e : Check α) (throw e) :=
  fun _ s' _ => Ensures.throw fun _ => ⟨s', rfl⟩

theorem fail (cause : Cause) (position : Position) :
    Parallel related (Check.fail cause position : Check α) (Check.fail cause position) := .throw _

/-- Of an action that breaks a precondition nothing is asked. -/
theorem fault (f : Fault) (act' : Check α) : Parallel related (Check.fault f : Check α) act' := by
  refine fun s s' hs => Ensures.throw ?_
  rintro ⟨error, herror⟩
  cases herror

/-- What the first action ensures by itself is at hand when the two go on. -/
theorem bind_of {f f' : α → Check β} {post : α → AnalysisState → Prop}
    (h : Parallel related act act') (hpost : ∀ s, Ensures (fun _ _ => True) act s post)
    (hf : ∀ ⦃a a' t t'⦄, related a a' → Tied t t' → post a t →
      Tracks relatedNext (f a) (f' a') t t') :
    Parallel relatedNext (act >>= f) (act' >>= f') := by
  intro s s' hs
  refine .bind (((h hs).and (hpost s)).imp_both (fun e _ he herror => ?_) ?_)
  · obtain ⟨t', hrun⟩ := he herror
    refine ⟨t', ?_⟩
    change EStateM.bind act' f' s' = _
    rw [EStateM.bind, hrun]
  · rintro a t ⟨⟨a', t', hrun, ha, ht⟩, hpost⟩
    have hbind : (act' >>= f') s' = f' a' t' := by
      change EStateM.bind act' f' s' = _
      rw [EStateM.bind, hrun]
    rw [hbind]
    exact hf ha ht hpost

theorem bind {f f' : α → Check β} (h : Parallel related act act')
    (hf : ∀ a a', related a a' → Parallel relatedNext (f a) (f' a')) :
    Parallel relatedNext (act >>= f) (act' >>= f') :=
  h.bind_of (Ensures.any act) fun a a' _ _ ha ht _ => hf a a' ha ht

/-- Actions with the same result, and then two that go on from it. -/
theorem next {f f' : α → Check β} (h : Parallel Eq act act')
    (hf : ∀ a, Parallel relatedNext (f a) (f' a)) :
    Parallel relatedNext (act >>= f) (act' >>= f') := h.bind fun a _ ha => ha ▸ hf a

theorem map {f : α → β} (h : Alike act) : Alike (f <$> act) := by
  rw [← bind_pure_comp]
  exact h.bind fun a a' ha => .pure (congrArg f ha)

theorem get : Parallel Tied (MonadState.get : Check AnalysisState) MonadState.get :=
  fun _ s' hs => Ensures.get ⟨s', s', rfl, hs, hs⟩

theorem set {s s' : AnalysisState} (h : Tied s s') :
    Parallel Eq (MonadStateOf.set s : Check PUnit) (MonadStateOf.set s') :=
  fun _ _ _ => Ensures.set ⟨.unit, s', rfl, rfl, h⟩

theorem modify {f f' : AnalysisState → AnalysisState}
    (h : ∀ {s s'}, Tied s s' → Tied (f s) (f' s')) :
    Parallel Eq (modify f : Check PUnit) (modify f') :=
  fun _ s' hs => Ensures.modify ⟨.unit, f' s', rfl, rfl, h hs⟩

theorem modifyGet {f f' : AnalysisState → α × AnalysisState}
    (h : ∀ {s s'}, Tied s s' → related (f s).1 (f' s').1 ∧ Tied (f s).2 (f' s').2) :
    Parallel related (modifyGet f : Check α) (modifyGet f') :=
  fun _ s' hs => Ensures.modifyGet ⟨(f' s').1, (f' s').2, rfl, h hs⟩

theorem andFinally {after after' : AnalysisState → AnalysisState} (h : Parallel related act act')
    (hafter : ∀ {s s'}, Tied s s' → Tied (after s) (after' s')) :
    Parallel related (Check.andFinally act after) (Check.andFinally act' after') := by
  intro s s' hs
  refine .andFinally ((h hs).imp_both (fun e _ he herror => ?_) ?_)
  · obtain ⟨t', hrun⟩ := he herror
    exact ⟨after' t', by rw [Check.andFinally, hrun]⟩
  · rintro a t ⟨a', t', hrun, ha, ht⟩
    exact ⟨a', after' t', by rw [Check.andFinally, hrun], ha, hafter ht⟩

theorem mapM {f : α → Check β} (h : ∀ a, Alike (f a)) (as : List α) : Alike (as.mapM f) := by
  induction as with
  | nil =>
    rw [List.mapM_nil]
    exact .pure rfl
  | cons a rest ih =>
    rw [List.mapM_cons]
    exact (h a).next fun _ => ih.next fun _ => .pure rfl

theorem forM {f : α → Check PUnit} {as : List α} (h : ∀ a ∈ as, Alike (f a)) :
    Alike (as.forM f) := by
  induction as with
  | nil => exact .pure rfl
  | cons a rest ih =>
    rw [List.forall_mem_cons] at h
    exact h.1.next fun _ => ih h.2

end Parallel

/-- An action that does not look at the state does the same from any two states. -/
theorem Stateless.alike {act : Check α} (h : Stateless act) : Alike act := by
  obtain ⟨r, rfl⟩ := h
  cases r with
  | ok a => exact .pure rfl
  | error e => exact .throw e

namespace Check

variable {position : Position} {scope : ScopeId}

/-! ### Reading -/

theorem store_parallel : Parallel (fun st st' => st' = st.behind ∧ st.Discreet) store store :=
  Parallel.get.bind fun _ _ hs => .pure ⟨hs.store, hs.discreet⟩

theorem func_parallel (id : FuncId) : Parallel (fun f f' => f' = f ∧ f.Discreet) (func id)
    (func (Builtin.behind id)) := by
  refine store_parallel.bind ?_
  rintro st _ ⟨rfl, hst⟩
  rw [Store.func?_behind]
  cases hf : st.func? id with
  | none => exact .fault _ _
  | some f => exact .pure ⟨rfl, hst.func? hf⟩

theorem progress?_alike (node : Nat) : Alike (progress? node) :=
  Parallel.get.bind fun _ _ hs => .pure (by rw [hs.progress])

theorem declared_parallel (d : NodeInfo) :
    Parallel (fun a a' => a' = (a.1, Builtin.behind a.2)) (declared d) (declared d) := by
  refine Parallel.get.bind fun s s' hs => ?_
  rw [hs.scopes, hs.store]
  cases s.scopes[d.id]? with
  | none => exact .fault _ _
  | some scope =>
    simp only [Store.scopeFuncId?_behind]
    cases s.store.scopeFuncId? scope with
    | none => exact .fault _ _
    | some id => exact .pure rfl

theorem currentFunc?_parallel :
    Parallel (fun a a' => a' = a.map fun r => (Builtin.behind r.1, r.2)) (currentFunc? scope)
      (currentFunc? scope) := by
  refine store_parallel.bind ?_
  rintro st _ ⟨rfl, -⟩
  refine .pure ?_
  simp only [Store.enclosingFunction_behind]
  cases st.enclosingFunction scope with
  | none => rfl
  | some inner =>
    simp only [Option.bind_eq_bind, Option.bind_some, Store.scopeFuncId?_behind]
    cases st.scopeFuncId? inner with
    | none => rfl
    | some id =>
      simp only [Option.map_some, Option.bind_some, Store.func?_behind]
      cases st.func? id <;> rfl

theorem checkAssignable_alike (target : Expr) : Alike (checkAssignable target) := by
  unfold checkAssignable
  split
  · exact .pure rfl
  · exact .pure rfl
  · next info name assigned =>
    refine Parallel.get.bind fun s s' hs => ?_
    rw [hs.links, hs.store]
    dsimp only
    have hvar : ∀ handle, s.store.behind.var? handle = s.store.var? handle := s.store.var?_behind
    rcases s.links[info.id]? with _ | ⟨handle | id⟩
    · exact .fail _ _
    · simp only [Option.map_some, Link.behind, hvar]
      split
      · exact .pure rfl
      · exact .fail _ _
    · exact .fail _ _
  · exact .fail _ _

theorem typeOf?_alike (handle : VarHandle) : Alike (typeOf? handle) := by
  refine store_parallel.bind ?_
  rintro st _ ⟨rfl, -⟩
  exact .pure (by rw [Store.var?_behind])

theorem constantHandles_alike (decls : List ConstDecl) : Alike (constantHandles decls) := by
  induction decls with
  | nil => exact .pure rfl
  | cons d rest ih =>
    refine store_parallel.bind ?_
    rintro st _ ⟨rfl, -⟩
    have hlookup : st.behind.lookupConstant d.name = st.lookupConstant d.name := rfl
    rw [hlookup]
    cases st.lookupConstant d.name with
    | some handle => exact ih.next fun _ => .pure rfl
    | none => exact .fail _ _

theorem lambdaType_parallel (params : List Ty) (id : FuncId) (wantsProc : Bool) :
    Parallel Eq (lambdaType params id wantsProc)
      (lambdaType params (Builtin.behind id) wantsProc) := by
  refine (func_parallel id).bind ?_
  rintro f _ ⟨rfl, -⟩
  exact .pure rfl

/-! ### Writing -/

theorem setStore_parallel {st : Store} (h : st.Discreet) :
    Parallel Eq (setStore st) (setStore st.behind) := .modify fun hs => hs.withStore h

theorem setType_alike (node : Nat) (type : Ty) : Alike (setType node type) := by
  refine Parallel.get.bind fun s s' hs => ?_
  unfold Resolution.setType
  rw [hs.types]
  by_cases hn : s.types.contains node = true
  · simp only [if_pos hn]
    exact .fault _ _
  · simp only [if_neg hn]
    exact .set { hs with types := rfl }

theorem link_parallel (node : Nat) (target : Link) :
    Parallel Eq (link node target) (link node target.behind) :=
  .modify fun hs => hs.link node target

theorem setScope_alike (node : Nat) (scope : ScopeId) : Alike (setScope node scope) :=
  .modify fun hs => hs.setScope node scope

theorem setProgress_alike (node : Nat) (p : Progress) : Alike (setProgress node p) :=
  .modify fun hs => { hs with progress := by rw [hs.progress] }

theorem setRet_parallel (id : FuncId) (type : Ty) :
    Parallel Eq (setRet id type) (setRet (Builtin.behind id) type) := by
  refine store_parallel.bind ?_
  rintro st _ ⟨rfl, hst⟩
  rw [Store.setRet?_behind]
  cases h : st.setRet? id type with
  | none => exact .pure rfl
  | some t =>
    obtain ⟨f, hf, -, rfl⟩ := Store.setRet?_eq_some h
    refine setStore_parallel fun g hg => ?_
    rcases Array.mem_or_eq_of_mem_setIfInBounds hg with hg | rfl
    · exact hst g hg
    · exact hst f (Array.mem_of_getElem? hf)

theorem openBlock_alike (parent : ScopeId) (node : Nat) : Alike (openBlock parent node) := by
  refine store_parallel.bind ?_
  rintro st _ ⟨rfl, hst⟩
  rw [Store.openBlock_behind]
  cases h : st.openBlock parent with
  | error f => exact .fault _ _
  | ok r =>
    have hr : r.2.Discreet := by
      unfold Store.Discreet
      rw [(Store.openBlock_eq_ok h).2.1]
      exact hst
    exact (setStore_parallel hr).next fun _ => (setScope_alike node r.1).next fun _ => .pure rfl

end Check

end Frontend
