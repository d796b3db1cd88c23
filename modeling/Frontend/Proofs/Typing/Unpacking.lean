import Frontend.Proofs.Analysis.Observation
import Frontend.Proofs.Types.Proper
import Frontend.Proofs.Typing.Hints

/-!
# Value lists and tuples

Several values for several targets may be written as one tuple. The type of a target is a hint for
its value; a tuple has a hint only if the types of all targets are known. So whatever is accepted as
a tuple is accepted as a list, with the same types, and the converse holds unless only some targets
have a type and a value of theirs needs it as a hint (`values_interchange`).
-/

namespace Frontend

/-- A state in which other types are known. -/
def AnalysisState.withTypes (s : AnalysisState) (types : Std.TreeMap Nat Ty) : AnalysisState :=
  { s with types }

/-- Two states side by side: the second one has a type for one more node. -/
structure AnalysisState.Beside (node : Nat) (s s' : AnalysisState) : Prop where
  eq : s' = s.withTypes s'.types
  others : ∀ n, n ≠ node → s'.types[n]? = s.types[n]?
  untyped : s.types[node]? = none
  typed : s'.types[node]?.isSome

namespace AnalysisState.Beside

variable {node : Nat} {s s' : AnalysisState}

theorem store (h : s.Beside node s') : s'.store = s.store := by
  rw [h.eq]
  rfl

theorem links (h : s.Beside node s') : s'.links = s.links := by
  rw [h.eq]
  rfl

/-- A state beside one is found by giving the node a type. -/
theorem insert (h : s.types[node]? = none) (type : Ty) :
    s.Beside node (s.withTypes (s.types.insert node type)) where
  eq := rfl
  others n hn := (getElem?_insert _ _ _ _).trans (if_neg (Ne.symm hn))
  untyped := h
  typed := by
    have hself : (s.types.insert node type)[node]? = some type :=
      (getElem?_insert _ _ _ _).trans (if_pos rfl)
    rw [withTypes, hself]
    rfl

/-- Another node may get its type in both. -/
theorem retype (h : s.Beside node s') {n : Nat} (hn : n ≠ node) (type : Ty) :
    (s.withTypes (s.types.insert n type)).Beside node
      (s'.withTypes (s'.types.insert n type)) where
  eq := by
    rw [h.eq]
    rfl
  others m hm := by
    have hm' := h.others m hm
    simp only [withTypes, getElem?_insert, hm']
  untyped := by
    have hnone := h.untyped
    simp only [withTypes, getElem?_insert, if_neg hn, hnone]
  typed := by
    have hsome := h.typed
    simp only [withTypes, getElem?_insert, if_neg hn, hsome]

end AnalysisState.Beside

namespace Check

variable {node : Nat} {α β : Type} {s t : AnalysisState}

/-- A node is given a type just once. -/
theorem setType_eq_ok {n : Nat} {type : Ty} :
    setType n type s = .ok () t ↔ s.types[n]? = none ∧ t = s.withTypes (s.types.insert n type) := by
  have hcontains := Std.TreeMap.contains_eq_isSome_getElem? (t := s.types) (a := n)
  rw [setType, run_bind_eq_ok]
  constructor
  · rintro ⟨_, _, ⟨⟩, hset⟩
    unfold Resolution.setType at hset
    rw [hcontains] at hset
    cases hn : s.types[n]? with
    | none =>
      rw [hn] at hset
      cases hset
      exact ⟨rfl, rfl⟩
    | some known =>
      rw [hn] at hset
      cases hset
  · rintro ⟨hn, rfl⟩
    refine ⟨s, s, rfl, ?_⟩
    unfold Resolution.setType
    rw [hcontains, hn]
    rfl

/-! ### Actions that overlook a node -/

/-- An action overlooks a node: it neither takes away its type nor asks for it, and goes the same
way whether it has one or not. -/
structure Overlooks (node : Nat) (act : Check α) : Prop where
  keeps : ∀ {s a t}, act s = .ok a t → t.types[node]? = none → s.types[node]? = none
  forth : ∀ {s s' a t}, s.Beside node s' → act s = .ok a t → t.types[node]? = none →
    ∃ t', act s' = .ok a t' ∧ t.Beside node t'
  back : ∀ {s s' a t'}, s.Beside node s' → act s' = .ok a t' →
    ∃ t, act s = .ok a t ∧ t.Beside node t'

namespace Overlooks

variable {act : Check α}

theorem pure (a : α) : Overlooks node (pure a) where
  keeps := by
    rintro s _ _ ⟨⟩ h
    exact h
  forth := by
    rintro s s' _ _ h ⟨⟩ -
    exact ⟨s', rfl, h⟩
  back := by
    rintro s s' _ _ h ⟨⟩
    exact ⟨s, rfl, h⟩

theorem throw (e : Failure) : Overlooks node (throw e : Check α) where
  keeps := by rintro _ _ _ ⟨⟩
  forth := by rintro _ _ _ _ _ ⟨⟩
  back := by rintro _ _ _ _ _ ⟨⟩

theorem bind {f : α → Check β} (h : Overlooks node act) (hf : ∀ a, Overlooks node (f a)) :
    Overlooks node (act >>= f) where
  keeps hrun hnone := by
    obtain ⟨a, u, hact, hrest⟩ := run_bind_eq_ok.mp hrun
    exact h.keeps hact ((hf a).keeps hrest hnone)
  forth hs hrun hnone := by
    obtain ⟨a, u, hact, hrest⟩ := run_bind_eq_ok.mp hrun
    obtain ⟨u', hact', hu⟩ := h.forth hs hact ((hf a).keeps hrest hnone)
    obtain ⟨t', hrest', ht⟩ := (hf a).forth hu hrest hnone
    exact ⟨t', run_bind_eq_ok.mpr ⟨a, u', hact', hrest'⟩, ht⟩
  back hs hrun := by
    obtain ⟨a, u', hact', hrest'⟩ := run_bind_eq_ok.mp hrun
    obtain ⟨u, hact, hu⟩ := h.back hs hact'
    obtain ⟨t, hrest, ht⟩ := (hf a).back hu hrest'
    exact ⟨t, run_bind_eq_ok.mpr ⟨a, u, hact, hrest⟩, ht⟩

/-- What is read of the state is the same on both sides. -/
theorem reading {f : AnalysisState → Check α}
    (hf : ∀ s, Overlooks node (f s)) (hsame : ∀ {s s'}, s.Beside node s' → f s' = f s) :
    Overlooks node (get >>= f) where
  keeps hrun := (hf _).keeps hrun
  forth {s s' _ _} hs hrun hnone := by
    obtain ⟨t', hrun', ht⟩ := (hf s).forth hs hrun hnone
    exact ⟨t', (congrFun (hsame hs) s').trans hrun', ht⟩
  back {s s' _ _} hs hrun := (hf s).back hs ((congrFun (hsame hs) s').symm.trans hrun)

theorem store : Overlooks node store :=
  reading (fun s => pure s.store) fun hs => congrArg Pure.pure hs.store

/-- A change of the state that has nothing to do with types. -/
theorem modify {f : AnalysisState → AnalysisState}
    (hf : ∀ s types, f (s.withTypes types) = (f s).withTypes types) :
    Overlooks node (modify f : Check Unit) := by
  have htypes : ∀ s, (f s).types = s.types := fun s => congrArg (·.types) (hf s s.types)
  have hbeside : ∀ {s s' : AnalysisState}, s.Beside node s' → (f s).Beside node (f s') := by
    intro s s' h
    refine ⟨?_, ?_, ?_, ?_⟩
    · rw [htypes s']
      exact (congrArg f h.eq).trans (hf s s'.types)
    · intro n hn
      rw [htypes, htypes]
      exact h.others n hn
    · rw [htypes]
      exact h.untyped
    · rw [htypes]
      exact h.typed
  refine ⟨?_, ?_, ?_⟩
  · rintro s _ _ ⟨⟩ hnone
    rwa [htypes] at hnone
  · rintro s s' _ _ h ⟨⟩ -
    exact ⟨f s', rfl, hbeside h⟩
  · rintro s s' _ _ h ⟨⟩
    exact ⟨f s, rfl, hbeside h⟩

theorem setType (n : Nat) (type : Ty) : Overlooks node (setType n type) where
  keeps hrun hnone := by
    obtain ⟨-, rfl⟩ := setType_eq_ok.mp hrun
    rw [AnalysisState.withTypes, getElem?_insert] at hnone
    split at hnone
    · cases hnone
    · exact hnone
  forth {s s' _ _} h hrun hnone := by
    obtain ⟨huntyped, rfl⟩ := setType_eq_ok.mp hrun
    have hn : n ≠ node := by
      rintro rfl
      rw [AnalysisState.withTypes, getElem?_insert, if_pos rfl] at hnone
      cases hnone
    exact ⟨_, setType_eq_ok.mpr ⟨(h.others n hn).trans huntyped, rfl⟩, h.retype hn type⟩
  back {s s' _ _} h hrun := by
    obtain ⟨huntyped, rfl⟩ := setType_eq_ok.mp hrun
    have hn : n ≠ node := by
      rintro rfl
      have htyped := h.typed
      rw [huntyped] at htyped
      cases htyped
    exact ⟨_, setType_eq_ok.mpr ⟨(h.others n hn).symm.trans huntyped, rfl⟩, h.retype hn type⟩

end Overlooks

/-! ### What is done with the types of values -/

theorem expectType_overlooks (expected received : Ty) (position : Position) :
    Overlooks node (expectType expected received position) := by
  unfold expectType
  split
  · exact .pure ()
  · exact .throw _

theorem expectTypeIf_overlooks (expected : Option Ty) (received : Ty) (position : Position) :
    Overlooks node (expectTypeIf expected received position) := by
  cases expected with
  | none => exact .pure ()
  | some expected => exact expectType_overlooks expected received position

theorem setStore_overlooks (store : Store) : Overlooks node (setStore store) :=
  .modify fun _ _ => rfl

theorem setProgress_overlooks (definition : Nat) (progress : Progress) :
    Overlooks node (setProgress definition progress) := .modify fun _ _ => rfl

theorem link_overlooks (n : Nat) (target : Link) : Overlooks node (link n target) := by
  refine .modify fun s types => ?_
  unfold Resolution.link AnalysisState.withTypes
  split <;> rfl

theorem declareVar_overlooks (scope : ScopeId) (info : NodeInfo) (name : String) (type : Ty)
    (isVar : Bool) : Overlooks node (declareVar scope info name type isVar) := by
  unfold declareVar
  split
  · exact .pure ()
  · refine .bind ?_ fun handle => link_overlooks info.id _
    unfold defineLocal
    refine .bind .store fun store => ?_
    split
    · exact .throw _
    · split
      · exact .bind (setStore_overlooks _) fun _ => .pure _
      · exact .throw _

theorem declareVars_overlooks (scope : ScopeId) (decls : List VarDecl)
    (explicit : List (Option Ty)) (types : List Ty) :
    Overlooks node (declareVars scope decls explicit types) := by
  induction decls, explicit, types using declareVars.induct with
  | case1 d decls expected explicit type types ih =>
    exact .bind (expectTypeIf_overlooks _ _ _) fun _ =>
      .bind (declareVar_overlooks _ _ _ _ _) fun _ => ih
  | case2 decls explicit types hnone =>
    rw [declareVars]
    · exact .pure ()
    · exact hnone

theorem checkAssignable_overlooks (target : Expr) : Overlooks node (checkAssignable target) := by
  unfold checkAssignable
  split
  · exact .pure ()
  · exact .pure ()
  · refine .reading (fun s => ?_) fun hs => ?_
    · dsimp only
      split <;> split
      · exact .pure ()
      · exact .throw _
      · exact .pure ()
      · exact .throw _
    · rw [hs.links, hs.store]
  · exact .throw _

theorem assignTargets_overlooks (ts : List Expr) (hints : List (Option Ty)) (types : List Ty) :
    Overlooks node (assignTargets ts hints types) := by
  induction ts, hints, types using assignTargets.induct with
  | case1 target targets expected hints type types ih =>
    refine .bind ?_ fun _ => ih
    cases expected with
    | none => exact .setType _ _
    | some expected =>
      exact .bind (expectType_overlooks _ _ _) fun _ => checkAssignable_overlooks target
  | case2 ts hints types hnone =>
    rw [assignTargets]
    · exact .pure ()
    · exact hnone

theorem assignConstant_overlooks (handle : VarHandle) (type : Ty) (position : Position) :
    Overlooks node (assignConstant handle type position) := by
  refine .bind (.bind .store fun _ => .pure _) fun known => ?_
  split
  · exact expectType_overlooks _ _ _
  · exact .modify fun _ _ => rfl
  · exact .pure ()

theorem assignConstants_overlooks (decls : List ConstDecl) (handles : List VarHandle)
    (types : List Ty) : Overlooks node (assignConstants decls handles types) := by
  induction decls, handles, types using assignConstants.induct with
  | case1 d decls handle handles type types ih =>
    exact .bind (assignConstant_overlooks _ _ _) fun _ => ih
  | case2 decls handles types hnone =>
    rw [assignConstants]
    · exact .pure ()
    · exact hnone

theorem func_overlooks (id : FuncId) : Overlooks node (func id) := by
  refine .bind .store fun store => ?_
  split
  · exact .pure _
  · exact .throw _

theorem returnType_overlooks (id : FuncId) (type : Ty) (position : Position) :
    Overlooks node (returnType id type position) := by
  refine .bind (func_overlooks id) fun f => ?_
  split
  · split
    · exact .pure ()
    · exact .throw _
  · split
    · exact expectType_overlooks _ _ _
    · refine .bind .store fun store => ?_
      split
      · exact setStore_overlooks _
      · exact .pure ()

/-! ### What the types of values must be -/

/-- Values have the types that are known of their targets. -/
def Fits : List (Option Ty) → List Ty → Prop
  | hint :: hints, type :: types => (hint = none ∨ hint = some type) ∧ Fits hints types
  | _, _ => True

/-- Hints that fit do no harm. -/
theorem Fits.allHarmless {hints : List (Option Ty)} {types : List Ty} (h : Fits hints types)
    (es : List Expr) : AllHarmless es hints types := by
  induction es generalizing hints types with
  | nil => trivial
  | cons e rest ih =>
    match hints, types, h with
    | _, [], _ => trivial
    | [], type :: types, _ => exact allHarmless_none (e :: rest) (type :: types)
    | hint :: hints, type :: types, h => exact ⟨h.1.imp_right .inl, ih h.2⟩

/-- Where types are compared, they are equal. -/
theorem expectType_eq_ok {expected received : Ty} {position : Position}
    (h : expectType expected received position s = .ok () t) : expected = received := by
  unfold expectType at h
  split at h
  · next heq => exact heq
  · cases h

theorem declareVars_fits {scope : ScopeId} {decls : List VarDecl} {explicit : List (Option Ty)}
    {types : List Ty} (hlength : explicit.length = decls.length)
    (h : declareVars scope decls explicit types s = .ok () t) : Fits explicit types := by
  induction decls generalizing explicit types s with
  | nil =>
    rw [List.length_eq_zero_iff.mp hlength]
    trivial
  | cons d rest ih =>
    match explicit, types, hlength with
    | _ :: _, [], _ => trivial
    | expected :: explicit, type :: types, hlength =>
      rw [declareVars] at h
      obtain ⟨_, u, hexpected, h⟩ := run_bind_eq_ok.mp h
      obtain ⟨_, v, -, hrest⟩ := run_bind_eq_ok.mp h
      refine ⟨?_, ih (Nat.succ.inj hlength) hrest⟩
      cases expected with
      | none => exact .inl rfl
      | some expected => exact .inr (congrArg some (expectType_eq_ok hexpected))

theorem assignTargets_fits {ts : List Expr} {hints : List (Option Ty)} {types : List Ty}
    (hlength : hints.length = ts.length) (h : assignTargets ts hints types s = .ok () t) :
    Fits hints types := by
  induction ts generalizing hints types s with
  | nil =>
    rw [List.length_eq_zero_iff.mp hlength]
    trivial
  | cons target rest ih =>
    match hints, types, hlength with
    | _ :: _, [], _ => trivial
    | expected :: hints, type :: types, hlength =>
      rw [assignTargets] at h
      obtain ⟨_, u, htarget, hrest⟩ := run_bind_eq_ok.mp h
      refine ⟨?_, ih (Nat.succ.inj hlength) hrest⟩
      cases expected with
      | none => exact .inl rfl
      | some expected =>
        obtain ⟨_, v, hexpected, -⟩ := run_bind_eq_ok.mp htarget
        exact .inr (congrArg some (expectType_eq_ok hexpected))

/-- The type of the variable under a handle, if it is known. -/
def knownType (store : Store) (handle : VarHandle) : Option Ty :=
  (store.var? handle).bind (·.type)

theorem knownType_keeps {store store' : Store} (h : store.KeepsConstants store') {i : Nat}
    {type : Ty} (ht : knownType store (.constant i) = some type) :
    knownType store' (.constant i) = some type := by
  obtain ⟨v, hv, hvtype⟩ := Option.bind_eq_some_iff.mp ht
  obtain ⟨w, hw, hvw⟩ := h hv
  exact Option.bind_eq_some_iff.mpr ⟨w, hw, hvw.type hvtype⟩

theorem typeOf?_eq (handle : VarHandle) (s : AnalysisState) :
    typeOf? handle s = .ok (knownType s.store handle) s := rfl

/-- The type of a value for a constant is the one that is known of the constant. -/
theorem assignConstant_eq_ok {handle : VarHandle} {type : Ty} {position : Position}
    (h : assignConstant handle type position s = .ok () t) :
    knownType s.store handle = none ∨ knownType s.store handle = some type := by
  obtain ⟨known, u, hknown, h⟩ := run_bind_eq_ok.mp h
  rw [typeOf?_eq] at hknown
  cases hknown
  cases hknown : knownType s.store handle with
  | none => exact .inl rfl
  | some expected =>
    rw [hknown] at h
    exact .inr (congrArg some (expectType_eq_ok h))

theorem assignConstants_fits {decls : List ConstDecl} {handles : List VarHandle}
    {types : List Ty} {store : Store} (hkeeps : store.KeepsConstants s.store)
    (hconstants : ∀ handle ∈ handles, ∃ i, handle = .constant i)
    (hlength : handles.length = decls.length)
    (h : assignConstants decls handles types s = .ok () t) :
    Fits (handles.map (knownType store)) types := by
  induction decls generalizing handles types s with
  | nil =>
    rw [List.length_eq_zero_iff.mp hlength]
    trivial
  | cons d rest ih =>
    match handles, types, hlength with
    | _ :: _, [], _ => trivial
    | handle :: handles, type :: types, hlength =>
      rw [List.forall_mem_cons] at hconstants
      rw [assignConstants] at h
      obtain ⟨_, u, hassign, hrest⟩ := run_bind_eq_ok.mp h
      have hsu := ((assignConstant_quiet handle type s).of_ok hassign).constants
      refine ⟨?_, ih (hkeeps.trans hsu) hconstants.2 (Nat.succ.inj hlength) hrest⟩
      obtain ⟨i, rfl⟩ := hconstants.1
      cases hknown : knownType store (.constant i) with
      | none => exact .inl rfl
      | some known =>
        have hnow := assignConstant_eq_ok hassign
        rw [knownType_keeps hkeeps hknown] at hnow
        exact .inr (hnow.resolve_left nofun)

/-- Nobody takes notice of what is analysed, and the known types of constants stay known. -/
structure Unobserved (w : Demand) : Prop where
  visit : ∀ v, w.visit v = pure ()
  constants : ∀ {scope : ScopeId} {hints : List (Option Ty)} {es : List Expr}
    {s t : AnalysisState} {types : List Ty}, exprs w scope hints es s = .ok types t →
      s.store.KeepsConstants t.store

theorem demandAt_unobserved (p : Program) (depth : Nat) (stack : List Nat) :
    Unobserved (demandAt p .silent depth stack) where
  visit v := by cases depth <;> rfl
  constants {scope hints es s t types} h := by
    have hsilent : Observer.silent = .looking .content := rfl
    rw [hsilent] at h
    have hlogged : Logged fun look => exprs (demandAt p (.looking look) depth stack) scope hints es :=
      exprs_logged (exprs_all_logged (demandAt_logged p depth stack) es) hints
    obtain ⟨log, -, htrail⟩ := (hlogged s).recorded
    rw [h] at htrail
    exact htrail.keeps.constants

/-! ### Values as a tuple -/

section

variable {w : Demand} {scope : ScopeId} {info : NodeInfo} {es : List Expr}
  {hints : List (Option Ty)}

/-- Where nobody takes notice, a visit is what is done in it. -/
theorem visiting_silent (hw : Unobserved w) (n : Nat) (act : Check α) :
    visiting w n act = act := by
  simp [visiting, hw.visit]

/-- A tuple has a type just if its elements have, and then its node has got that type. -/
theorem expr_tuple_eq_ok (hw : Unobserved w) {hint : Option Ty} {type : Ty} :
    expr w scope hint (.tuple info es) s = .ok type t ↔ ∃ types u,
      exprs w scope (tupleHints hint es.length) es s = .ok types u ∧ u.types[info.id]? = none ∧
        type = .tuple types ∧ t = u.withTypes (u.types.insert info.id type) := by
  have htuple : expr w scope hint (.tuple info es) = do
      let type ← (do
        let types ← exprs w scope (tupleHints hint es.length) es
        return .tuple types)
      setType info.id type
      return type := by
    rw [expr.eq_def]
    exact visiting_silent hw _ _
  rw [htuple]
  constructor
  · intro h
    obtain ⟨_, u, helems, h⟩ := run_bind_eq_ok.mp h
    obtain ⟨types, _, helems, hpure⟩ := run_bind_eq_ok.mp helems
    cases hpure
    obtain ⟨_, v, hset, hpure⟩ := run_bind_eq_ok.mp h
    cases hpure
    obtain ⟨hnone, rfl⟩ := setType_eq_ok.mp hset
    exact ⟨types, u, helems, hnone, rfl, rfl⟩
  · rintro ⟨types, u, helems, hnone, rfl, rfl⟩
    have htype : setType info.id (.tuple types) u =
        .ok () (u.withTypes (u.types.insert info.id (.tuple types))) :=
      setType_eq_ok.mpr ⟨hnone, rfl⟩
    exact run_bind_eq_ok.mpr ⟨_, u, run_bind_eq_ok.mpr ⟨types, u, helems, rfl⟩,
      run_bind_eq_ok.mpr ⟨(), _, htype, rfl⟩⟩

/-- The elements of a tuple for several targets have the types of the targets as hints, or none. -/
theorem tupleHints_joinHints (hlength : es.length = hints.length) :
    tupleHints (joinHints hints) es.length = hints ∨
      tupleHints (joinHints hints) es.length = [] := by
  cases htypes : hints.mapM id with
  | some types =>
    have hsome := mapM_id_eq_some htypes
    have hcount : types.length = es.length := by
      rw [hlength, hsome, List.length_map]
    rw [joinHints, htypes, hsome]
    exact .inl (if_pos hcount)
  | none =>
    rw [joinHints, htypes]
    exact .inr rfl

theorem joinHints_some (types : List Ty) : joinHints (types.map some) = some (.tuple types) := by
  have hall : (types.map some).mapM id = some types := by
    induction types with
    | nil => rfl
    | cons type rest ih => simp only [List.map_cons, List.mapM_cons, ih]; rfl
  rw [joinHints, hall]
  rfl

/-- If the types of all targets are known, the elements have them as hints. -/
theorem tupleHints_known (hlength : es.length = hints.length)
    (hall : ∀ hint ∈ hints, hint.isSome) :
    tupleHints (joinHints hints) es.length = hints := by
  obtain ⟨types, rfl⟩ : ∃ types : List Ty, hints = types.map some := by
    refine ⟨hints.filterMap id, ?_⟩
    clear hlength
    induction hints with
    | nil => rfl
    | cons hint rest ih =>
      rw [List.forall_mem_cons] at hall
      obtain ⟨type, rfl⟩ := Option.isSome_iff_exists.mp hall.1
      rw [List.filterMap_cons_some (f := id) rfl, List.map_cons, ← ih hall.2]
  rw [List.length_map] at hlength
  rw [joinHints_some]
  exact if_pos hlength.symm

/-- As many values as targets are taken one by one. -/
theorem values_list {position : Position} (hlength : es.length = hints.length) (hsome : es ≠ []) :
    values w scope hints position es = exprs w scope hints es := by
  cases es with
  | nil => exact absurd rfl hsome
  | cons e rest =>
    have hcount : rest.length + 1 = hints.length := hlength
    rw [values, if_pos hcount, exprs]

/-- A tuple for several targets is taken apart. -/
theorem values_tuple (hw : Unobserved w) (position : Position)
    (hlength : es.length = hints.length) (htwo : 2 ≤ es.length) {types : List Ty} :
    values w scope hints position [.tuple info es] s = .ok types t ↔ ∃ u,
      exprs w scope (tupleHints (joinHints hints) es.length) es s = .ok types u ∧
        u.types[info.id]? = none ∧ t = u.withTypes (u.types.insert info.id (.tuple types)) := by
  have hvalues : values w scope hints position [.tuple info es] = (do
      let type ← expr w scope (joinHints hints) (.tuple info es)
      takeApart hints.length type info.span.start) := by
    have hone : ¬ ([] : List Expr).length + 1 = hints.length := by
      rw [← hlength, List.length_nil]
      omega
    rw [values, if_neg hone]
    rfl
  rw [hvalues]
  constructor
  · intro h
    obtain ⟨_, _, htuple, happart⟩ := run_bind_eq_ok.mp h
    obtain ⟨types, u, helems, hnone, rfl, rfl⟩ := (expr_tuple_eq_ok hw).mp htuple
    have hcount : types.length = hints.length := (exprs_length helems).trans hlength
    rw [takeApart, if_pos hcount] at happart
    cases happart
    exact ⟨u, helems, hnone, rfl⟩
  · rintro ⟨u, helems, hnone, rfl⟩
    have hcount : types.length = hints.length := (exprs_length helems).trans hlength
    have htuple := (expr_tuple_eq_ok hw).mpr ⟨types, u, helems, hnone, rfl, rfl⟩
    have happart : takeApart hints.length (.tuple types) info.span.start = pure types :=
      if_pos hcount
    exact run_bind_eq_ok.mpr ⟨_, _, htuple, by rw [happart]; rfl⟩

end

/-! ### The two forms side by side -/

/-- The types of targets are still at hand for values in a tuple: all of them are known, or none
that is known is needed. -/
def Joinable {τ : Type} (hints : List (Option τ)) (es : List Expr) : Prop :=
  (∀ hint ∈ hints, hint.isSome) ∨ Unneeded hints es

/-- Values as a list and as a tuple. Where the tuple is accepted, so is the list, and where
`joinable` holds, also the other way round; the results are the same, and so is all that is known
in the end, but for the type of the tuple itself. -/
structure Interchange (node : Nat) (joinable : Prop) (list tuple : Check α) (s : AnalysisState) :
    Prop where
  unpack : ∀ {a t'}, tuple s = .ok a t' → ∃ t, list s = .ok a t ∧ t.Beside node t'
  pack : joinable → ∀ {a t}, list s = .ok a t → t.types[node]? = none →
    ∃ t', tuple s = .ok a t' ∧ t.Beside node t'

namespace Interchange

variable {joinable : Prop} {w : Demand} {scope : ScopeId} {info : NodeInfo} {es : List Expr}
  {hints : List (Option Ty)}

/-- Both forms begin in the same way. -/
theorem after {act : Check α} {list tuple : α → Check β}
    (h : ∀ a u, act s = .ok a u → Interchange node joinable (list a) (tuple a) u) :
    Interchange node joinable (act >>= list) (act >>= tuple) s where
  unpack hrun := by
    obtain ⟨a, u, hact, hrest⟩ := run_bind_eq_ok.mp hrun
    obtain ⟨t, hlist, ht⟩ := (h a u hact).unpack hrest
    exact ⟨t, run_bind_eq_ok.mpr ⟨a, u, hact, hlist⟩, ht⟩
  pack hjoin _ _ hrun hnone := by
    obtain ⟨a, u, hact, hrest⟩ := run_bind_eq_ok.mp hrun
    obtain ⟨t', htuple, ht⟩ := (h a u hact).pack hjoin hrest hnone
    exact ⟨t', run_bind_eq_ok.mpr ⟨a, u, hact, htuple⟩, ht⟩

/-- Both forms end in the same way. -/
theorem before {list tuple : Check α} {rest : α → Check β}
    (h : Interchange node joinable list tuple s) (hrest : ∀ a, Overlooks node (rest a)) :
    Interchange node joinable (list >>= rest) (tuple >>= rest) s where
  unpack hrun := by
    obtain ⟨a, u', htuple, hrest'⟩ := run_bind_eq_ok.mp hrun
    obtain ⟨u, hlist, hu⟩ := h.unpack htuple
    obtain ⟨t, hend, ht⟩ := (hrest a).back hu hrest'
    exact ⟨t, run_bind_eq_ok.mpr ⟨a, u, hlist, hend⟩, ht⟩
  pack hjoin _ _ hrun hnone := by
    obtain ⟨a, u, hlist, hend⟩ := run_bind_eq_ok.mp hrun
    obtain ⟨u', htuple, hu⟩ := h.pack hjoin hlist ((hrest a).keeps hend hnone)
    obtain ⟨t', hrest', ht⟩ := (hrest a).forth hu hend hnone
    exact ⟨t', run_bind_eq_ok.mpr ⟨a, u', htuple, hrest'⟩, ht⟩

/-- Both forms are refused at once. -/
theorem refused {cause cause' : Cause} {position position' : Position} :
    Interchange node joinable (Check.fail cause position : Check α) (Check.fail cause' position')
      s where
  unpack h := by cases h
  pack _ _ _ h := by cases h

theorem imp {joinable' : Prop} {list tuple : Check α}
    (h : Interchange node joinable list tuple s) (himp : joinable' → joinable) :
    Interchange node joinable' list tuple s := ⟨h.unpack, fun hjoin => h.pack (himp hjoin)⟩

/-- Values for targets, whose types must be those of the targets where these are known. -/
theorem values (hw : Unobserved w) (hlength : es.length = hints.length)
    (htwo : 2 ≤ es.length) {position : Position} {rest : List Ty → Check Unit}
    (hrest : ∀ types, Overlooks info.id (rest types))
    (hfits : ∀ {types u t}, s.store.KeepsConstants u.store → rest types u = .ok () t →
      Fits hints types) :
    Interchange info.id (Joinable hints es) (Check.values w scope hints position es >>= rest)
      (Check.values w scope hints position [.tuple info es] >>= rest) s where
  unpack hrun := by
    obtain ⟨types, _, htuple, hend'⟩ := run_bind_eq_ok.mp hrun
    obtain ⟨u, helems, hnone, rfl⟩ := (values_tuple hw position hlength htwo).mp htuple
    obtain ⟨t, hend, ht⟩ := (hrest types).back (.insert hnone _) hend'
    have hlist : exprs w scope hints es s = .ok types u := by
      rcases tupleHints_joinHints hlength with hsame | hempty
      · rwa [hsame] at helems
      · rw [hempty] at helems
        have hfit := hfits (hw.constants helems) hend
        exact exprs_repeats w scope es hints types (hfit.allHarmless es) s u helems
    rw [← values_list hlength (List.ne_nil_of_length_pos (by omega))] at hlist
    exact ⟨t, run_bind_eq_ok.mpr ⟨types, u, hlist, hend⟩, ht⟩
  pack hjoin _ _ hrun hnone := by
    obtain ⟨types, u, hlist, hend⟩ := run_bind_eq_ok.mp hrun
    rw [values_list hlength (List.ne_nil_of_length_pos (by omega))] at hlist
    have hbefore : u.types[info.id]? = none := (hrest types).keeps hend hnone
    have helems : exprs w scope (tupleHints (joinHints hints) es.length) es s = .ok types u := by
      rcases hjoin with hknown | hunneeded
      · rwa [tupleHints_known hlength hknown]
      · rcases tupleHints_joinHints hlength with hsame | hempty
        · rwa [hsame]
        · rwa [hempty, ← exprs_unneeded w scope hunneeded]
    have htuple := (values_tuple hw position hlength htwo).mpr ⟨u, helems, hbefore, rfl⟩
    obtain ⟨t', hend', ht⟩ := (hrest types).forth (.insert hbefore _) hend hnone
    exact ⟨t', run_bind_eq_ok.mpr ⟨types, _, htuple, hend'⟩, ht⟩

/-- The hints for the elements of a tuple that is returned are those for a list. -/
theorem tupleHints_returnHints (ret : Option Ty) {count : Nat} (htwo : 2 ≤ count) :
    tupleHints ((returnHints ret 1).headD none) count = returnHints ret count := by
  have hmany : count ≠ 1 := by omega
  have hone : 1 < count := htwo
  cases ret with
  | none => rfl
  | some type =>
    have hhead : (returnHints (some type) 1).headD none = some type := by simp [returnHints]
    rw [hhead]
    cases type with
    | tuple types =>
      by_cases hcount : types.length = count <;>
        simp [tupleHints, returnHints, hcount, hone]
    | _ => simp [tupleHints, returnHints, hmany]

theorem exprs_one {hints : List (Option Ty)} {e : Expr} {types : List Ty} :
    exprs w scope hints [e] s = .ok types t ↔
      ∃ type, expr w scope (hints.headD none) e s = .ok type t ∧ types = [type] := by
  rw [exprs, exprs]
  constructor
  · intro h
    obtain ⟨type, u, he, hpure⟩ := run_bind_eq_ok.mp h
    cases hpure
    exact ⟨type, he, rfl⟩
  · rintro ⟨type, he, rfl⟩
    exact run_bind_eq_ok.mpr ⟨type, t, he, rfl⟩

theorem joinTypes_tuple {types : List Ty} (htwo : 2 ≤ types.length) :
    joinTypes types = .tuple types := by
  match types, htwo with
  | _ :: _ :: _, _ => rfl

/-- Values that are returned. -/
theorem returned (hw : Unobserved w) (htwo : 2 ≤ es.length) (ret : Option Ty)
    (id : FuncId) (position : Position) : Interchange info.id True
      (do
        let types ← exprs w scope (returnHints ret es.length) es
        returnType id (joinTypes types) position)
      (do
        let types ← exprs w scope (returnHints ret 1) [.tuple info es]
        returnType id (joinTypes types) position) s where
  unpack hrun := by
    obtain ⟨_, _, hone, hend'⟩ := run_bind_eq_ok.mp hrun
    obtain ⟨type, htuple, rfl⟩ := exprs_one.mp hone
    obtain ⟨types, u, helems, hnone, rfl, rfl⟩ := (expr_tuple_eq_ok hw).mp htuple
    rw [tupleHints_returnHints ret htwo] at helems
    have hcount : 2 ≤ types.length := (exprs_length helems).symm ▸ htwo
    obtain ⟨t, hend, ht⟩ := (returnType_overlooks id _ position).back (.insert hnone _) hend'
    rw [joinTypes, ← joinTypes_tuple hcount] at hend
    exact ⟨t, run_bind_eq_ok.mpr ⟨types, u, helems, hend⟩, ht⟩
  pack _ _ _ hrun hnone := by
    obtain ⟨types, u, helems, hend⟩ := run_bind_eq_ok.mp hrun
    have hcount : 2 ≤ types.length := (exprs_length helems).symm ▸ htwo
    rw [joinTypes_tuple hcount] at hend
    rw [← tupleHints_returnHints ret htwo] at helems
    have hbefore : u.types[info.id]? = none :=
      (returnType_overlooks id _ position).keeps hend hnone
    have htuple := (expr_tuple_eq_ok hw).mpr ⟨types, u, helems, hbefore, rfl, rfl⟩
    obtain ⟨t', hend', ht⟩ :=
      (returnType_overlooks id _ position).forth (.insert hbefore _) hend hnone
    exact ⟨t', run_bind_eq_ok.mpr ⟨_, _, exprs_one.mpr ⟨_, htuple, rfl⟩, hend'⟩, ht⟩

end Interchange

/-! ### Statements -/

variable {w : Demand} {es : List Expr}

/-- A return statement. -/
theorem ret_interchange (hw : Unobserved w) (htwo : 2 ≤ es.length) (scope : ScopeId)
    (node info : NodeInfo) (s : AnalysisState) : Interchange node.id True
      (stmt w scope (.ret info es)) (stmt w scope (.ret info [.tuple node es])) s := by
  rw [stmt, visiting_silent hw, stmt, visiting_silent hw]
  refine .after fun current u _ => ?_
  cases current with
  | none => exact .refused
  | some current => exact .returned hw htwo _ _ _

theorem length_mapM {f : α → Check β} {as : List α} {bs : List β} (h : as.mapM f s = .ok bs t) :
    bs.length = as.length := by
  induction as generalizing bs s with
  | nil =>
    cases h
    rfl
  | cons a rest ih =>
    rw [List.mapM_cons] at h
    obtain ⟨b, u, -, h⟩ := run_bind_eq_ok.mp h
    obtain ⟨others, v, hrest, hpure⟩ := run_bind_eq_ok.mp h
    cases hpure
    exact congrArg Nat.succ (ih hrest)

theorem denoted?_isSome {annot : Option TypeExpr} {hint : Option Ty}
    (h : denoted? annot s = .ok hint t) : hint.isSome = annot.isSome := by
  cases annot with
  | none =>
    cases h
    rfl
  | some annot =>
    obtain ⟨type, u, -, hpure⟩ := run_bind_eq_ok.mp h
    cases hpure
    rfl

/-- What an annotation says is known just if there is one. -/
theorem denoted?_known {decls : List VarDecl} {explicit : List (Option Ty)}
    (h : decls.mapM (fun d => denoted? d.type) s = .ok explicit t) :
    (decls.map (·.type)).map Option.isSome = explicit.map Option.isSome := by
  induction decls generalizing explicit s with
  | nil =>
    cases h
    rfl
  | cons d rest ih =>
    rw [List.mapM_cons] at h
    obtain ⟨hint, u, hhint, h⟩ := run_bind_eq_ok.mp h
    obtain ⟨hints, v, hrest, hpure⟩ := run_bind_eq_ok.mp h
    cases hpure
    simp only [List.map_cons, ih hrest, denoted?_isSome hhint]

/-- Whether hints can be joined depends only on where there are hints. -/
theorem Joinable.congr {τ : Type} {hints : List (Option τ)} {hints' : List (Option β)}
    (hsome : hints.map Option.isSome = hints'.map Option.isSome) (h : Joinable hints es) :
    Joinable hints' es := by
  refine h.imp (fun hall hint hmem => ?_) fun hunneeded => hunneeded.congr hsome
  have hin : hint.isSome ∈ hints.map Option.isSome := hsome ▸ List.mem_map_of_mem hmem
  obtain ⟨known, hknown, heq⟩ := List.mem_map.mp hin
  rw [← heq]
  exact hall known hknown

/-- An initialize statement. -/
theorem init_interchange (hw : Unobserved w) (htwo : 2 ≤ es.length) (scope : ScopeId)
    (node info : NodeInfo) {decls : List VarDecl} (hlength : decls.length = es.length)
    (s : AnalysisState) : Interchange node.id (Joinable (decls.map (·.type)) es)
      (stmt w scope (.init ⟨info, decls, es⟩))
      (stmt w scope (.init ⟨info, decls, [.tuple node es]⟩)) s := by
  have hinit : ∀ es, es ≠ [] → stmt w scope (.init ⟨info, decls, es⟩) = (do
      let explicit ← decls.mapM fun d => denoted? d.type
      let types ← values w scope explicit info.span.start es
      declareVars scope decls explicit types) := fun es hes => by
    rw [stmt_init, visiting_silent hw, initStmt, List.isEmpty_eq_false_iff.mpr hes]
    rfl
  rw [hinit es (List.ne_nil_of_length_pos (by omega)), hinit _ (List.cons_ne_nil _ _)]
  refine .after fun explicit u hexplicit => ?_
  have hcount : explicit.length = decls.length := length_mapM hexplicit
  refine .imp (.values hw (hcount.trans hlength).symm htwo ?_ ?_) fun hjoin =>
    hjoin.congr (denoted?_known hexplicit)
  · exact fun types => declareVars_overlooks scope decls explicit types
  · exact fun _ h => declareVars_fits hcount h

theorem targets_length {scope : ScopeId} {ts : List Expr} {hints : List (Option Ty)}
    (h : targets w scope ts s = .ok hints t) : hints.length = ts.length := by
  induction ts generalizing hints s with
  | nil =>
    rw [targets] at h
    cases h
    rfl
  | cons target rest ih =>
    rw [targets] at h
    obtain ⟨_, _, -, h⟩ := run_bind_eq_ok.mp h
    obtain ⟨hint, _, -, h⟩ := run_bind_eq_ok.mp h
    obtain ⟨hints, _, hrest, hpure⟩ := run_bind_eq_ok.mp h
    cases hpure
    exact congrArg Nat.succ (ih hrest)

/-- A plain assignment. -/
theorem assign_interchange (hw : Unobserved w) (htwo : 2 ≤ es.length)
    (scope : ScopeId) (node info : NodeInfo) {ts : List Expr} (hlength : ts.length = es.length)
    (s : AnalysisState) : Interchange node.id
      (∀ hints u, targets w scope ts s = .ok hints u → Joinable hints es)
      (stmt w scope (.assign info ts none es))
      (stmt w scope (.assign info ts none [.tuple node es])) s := by
  have hassign : ∀ es, stmt w scope (.assign info ts none es) = (do
      let hints ← targets w scope ts
      let types ← values w scope hints info.span.start es
      assignTargets ts hints types) := fun es => by
    rw [stmt, visiting_silent hw]
  rw [hassign, hassign]
  refine .after fun hints u hhints => ?_
  have hcount : hints.length = ts.length := targets_length hhints
  refine .imp (.values hw (hcount.trans hlength).symm htwo ?_ ?_) fun hjoin =>
    hjoin hints u hhints
  · exact fun types => assignTargets_overlooks ts hints types
  · exact fun _ h => assignTargets_fits hcount h

/-- The handles of constants are found by their names. -/
theorem constantHandles_eq_ok {decls : List ConstDecl} {handles : List VarHandle}
    (h : constantHandles decls s = .ok handles t) :
    t = s ∧ decls.map (fun d => s.store.lookupConstant d.name) = handles.map some := by
  induction decls generalizing handles with
  | nil =>
    cases h
    exact ⟨rfl, rfl⟩
  | cons d rest ih =>
    rw [constantHandles] at h
    obtain ⟨_, _, hstore, h⟩ := run_bind_eq_ok.mp h
    cases hstore
    cases hfound : s.store.lookupConstant d.name with
    | some handle =>
      rw [hfound] at h
      obtain ⟨handles, u, hrest, hpure⟩ := run_bind_eq_ok.mp h
      cases hpure
      obtain ⟨rfl, hmap⟩ := ih hrest
      exact ⟨rfl, by rw [List.map_cons, List.map_cons, hfound, hmap]⟩
    | none =>
      rw [hfound] at h
      cases h

theorem mapM_typeOf? (handles : List VarHandle) (s : AnalysisState) :
    handles.mapM typeOf? s = .ok (handles.map (knownType s.store)) s := by
  induction handles with
  | nil => rfl
  | cons handle rest ih =>
    rw [List.mapM_cons]
    exact run_bind_eq_ok.mpr ⟨_, s, typeOf?_eq handle s, run_bind_eq_ok.mpr ⟨_, s, ih, rfl⟩⟩

/-- A constant definition. -/
theorem constants_interchange (hw : Unobserved w) (htwo : 2 ≤ es.length)
    (node info : NodeInfo) {decls : List ConstDecl} (hlength : decls.length = es.length)
    (s : AnalysisState) : Interchange node.id
      (Joinable (decls.map fun d => (s.store.lookupConstant d.name).bind (knownType s.store)) es)
      (constants w ⟨info, decls, es⟩) (constants w ⟨info, decls, [.tuple node es]⟩) s := by
  have hconstants : ∀ es, constants w ⟨info, decls, es⟩ = (do
      setProgress info.id .inProgress
      (do
        let handles ← constantHandles decls
        let hints ← handles.mapM typeOf?
        let types ← values w Store.globalScope hints info.span.start es
        assignConstants decls handles types)
      setProgress info.id .done) := fun es => by
    simp [constants, analysing, hw.visit]
  rw [hconstants, hconstants]
  refine .after fun _ u hu => .before (.after fun handles v hhandles =>
    .after fun hints x hhints => ?_) fun _ => setProgress_overlooks _ _
  have hstore : u.store = s.store := by
    cases hu
    rfl
  obtain ⟨rfl, hmap⟩ := constantHandles_eq_ok hhandles
  rw [mapM_typeOf?] at hhints
  cases hhints
  rw [hstore] at hmap
  have hcount : handles.length = decls.length := by
    have hlengths := congrArg List.length hmap
    rw [List.length_map, List.length_map] at hlengths
    exact hlengths.symm
  have hconstant : ∀ handle ∈ handles, ∃ i, handle = .constant i := by
    intro handle hmem
    have hsome : some handle ∈ handles.map some := List.mem_map_of_mem hmem
    rw [← hmap] at hsome
    obtain ⟨d, -, hd⟩ := List.mem_map.mp hsome
    obtain ⟨i, -, hi⟩ := Option.map_eq_some_iff.mp hd
    exact ⟨i, hi.symm⟩
  have hknown : decls.map (fun d => (s.store.lookupConstant d.name).bind (knownType s.store)) =
      handles.map (knownType v.store) := by
    have hboth := congrArg (List.map fun o : Option VarHandle => o.bind (knownType s.store)) hmap
    simpa [hstore, Function.comp_def] using hboth
  rw [hknown]
  refine .values hw (by rw [List.length_map, hcount, hlength]) htwo ?_ ?_
  · exact fun types => assignConstants_overlooks decls handles types
  · exact fun hkeeps h => assignConstants_fits hkeeps hconstant hcount h

/-- Several values and the tuple of them are interchangeable in return statements. In declarations,
assignments and constant definitions, what is accepted as a tuple is accepted as a list, and also
the other way round if the types of all targets are known or none that is known is needed. -/
theorem values_interchange (p : Program) (depth : Nat) (stack : List Nat) (scope : ScopeId)
    (node info : NodeInfo) {es : List Expr} (htwo : 2 ≤ es.length) (s : AnalysisState) :
    let w := demandAt p .silent depth stack
    Interchange node.id True
      (stmt w scope (.ret info es)) (stmt w scope (.ret info [.tuple node es])) s ∧
    (∀ decls : List VarDecl, decls.length = es.length →
      Interchange node.id (Joinable (decls.map (·.type)) es)
        (stmt w scope (.init ⟨info, decls, es⟩))
        (stmt w scope (.init ⟨info, decls, [.tuple node es]⟩)) s) ∧
    (∀ ts : List Expr, ts.length = es.length →
      Interchange node.id (∀ hints u, targets w scope ts s = .ok hints u → Joinable hints es)
        (stmt w scope (.assign info ts none es))
        (stmt w scope (.assign info ts none [.tuple node es])) s) ∧
    ∀ decls : List ConstDecl, decls.length = es.length →
      Interchange node.id
        (Joinable (decls.map fun d => (s.store.lookupConstant d.name).bind (knownType s.store)) es)
        (constants w ⟨info, decls, es⟩) (constants w ⟨info, decls, [.tuple node es]⟩) s := by
  have hw := demandAt_unobserved p depth stack
  refine ⟨ret_interchange hw htwo scope node info s, fun decls hlength => ?_, fun ts hlength => ?_,
    fun decls hlength => ?_⟩
  · exact init_interchange hw htwo scope node info hlength s
  · exact assign_interchange hw htwo scope node info hlength s
  · exact constants_interchange hw htwo node info hlength s

/-- A list and a number may be declared as a tuple where both types are annotated. -/
theorem values_interchange_pair : ∃ (p : Program) (scope : ScopeId) (node info : NodeInfo)
    (decls : List VarDecl) (es : List Expr) (s t : AnalysisState),
    2 ≤ es.length ∧ decls.length = es.length ∧ Joinable (decls.map (·.type)) es ∧
      stmt (demandAt p .silent 0 []) scope (.init ⟨info, decls, es⟩) s = .ok () t ∧
      ∃ t', stmt (demandAt p .silent 0 []) scope (.init ⟨info, decls, [.tuple node es]⟩) s =
        .ok () t' ∧ t.Beside node.id t' := by
  let node (id : Nat) : NodeInfo := ⟨id, .null⟩
  let decls : List VarDecl :=
    [⟨node 1, false, "a", some (.array (node 2) (.primary (node 3) "int" []))⟩,
      ⟨node 4, false, "b", some (.primary (node 5) "uint" [])⟩]
  let es : List Expr := [.array (node 6) [], .literal (node 7) (.uint 2)]
  let p : Program := ⟨node 0, []⟩
  let scopes : Array Scope :=
    #[⟨.global, [], #[]⟩, ⟨.function none, [0], #[2]⟩, ⟨.block #[], [1, 0], #[]⟩]
  let s : AnalysisState := { AnalysisState.initial 9 with store := { Store.empty with scopes } }
  have hrun : (do
      stmt (demandAt p .silent 0 []) 2 (.init ⟨node 0, decls, es⟩)
      return (← get).types[8]?.isNone : Check Bool).run' s = some true := by decide +kernel
  have hjoin : Joinable (decls.map (·.type)) es := by simp [Joinable, decls]
  obtain ⟨_, hread⟩ := exists_state_of_run' hrun
  obtain ⟨_, t, heq, hread⟩ := run_bind_eq_ok.mp hread
  obtain ⟨_, _, ⟨⟩, hpure⟩ := run_bind_eq_ok.mp hread
  have hnone : t.types[8]? = none := by
    injection hpure with hpure _
    exact Option.isNone_iff_eq_none.mp hpure
  have hinit := (@values_interchange p 0 [] 2 (node 8) (node 0) es (by decide) s).2.1
  obtain ⟨t', hrun', ht⟩ := (hinit decls rfl).pack hjoin heq hnone
  exact ⟨p, 2, node 8, node 0, decls, es, s, t, by decide, rfl, hjoin, heq, t', hrun', ht⟩

/-- Where only the type of the list is annotated, an empty list is accepted in front of a number,
but not in a tuple with it. -/
theorem not_values_interchange_empty :
    (∃ a, analyzeSource "func f() { val a: [int], b = [], 1; }" "main" true 0 = .ok a) ∧
      ∃ e, analyzeSource "func f() { val a: [int], b = ([], 1); }" "main" true 0 =
        .error (.error e) ∧ e.cause = .typeNotInferred "[]" := by
  constructor
  · have hrun : (analyzeSource "func f() { val a: [int], b = [], 1; }" "main" true
        0).toOption.isSome = true := by decide +kernel
    obtain ⟨a, ha⟩ := Option.isSome_iff_exists.mp hrun
    exact ⟨a, eq_ok_of_toOption ha⟩
  · have hrun : (match analyzeSource "func f() { val a: [int], b = ([], 1); }" "main" true 0 with
        | .error (.error e) => some e.cause
        | _ => none) = some (.typeNotInferred "[]") := by decide +kernel
    split at hrun
    · rename_i e heq
      exact ⟨e, heq, Option.some.inj hrun⟩
    · cases hrun

end Check

end Frontend
