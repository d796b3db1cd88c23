import Frontend.Proofs.Calls.Overload
import Frontend.Proofs.Types.Declare

/-!
# Calls with proper types

A template never runs itself: a call that selects one goes to an instance for the types of the
arguments, which are proper. So what a call gives is proper, too, and the only name that gets a type
with placeholders is that of a builtin function where it is called.
-/

namespace Frontend

/-- What is left is a statement of the definitions at hand, or it has got a proper type. -/
def Visit.Clear (p : Program) (s : AnalysisState) : Visit → Prop
  | .leave node => Plays p s .statement node ∨ ∃ type, s.types[node]? = some type ∧ type.Proper
  | _ => True

/-- Demands that keep types proper; a function is asked for if it is no template. -/
structure Demand.KeepsTypes (p : Program) (l : Terrain) (w : Demand) : Prop where
  visit : ∀ {plays scope s} (v : Visit), v.Clear p s →
    Proceeds p ⟨l, plays⟩ scope (w.visit v) s fun _ t => t = s
  definitionOf : ∀ {name c}, w.definitionOf name = some c → c ∈ p.constants
  constant : ∀ {plays scope s c}, c ∈ p.constants →
    Proceeds p ⟨l, plays⟩ scope (w.constant c) s fun _ _ => True
  function : ∀ {plays scope s d}, d.Readable p l s → l.free d.info.id →
    Proceeds p ⟨l, plays⟩ scope (w.function d) s fun _ _ => True

/-- A function that a call may go to: a builtin one, or one without placeholders. -/
def Store.IsCallable (s : Store) (id : FuncId) : Prop :=
  ∃ f, s.func? id = some f ∧ (f.isBuiltin = true ∨ f.isTemplate = false)

theorem Store.IsConcrete.callable {s : Store} {id : FuncId} (h : s.IsConcrete id) :
    s.IsCallable id := by
  obtain ⟨f, hf, hconcrete⟩ := h
  exact ⟨f, hf, .inr hconcrete⟩

theorem Store.IsCallable.grows {s t : Store} {id : FuncId} (h : s.IsCallable id)
    (hg : s.Grows t) : t.IsCallable id := by
  obtain ⟨f, hf, hcallable⟩ := h
  obtain ⟨k, hk, hfk⟩ := hg.func hf
  exact ⟨k, hk, hcallable.imp (hfk.isBuiltin.trans ·) (hfk.isTemplate.trans ·)⟩

theorem Store.func?_of_mem_globalFuncs {s : Store} {id : FuncId} {f : FuncSymbol}
    (h : (id, f) ∈ s.globalFuncs) : s.func? id = some f := by
  obtain ⟨i, -, hi⟩ := List.mem_filterMap.mp h
  obtain ⟨k, hk, heq⟩ := Option.map_eq_some_iff.mp hi
  cases heq
  exact hk

variable {p : Program} {g : Ground} {w : Demand} {scope : ScopeId} {s : AnalysisState}
  {position : Position}

namespace Check

/-- The visit of a node that is left with what the observer is promised. -/
theorem visiting_proceeds {α : Type} (hw : w.KeepsTypes p g.toTerrain) (node : Nat)
    {act : Check α} {post : α → AnalysisState → Prop} (h : Proceeds p g scope act s post)
    (hleave : ∀ a t, Standing p g scope t → post a t → (Visit.leave node).Clear p t) :
    Proceeds p g scope (visiting w node act) s post := by
  refine .bind (hw.visit _ trivial) fun _ t _ heq => ?_
  subst heq
  refine .bind h fun a u _ hpost => .standing fun hs => ?_
  refine .bind (hw.visit _ (hleave a u hs hpost)) fun _ v _ heq => ?_
  subst heq
  exact .pure hpost

/-- The visit of a statement. -/
theorem stating_proceeds {α : Type} (hw : w.KeepsTypes p g.toTerrain) {info : NodeInfo}
    (hi : info.Stated g) {act : Check α} {post : α → AnalysisState → Prop}
    (h : Proceeds p g scope act s post) :
    Proceeds p g scope (visiting w info.id act) s post :=
  visiting_proceeds hw info.id h fun _ _ hs _ => .inl (hs.plays _ _ hi.plays)

/-! ### Results of functions -/

theorem declaration_yields {place : Position → Prop} {f : FuncSymbol} (hf : f.isBuiltin = false) :
    Yields place (ofResult (f.declaration.mapError Failure.fault)) fun d => f.decl = some d := by
  refine ⟨_, rfl, ?_⟩
  unfold FuncSymbol.declaration
  rw [hf]
  cases f.decl with
  | none => exact .throw nofun
  | some d => exact .pure rfl

theorem inferResult_proceeds (hw : w.KeepsTypes p g.toTerrain) (hp : g.place position)
    {f : FuncSymbol} (hf : f.Kept p g.toTerrain s)
    (hcallable : f.isBuiltin = true ∨ f.isTemplate = false) :
    Proceeds p g scope (inferResult w f position) s fun _ _ => True := by
  unfold inferResult
  split
  · exact .pure trivial
  · next hbuiltin =>
    refine .check (declaration_yields (Bool.not_eq_true _ ▸ hbuiltin)) fun d hd =>
      .progress? fun progress => ?_
    split
    · exact .fail hp
    · exact .pure trivial
    · refine hw.function (hf.readable d hd) ((hf.free d hd).resolve_left fun htemplate => ?_)
      rw [hcallable.resolve_left hbuiltin] at htemplate
      cases htemplate

/-- The result of a call has a proper type. -/
theorem callResult_proceeds (hw : w.KeepsTypes p g.toTerrain) (hp : g.place position)
    {id : FuncId} (hid : s.store.IsCallable id) :
    Proceeds p g scope (callResult w id position) s fun type _ => type.Proper := by
  obtain ⟨f, hf, hcallable⟩ := hid
  refine .func fun f' hf' hk => ?_
  rw [hf] at hf'
  cases hf'
  split
  · exact .pure Ty.unit_proper
  · split
    · next ret hret => exact .pure (hk.ret ret hret)
    · exact .bind (inferResult_proceeds hw hp hk hcallable) fun _ _ _ _ =>
        .func fun _ _ hk' => .pure hk'.ret.getD

/-- A function without placeholders has a proper type as a value. -/
theorem funcValue_proceeds (hw : w.KeepsTypes p g.toTerrain) (hp : g.place position)
    {id : FuncId} (hid : s.store.IsConcrete id) :
    Proceeds p g scope (funcValue w id position) s fun type _ => type.Proper := by
  obtain ⟨f, hf, hconcrete⟩ := hid
  refine .func fun f' hf' hk => ?_
  rw [hf] at hf'
  cases hf'
  have hparams := hk.paramTypes hconcrete
  split
  · exact .pure (func_proper hparams hintProper_none)
  · exact .bind (callResult_proceeds hw hp ⟨f, hf, .inr hconcrete⟩) fun ret _ _ hret =>
      .pure (func_proper hparams (hintProper_some hret))

/-! ### Instances of templates -/

theorem makeInstance_proceeds {d : FuncDef} {args : List Ty} (hd : d.Readable p g.toTerrain s)
    (hargs : typesProper args) (depth : Nat) :
    Proceeds p g scope (makeInstance d args depth) s fun r t =>
      r.1.Readable p g.toTerrain t ∧ g.free r.1.info.id ∧ t.store.IsConcrete r.2 :=
  fun hs => (makeInstance_kept hs.kept hs.roster hd hargs depth).imp fun _ _ _ h =>
    ⟨h.1, hs.extend h.1 h.2.1 h.2.2.1, h.2.2.2⟩

/-- The count of instances under analysis is no concern of types. -/
theorem andFinally_proceeds {act : Check Unit} {active : AnalysisState → Std.TreeMap Nat Nat}
    (h : Proceeds p g scope act s fun _ _ => True) :
    Proceeds p g scope (andFinally act fun t => { t with active := active t }) s
      fun _ _ => True := by
  have hactive : ∀ {t : AnalysisState}, t.Kept p g.toTerrain →
      t.Extends { t with active := active t } ∧
        AnalysisState.Kept p g.toTerrain { t with active := active t } := fun hk =>
    listed_kept hk _ hk.instances _ _ hk.lambdas _ _ hk.known _
  refine fun hs => .andFinally ((h hs).imp_both (fun e t ht => ⟨ht.cause, (hactive ht.kept).2⟩)
    fun _ t ht => ?_)
  obtain ⟨he, hk⟩ := hactive ht.2.1.kept
  exact ⟨ht.1.trans he, ht.2.1.extend he hk (ht.2.1.roster.carry he.store rfl rfl rfl rfl), trivial⟩

theorem instantiate_proceeds (hw : w.KeepsTypes p g.toTerrain) (hp : g.place position)
    {f : FuncSymbol} (hf : f.Kept p g.toTerrain s) (hbuiltin : f.isBuiltin = false)
    {args : List Ty} (hargs : typesProper args) :
    Proceeds p g scope (instantiate w f args position) s fun id t => t.store.IsConcrete id := by
  refine .standing fun hs => .check (declaration_yields hbuiltin) fun d hd => ?_
  refine .bind (hw.visit _ trivial) fun _ t _ heq => ?_
  subst heq
  refine .get ?_
  split
  · next known hknown => exact .pure (hs.kept.known known (List.mem_of_find?_eq_some hknown))
  · dsimp only
    split
    · exact .fail hp
    · refine .bind (makeInstance_proceeds (hf.readable d hd) hargs _) fun r t _ hmade => ?_
      exact .bind (andFinally_proceeds (hw.function hmade.1 hmade.2.1)) fun _ u he _ =>
        .pure (hmade.2.2.grows he.store)

theorem selected_proceeds (hw : w.KeepsTypes p g.toTerrain) (hp : g.place position) {id : FuncId}
    {f : FuncSymbol} (hf : s.store.func? id = some f) {args : List Ty} (hargs : typesProper args) :
    Proceeds p g scope (selected w id f args position) s fun id t => t.store.IsCallable id := by
  refine .standing fun hs => ?_
  unfold selected
  split
  · next htemplate =>
    rw [Bool.and_eq_true, Bool.not_eq_true'] at htemplate
    exact (instantiate_proceeds hw hp (hs.kept.func hf) htemplate.2 hargs).imp
      fun _ _ _ h => h.callable
  · next hplain =>
    rw [Bool.and_eq_true, Bool.not_eq_true', not_and, Bool.not_eq_false] at hplain
    refine .pure ⟨f, hf, ?_⟩
    cases htemplate : f.isTemplate with
    | false => exact .inr rfl
    | true => exact .inl (hplain htemplate)

/-- A call of a name goes to a function that may be called, and its result has a proper type. -/
theorem callFunction_proceeds (hw : w.KeepsTypes p g.toTerrain) (hp : g.place position)
    (name : String) {args : List Ty} (hargs : typesProper args) :
    Proceeds p g scope (callFunction w name args position) s fun r t =>
      r.2.Proper ∧ t.store.IsCallable r.1 := by
  refine .store ?_
  dsimp only
  split
  · exact .fail hp
  · split
    · exact .fail hp
    · next id f found hselect =>
      obtain ⟨hm, -, -⟩ := Overload.select_eq_some hselect
      have hf := Store.func?_of_mem_globalFuncs (List.mem_filter.mp hm).1
      refine .bind (selected_proceeds hw hp hf hargs) fun id t _ hid => ?_
      exact .bind (callResult_proceeds hw hp hid) fun type u he htype =>
        .pure ⟨htype, hid.grows he.store⟩

/-! ### Names -/

theorem demandConstant_proceeds (hw : w.KeepsTypes p g.toTerrain) (name : String) :
    Proceeds p g scope (demandConstant w name) s fun _ _ => True := by
  unfold demandConstant
  split
  · exact .pure trivial
  · next c hc =>
    refine .progress? fun progress => ?_
    split
    · exact .pure trivial
    · exact hw.constant (hw.definitionOf hc)

/-- The type of a variable is proper where no parameter of a template is in sight. -/
theorem variableType_proceeds (hw : w.KeepsTypes p g.toTerrain) (hp : g.place position)
    {handle : VarHandle} (hh : s.store.Sound handle) (name : String) :
    Proceeds p g scope (variableType w handle name position) s fun type _ => type.Proper := by
  have hdemand : Proceeds p g scope (demandVariable w handle name) s fun _ _ => True := by
    refine .store ?_
    split
    · exact demandConstant_proceeds hw name
    · exact .pure trivial
  refine .bind hdemand fun _ t he _ => .standing fun ht => .store ?_
  split
  · next type htype =>
    obtain ⟨v, hv, htype⟩ := Option.bind_eq_some_iff.mp htype
    exact .pure (ht.kept.var? (hh.grows he.store) hv type htype)
  · exact .fail hp

theorem nameType_proceeds (hw : w.KeepsTypes p g.toTerrain) {info : NodeInfo} (hi : info.On g)
    (name : String) :
    Proceeds p g scope (nameType w scope info name) s fun type _ => type.Proper := by
  refine .standing fun hs => .store ?_
  split
  · next handle hhandle =>
    refine .bind (link_proceeds _ _) fun _ t he _ => ?_
    exact variableType_proceeds hw hi.place ((hs.scope.lookupVar hhandle).grows he.store) name
  · split
    · exact .pure Ty.unit_proper
    · split
      · exact .fail hi.place
      · split
        · next id f hone =>
          have hm : (id, f) ∈ (s.store.lookupFunctions name).filter fun c => !c.2.isTemplate :=
            hone ▸ List.mem_singleton_self _
          rw [List.mem_filter, Bool.not_eq_true'] at hm
          have hf := Store.func?_of_mem_globalFuncs (List.mem_filter.mp hm.1).1
          refine .bind (link_proceeds _ _) fun _ t he _ => ?_
          exact funcValue_proceeds hw hi.place (Store.IsConcrete.grows ⟨f, hf, hm.2⟩ he.store)
        · exact .fail hi.place

/-- The name of a function gets its type where it is called; this has placeholders only if the
function is a builtin one. -/
theorem typeCallee_proceeds {callee : Nat} {id : FuncId} (hcallee : g.plays .callee callee)
    (hid : s.store.IsCallable id)
    (hlink : s.links[callee]? = some (.func id) ∨ callee ∈ s.refused) :
    Proceeds p g scope (typeCallee callee id) s fun _ _ => True := by
  refine .standing fun hs => ?_
  obtain ⟨f, hf, hcallable⟩ := hid
  refine .func fun f' hf' hk => ?_
  rw [hf] at hf'
  cases hf'
  split
  · next type htype =>
    refine (setType_proceeds ?_).imp fun _ _ _ _ => trivial
    rcases hcallable with hbuiltin | hconcrete
    · exact .inr (hlink.symm.imp_right fun hlink =>
        ⟨hs.plays _ callee hcallee, id, f, hlink, hf, hbuiltin, htype⟩)
    · exact .inl (hk.type? hconcrete htype)
  · exact .pure trivial

theorem callByName_proceeds (hw : w.KeepsTypes p g.toTerrain) {site callee : NodeInfo}
    (hs : site.On g) (hcallee : g.plays .callee callee.id) (name : String) {args : List Ty}
    (hargs : typesProper args) :
    Proceeds p g scope (callByName w site callee name args) s fun type _ => type.Proper := by
  refine .bind (callFunction_proceeds hw hs.place name hargs) fun r t _ hr => ?_
  obtain ⟨id, type⟩ := r
  refine .bind (link_proceeds _ _) fun _ u he hu => ?_
  refine .bind (link_proceeds _ _) fun _ v he' hv => ?_
  have hlink : v.links[callee.id]? = some (.func id) ∨ callee.id ∈ v.refused :=
    hu.1.imp (fun h => hv.2.2.2 h) fun h => hv.2.2.1 h
  exact .bind (typeCallee_proceeds hcallee ((hr.2.grows he.store).grows he'.store) hlink)
    fun _ _ _ _ => .pure hr.1

end Check

end Frontend
