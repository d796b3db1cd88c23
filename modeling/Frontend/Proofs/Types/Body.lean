import Frontend.Proofs.Analysis.Demands
import Frontend.Proofs.Types.Stmt

/-!
# Bodies keep types proper

The scope of a function that is no template does not lie in a template, so its body is analysed
where no placeholder is in sight. With that, demands keep types proper at every depth.
-/

namespace Frontend

/-- A node plays a role in a program. -/
def Program.Plays (p : Program) (role : Role) (node : Nat) : Prop :=
  ∃ d ∈ p.definitions, (role, node) ∈ d.roles

/-- The definitions of a program are regular; the ids that do not count as free are those of its
templates. -/
structure Program.Regular (p : Program) (l : Terrain) : Prop where
  constant : ∀ c ∈ p.constants, c.Regular ⟨l, p.Plays⟩
  function : ∀ d ∈ p.functions, l.place d.info.span.start ∧ d.Regular ⟨l, p.Plays⟩
  free : ∀ d ∈ p.functions, l.free d.info.id ↔ d.isTemplate = false

/-- An observer that does not stop a run where everything is kept and what is left has got its
type. -/
def Observer.Accepting (p : Program) (l : Terrain) (observe : Observer) : Prop :=
  ∀ stack visit s, s.Kept p l → s.Roster → visit.Clear p s → observe stack visit s = .ok () s

variable {p : Program} {l : Terrain} {g : Ground} {w : Demand} {scope : ScopeId}
  {s : AnalysisState} {α : Type}

/-- What plays a role in a program plays it in the definitions at hand. -/
theorem Program.Plays.atHand {role : Role} {node : Nat} (h : p.Plays role node) :
    Frontend.Plays p s role node := by
  obtain ⟨d, hd, hrole⟩ := h
  exact ⟨d, .program hd, hrole⟩

/-- What is done in other code and another scope. -/
theorem Proceeds.elsewhere (inner : ScopeId) {plays plays' : Role → Nat → Prop} {act : Check α}
    {post : α → AnalysisState → Prop} (hc : ∀ role node, plays' role node → Plays p s role node)
    (h : s.Kept p l → s.store.Concrete inner ∧ Proceeds p ⟨l, plays'⟩ inner act s post) :
    Proceeds p ⟨l, plays⟩ scope act s post := by
  intro hs
  obtain ⟨hi, hproceeds⟩ := h hs.kept
  exact (hproceeds ⟨hs.kept, hs.roster, hi, hc⟩).imp fun _ t _ ht =>
    ⟨ht.1, hs.extend ht.1 ht.2.1.kept ht.2.1.roster, ht.2.2⟩

namespace Check

/-- The run of a definition between its two marks. -/
theorem analysing_proceeds (hw : w.KeepsTypes p g.toTerrain) (node : Nat) {act : Check Unit}
    (h : ∀ t, s.Extends t → Proceeds p g scope act t fun _ _ => True) :
    Proceeds p g scope (analysing w node act) s fun _ _ => True := by
  refine .bind (hw.visit (.begin node) trivial) fun _ t _ heq => ?_
  subst heq
  refine .bind (setProgress_proceeds _ _) fun _ u he _ => ?_
  refine .bind (h u he) fun _ _ _ _ => ?_
  refine .bind (setProgress_proceeds _ _) fun _ _ _ _ => ?_
  exact (hw.visit (.finish node) trivial).imp fun _ _ _ _ => trivial

/-! ### Functions -/

/-- The scope of a function that is no template does not lie in a template. -/
theorem declared_proceeds {info : NodeInfo} (hi : g.free info.id) :
    Proceeds p g scope (declared info) s fun r t => t.store.Concrete r.1 := by
  refine .standing fun hs => .get ?_
  split
  · next inside hinside =>
    split
    · exact .pure ((hs.kept.scope hinside).resolve_right fun hn => hn hi)
    · exact .fault nofun
  · exact .fault nofun

theorem function_keepsTypes (hw : w.KeepsTypes p l) {d : FuncDef}
    (hbody : d.body.KeepsTypes p l w) (hensure : ∀ b ∈ d.ensureBody, b.KeepsTypes p l w) :
    d.KeepsTypes p l w := by
  intro plays scope s hd hinfo
  obtain ⟨info, kind, name, params, returnType, body, ensureBody⟩ := d
  rw [FuncDef.Regular] at hd
  rw [function]
  refine analysing_proceeds hw _ fun t _ => .bind (declared_proceeds hinfo.free)
    fun r u _ hr => .inner hr ?_
  refine .bind (hbody _ _ _ hd.2.2.1) fun _ _ _ _ => ?_
  refine .bind (optionalBlock_proceeds hensure hd.2.2.2) fun _ _ _ _ => ?_
  exact settleReturn_proceeds _

/-! ### Constants -/

theorem constantHandles_proceeds {decls : List ConstDecl} (hd : ∀ d ∈ decls, d.Regular g) :
    Proceeds p g scope (constantHandles decls) s fun handles t =>
      t = s ∧ ∀ handle ∈ handles, ∃ i, handle = .constant i := by
  induction decls with
  | nil => exact .pure ⟨rfl, List.forall_mem_nil _⟩
  | cons d rest ih =>
    rw [List.forall_mem_cons] at hd
    refine .store ?_
    split
    · next handle hhandle =>
      refine .bind (ih hd.2) fun handles t _ ht => ?_
      obtain ⟨rfl, hhandles⟩ := ht
      obtain ⟨i, -, hi⟩ := Option.map_eq_some_iff.mp hhandle
      exact .pure ⟨rfl, List.forall_mem_cons.mpr ⟨⟨i, hi.symm⟩, hhandles⟩⟩
    · exact .fail hd.1.info.place

/-- The types of the annotations on constants are proper. -/
theorem constantHints_proceeds {handles : List VarHandle}
    (hh : ∀ handle ∈ handles, ∃ i, handle = .constant i) :
    Proceeds p g scope (handles.mapM typeOf?) s fun hints _ => HintsProper hints := by
  induction handles generalizing s with
  | nil =>
    rw [List.mapM_nil]
    exact .pure hintsProper_nil
  | cons handle rest ih =>
    rw [List.forall_mem_cons] at hh
    obtain ⟨⟨i, rfl⟩, hrest⟩ := hh
    rw [List.mapM_cons]
    have hfirst : Proceeds p g scope (typeOf? (.constant i)) s fun hint _ => HintProper hint := by
      refine .standing fun hs => .store (.pure fun type htype => ?_)
      obtain ⟨v, hv, htype⟩ := Option.bind_eq_some_iff.mp htype
      exact hs.kept.constant hv type htype
    refine .bind hfirst fun _ _ _ hfirst => ?_
    refine .bind (ih hrest) fun _ _ _ hrest => ?_
    exact .pure (List.forall_mem_cons.mpr ⟨hfirst, hrest⟩)

theorem assignConstants_proceeds {decls : List ConstDecl} (hd : ∀ d ∈ decls, d.Regular g)
    (handles : List VarHandle) {types : List Ty} (ht : typesProper types) :
    Proceeds p g scope (assignConstants decls handles types) s fun _ _ => True := by
  induction decls generalizing s handles types with
  | nil => exact .pure trivial
  | cons d rest ih =>
    rw [List.forall_mem_cons] at hd
    match handles, types, ht with
    | [], _, _ => exact .pure trivial
    | _ :: _, [], _ => exact .pure trivial
    | handle :: handles, type :: types, ht =>
      rw [typesProper] at ht
      exact .bind (assignConstant_proceeds handle ht.1 hd.1.info.place) fun _ _ _ _ =>
        ih hd.2 handles ht.2

theorem constants_proceeds (hw : w.KeepsTypes p g.toTerrain) {c : ConstDef} (hc : c.Regular g)
    (hvalues : ∀ e ∈ c.values, e.KeepsTypes p g.toTerrain w) :
    Proceeds p g Store.globalScope (constants w c) s fun _ _ => True := by
  refine analysing_proceeds hw _ fun t _ => .bind (constantHandles_proceeds hc.decls)
    fun handles _ _ hhandles => .bind (constantHints_proceeds hhandles.2) fun hints _ _ hhints =>
      .bind (values_proceeds hvalues hc.values hhints hc.info.place) fun types _ _ htypes =>
        assignConstants_proceeds hc.decls handles htypes

end Check

/-! ### All code -/

open Check in
/-- Runs over all parts of a program keep types proper. -/
theorem keepsTypes (hw : w.KeepsTypes p l) :
    TreeInduction (Expr.KeepsTypes p l w) (FuncDef.KeepsTypes p l w) (Block.KeepsTypes p l w)
      (Init.KeepsTypes p l w) (Stmt.KeepsTypes p l w) where
  literal info value := literal_keepsTypes hw info value
  array info _ h := array_keepsTypes hw info h
  tuple info _ h := tuple_keepsTypes hw info h
  dict info _ h := dict_keepsTypes hw info h
  varRef info name assigned := varRef_keepsTypes hw info name assigned
  member info _ name h := member_keepsTypes hw info h name
  index info _ _ hr hi := index_keepsTypes hw info hr hi
  call info _ _ hc hr ha := call_keepsTypes hw info hc hr ha
  unary info op _ h := unary_keepsTypes hw info op h
  binary info op _ _ hl hr := binary_keepsTypes hw info op hl hr
  cast info _ type h := cast_keepsTypes hw info h type
  typed info _ type h := typed_keepsTypes hw info h type
  ifElse info kind _ _ _ hc ht he := ifElse_keepsTypes hw info kind hc ht he
  range info _ _ inclusive hf hl := range_keepsTypes hw info hf hl inclusive
  lambda info _ h := lambda_keepsTypes hw info h
  function _ _ _ _ _ _ _ hb he := function_keepsTypes hw hb he
  block info _ h := block_keepsTypes info h
  inits info decls _ h := init_keepsTypes info decls h
  init _ h := Stmt.init_keepsTypes hw h
  assign info _ op _ ht he := Stmt.assign_keepsTypes hw info op ht he
  conditional info kind _ _ _ _ hc ht ha he := Stmt.ifElse_keepsTypes hw info kind hc ht ha he
  ret info _ h := Stmt.ret_keepsTypes hw info h
  case info _ _ ha he := Stmt.case_keepsTypes hw info ha he
  switch info _ _ _ ht ha he := Stmt.switch_keepsTypes hw info ht ha he
  forIn info vars _ bodyInfo _ hr h := Stmt.forIn_keepsTypes hw info bodyInfo vars hr h
  whileDo info _ _ hc hb := Stmt.whileDo_keepsTypes hw info hc hb
  guarded info _ kind _ hb hc := Stmt.guarded_keepsTypes hw info kind hb hc
  letIn info _ _ hi hc := Stmt.letIn_keepsTypes hw info hi hc
  expr _ h := Stmt.expr_keepsTypes hw h

/-- Demands keep types proper at every depth. -/
theorem demandAt_keepsTypes (hp : p.Regular l) {observe : Observer}
    (ho : observe.Accepting p l) (depth : Nat) (stack : List Nat) :
    (demandAt p observe depth stack).KeepsTypes p l := by
  have hvisit : ∀ stack {plays scope s} (v : Visit), v.Clear p s →
      Proceeds p ⟨l, plays⟩ scope (observe stack v) s fun _ t => t = s := by
    intro stack plays scope s v hv hs
    unfold Ensures
    rw [ho stack v s hs.kept hs.roster hv]
    exact ⟨.refl s, hs, rfl⟩
  have hdefinition : ∀ {name c}, p.constantNamed? name = some c → c ∈ p.constants := fun h =>
    Program.mem_constants.mpr (Program.constantNamed?_mem h)
  induction depth generalizing stack with
  | zero =>
    exact
      { visit := hvisit stack
        definitionOf := hdefinition
        constant := fun _ => .fault nofun
        function := fun _ _ => .fault nofun }
  | succ depth ih =>
    refine
      { visit := hvisit stack
        definitionOf := hdefinition
        constant := fun {plays scope s c} hc => ?_
        function := fun {plays scope s d} hd hfree => ?_ }
    · have hw := ih (c.info.id :: stack)
      exact .elsewhere Store.globalScope (fun _ _ hn => hn.atHand) fun hk => ⟨hk.global,
        Check.constants_proceeds hw (hp.constant c hc) fun e _ => (keepsTypes hw).onExprs e⟩
    · obtain ⟨plays', hregular, hplays⟩ := hd.regular
      have hw := ih (d.info.id :: stack)
      exact .elsewhere Store.globalScope hplays fun hk => ⟨hk.global,
        (keepsTypes hw).onFunctions d _ _ _ hregular ⟨hd.place, hfree⟩⟩

end Frontend
