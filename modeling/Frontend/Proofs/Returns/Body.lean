import Frontend.Proofs.Returns.Stmt
import Frontend.Proofs.Tree.Induction

/-!
# Coherence of whole bodies

Behind the body of a function, all its return statements have been met, so the symbol is coherent
when the function is marked as done. A lambda is declared and analysed in one go.
-/

namespace Frontend

variable {p : Program} {w : Demand} {s t : AnalysisState}

/-- The lambdas in a function that is apart from the constant definitions are so, too. -/
theorem FuncDef.Apart.sites {d : FuncDef} (h : d.Apart p) (env : Env) : p.Apart (d.sites env) :=
  fun _ hm node hn => h node (FuncDef.lambda_mem_ids hn d hm)

/-- The lambdas of a function are those of its body and its `ensure` block. -/
theorem FuncDef.lambda_mem_sites {d lam : FuncDef} {env : Env} :
    .lambda lam ∈ d.sites env ↔ .lambda lam ∈ d.bodySites (d.layer :: env) := by
  simp [FuncDef.sites_eq, paramSites]

namespace Check

theorem declared_found (info : NodeInfo) :
    Ensures (fun _ t => t = s) (declared info) s fun r t => t = s ∧
      s.scopes[info.id]? = some r.1 ∧ s.store.scopeFuncId? r.1 = some r.2 := by
  refine .bind (.get ?_)
  split
  · next scope hscope =>
    split
    · next id hid => exact .pure ⟨rfl, hscope, hid⟩
    · exact .fault rfl
  · exact .fault rfl

theorem function_eq (w : Demand) (d : FuncDef) : function w d = analysing w d.info.id (do
    let r ← declared d.info
    block w r.1 d.body
    optionalBlock w r.1 d.ensureBody
    settleReturn r.2) := by
  obtain ⟨info, kind, name, params, returnType, body, ensureBody⟩ := d
  rw [function]

/-- The run of a definition between its two marks. -/
theorem analysing_ensures_marked (hv : ∀ v, ReadsOnly (w.visit v)) (node : Nat) {act : Check Unit}
    {post : Unit → AnalysisState → Prop}
    (h : Ensures (fun _ _ => True) act (s.mark node .inProgress) fun _ t =>
      post () (t.mark node .done)) :
    Ensures (fun _ _ => True) (analysing w node act) s post := by
  refine .bind ((hv _ s).imp_both (fun _ _ _ => trivial) fun _ t heq => ?_)
  subst heq
  refine .bind (.modify (.bind (h.imp fun _ u _ hpost => .bind (.modify ?_))))
  exact (hv _ _).imp_both (fun _ _ _ => trivial) fun _ v heq => by
    subst heq
    exact hpost

/-- A function whose return statements have all been met is coherent, and may be marked as done. -/
theorem concluded_of_returned (hc : Coherence p t) {id : FuncId} {f : FuncSymbol} {d : FuncDef}
    (hf : t.store.func? id = some f) (hd : f.decl = some d)
    (hsettled : f.kind.returnsValue = true → f.ret.isSome)
    (hmade : ∀ env, t.Made (d.sites env)) (hreturned : ∀ vs ∈ d.returns, t.Returned id vs) :
    Coherence p (t.mark d.info.id .done) ∧ (t.mark d.info.id .done).Concluded d ∧
      ∀ env, (t.mark d.info.id .done).Made (d.sites env) := by
  have hcoherent : d.Coherent t f :=
    .of_returns (hc.kind hf hd) (hc.admits hf hd) hsettled fun vs hm => by
      obtain ⟨g, type, hg, hvs, hresult⟩ := hreturned vs hm
      rw [hf] at hg
      cases hg
      exact ⟨type, hvs, hresult⟩
  obtain ⟨scope, hscope, -⟩ := hc.linked hf hd
  have hmark := Growth.mark t d.info.id .done
  have hplace : p.HasConstant d.info.id ∨ t.scopes[d.info.id]? ≠ none :=
    .inr (by rw [hscope]; exact Option.some_ne_none scope)
  have hdone := hc.finish hplace
    (fun hf' hd' heq => by
      obtain ⟨rfl, rfl⟩ := hc.eq_of_decl hf' hd' hf hd heq
      rw [hf] at hf'
      cases hf'
      exact ⟨hcoherent, hmade⟩)
    fun c hm heq => absurd ⟨c, hm, heq⟩ (hc.apart hf hd _ (Definition.function d).info_mem_ids)
  exact ⟨hdone, ⟨id, f, hf, hd, hcoherent.grows hmark (.refl f) (hc.admits hf hd)⟩,
    fun env => (hmade env).grows hmark hc.admits⟩

theorem function_keepsCoherence (hw : w.KeepsCoherence p) {d : FuncDef}
    (hbody : d.body.KeepsCoherence p w) (hensure : ∀ b ∈ d.ensureBody, b.KeepsCoherence p w) :
    d.KeepsCoherence p w := by
  intro s
  rw [function_eq]
  refine analysing_ensures_marked hw.visit d.info.id (.bind ((declared_found d.info).imp_both
    (fun _ _ _ => trivial) fun r t hdeclared => ?_))
  obtain ⟨scope, id⟩ := r
  obtain ⟨rfl, hscope, hid⟩ := hdeclared
  have hwithin := Store.Within.of_function hid
  refine .bind ((Ensures.all fun env => hbody scope (d.layer :: env) _).imp fun _ t _ hfirst => ?_)
  refine .bind ((Ensures.all fun env => optionalBlock_goes hensure (d.layer :: env) t).imp
    fun _ u _ hsecond => ?_)
  have hleaves := fun env => (hfirst env).trans (hsecond env)
  refine (settleReturn_ensures_settled (p := p) id).imp fun _ v _ hthird => ?_
  obtain ⟨hg, hsettled, hcoherence⟩ := hthird
  have hgrowth := (hleaves []).growth.trans hg
  refine ⟨((Growth.mark s _ _).trans hgrowth).trans (.mark v _ _), fun hr hc hd => ?_⟩
  obtain ⟨id', f, hf, hdecl⟩ := hd
  obtain ⟨scope', hscope', hid'⟩ := hc.linked hf hdecl
  cases hscope.symm.trans hscope'
  cases hid.symm.trans hid'
  have hbegin : Coherence p (s.mark d.info.id .inProgress) :=
    hc.begin (.inr (by rw [hscope']; exact Option.some_ne_none scope))
  have hmet : ∀ env, Coherence p u ∧ u.Made (d.bodySites (d.layer :: env)) ∧
      ∀ vs ∈ d.returns, u.Returned id vs := fun env =>
    (hleaves env).coherent (hg.refused hr) hbegin
      (fun lam hm => (hc.apart hf hdecl).sites env lam (FuncDef.lambda_mem_sites.mpr hm)) id
      fun hne => ⟨hwithin, f, d, hf, hdecl, hne⟩
  have hv := hcoherence (hmet []).1
  obtain ⟨g, hgf, hfg⟩ := hgrowth.store.func hf
  exact concluded_of_returned hv hgf (hfg.decl.trans hdecl) (hsettled g hgf)
    (fun env lam hm => ((hmet env).2.1.grows hg hv.admits) lam (FuncDef.lambda_mem_sites.mp hm))
    fun vs hm => ((hmet []).2.2 vs hm).grows hg

theorem lambda_keepsCoherence (hw : w.KeepsCoherence p) (info : NodeInfo) {d : FuncDef}
    (h : d.KeepsCoherence p w) : (Expr.lambda info d).KeepsCoherence p w := by
  intro scope hint env s
  rw [expr.eq_def, Expr.parts]
  refine typing_keepsCoherence hw fun s => .bind ((declareLambda_introduces (p := p) d _).imp
    fun r t _ hdeclared => .bind ((h t).imp fun _ u _ hbody => ?_))
  obtain ⟨hgrowth, hcoherent⟩ := hdeclared
  obtain ⟨hgrowth', hcoherent'⟩ := hbody
  have hleaves : Leaves p scope (.lambda d :: d.sites env) [] s u := by
    refine ⟨hgrowth.trans hgrowth', fun hr hc hapart _ _ => ?_⟩
    obtain ⟨hc', hdeclared⟩ := hcoherent (hgrowth'.refused hr) hc (hapart d List.mem_cons_self)
    obtain ⟨hc'', hconcluded, hmade⟩ := hcoherent' hr hc' hdeclared
    refine ⟨hc'', fun lam hm => ?_, List.forall_mem_nil _⟩
    rcases List.mem_cons.mp hm with heq | hm
    · cases heq
      exact hconcluded
    · exact hmade env lam hm
  have htype : ∀ wantsProc, Goes p scope [] [] (lambdaType r.1 r.2 wantsProc) := fun wantsProc =>
    .readsOnly (lambdaType_readsOnly _ _ wantsProc)
  refine (htype _ u).imp fun _ v _ hlast => ?_
  exact (hleaves.trans hlast).congr fun lam => by rw [List.append_nil]

end Check

open Check in
/-- Runs over all parts of a program keep coherence. -/
theorem keepsCoherence (hw : w.KeepsCoherence p) :
    TreeInduction (Expr.KeepsCoherence p w) (FuncDef.KeepsCoherence p w)
      (Block.KeepsCoherence p w) (Init.KeepsCoherence p w) (Stmt.KeepsCoherence p w) where
  literal info value := literal_keepsCoherence hw info value
  array info _ h := array_keepsCoherence hw info h
  tuple info _ h := tuple_keepsCoherence hw info h
  dict info _ h := dict_keepsCoherence hw info h
  varRef info name assigned := varRef_keepsCoherence hw info name assigned
  member info _ name h := member_keepsCoherence hw info h name
  index info _ _ hr hi := index_keepsCoherence hw info hr hi
  call info _ _ hc hr ha := call_keepsCoherence hw info hc hr ha
  unary info op _ h := unary_keepsCoherence hw info op h
  binary info op _ _ hl hr := binary_keepsCoherence hw info op hl hr
  cast info _ type h := cast_keepsCoherence hw info h type
  typed info _ type h := typed_keepsCoherence hw info h type
  ifElse info kind _ _ _ hc ht he := ifElse_keepsCoherence hw info kind hc ht he
  range info _ _ inclusive hf hl := range_keepsCoherence hw info hf hl inclusive
  lambda info _ h := lambda_keepsCoherence hw info h
  function _ _ _ _ _ _ _ hb he := function_keepsCoherence hw hb he
  block info _ h := block_keepsCoherence info h
  inits info decls _ h := init_keepsCoherence info decls h
  init _ h := Stmt.init_keepsCoherence hw h
  assign info _ op _ ht he := Stmt.assign_keepsCoherence hw info op ht he
  conditional info kind _ _ _ _ hc ht ha he := Stmt.ifElse_keepsCoherence hw info kind hc ht ha he
  ret info _ h := Stmt.ret_keepsCoherence hw info h
  case info _ _ ha he := Stmt.case_keepsCoherence hw info ha he
  switch info _ _ _ ht ha he := Stmt.switch_keepsCoherence hw info ht ha he
  forIn info vars _ bodyInfo _ hr h := Stmt.forIn_keepsCoherence hw info bodyInfo vars hr h
  whileDo info _ _ hc hb := Stmt.whileDo_keepsCoherence hw info hc hb
  guarded info _ kind _ hb hc := Stmt.guarded_keepsCoherence hw info kind hb hc
  letIn info _ _ hi hc := Stmt.letIn_keepsCoherence hw info hi hc
  expr _ h := Stmt.expr_keepsCoherence hw h

end Frontend
