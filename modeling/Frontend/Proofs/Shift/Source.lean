import Frontend.Proofs.Analysis.Totality
import Frontend.Proofs.Returns.Declare
import Frontend.Proofs.Shift.Parser
import Frontend.Proofs.Shift.Walk
import Frontend.Proofs.Token.Tiling

/-!
# Where the counter of ids stands does not matter

A source text is analysed from any two first ids in the same way: it is refused at the same place
for the same cause, or the same is found out about the nodes of the same tree, with all ids shifted
by the difference. So a text that is analysed after others is analysed as in a fresh process.
-/

namespace Frontend

open Check

variable {d : Nat} {p : Program}

/-! ### Programs -/

namespace Program

theorem constantNamed?_shift (p : Program) (name : String) :
    (p.shift d).constantNamed? name = (p.constantNamed? name).map (ConstDef.shift d) := by
  have hdeclares : ∀ c : ConstDef, (c.shift d).decls.any (·.name == name) =
      c.decls.any (·.name == name) := by
    intro c
    simp [ConstDef.shift, ConstDecl.shift, Function.comp_def]
  unfold constantNamed?
  rw [constants_shift, List.find?_map]
  simp only [Function.comp_def, hdeclares]

theorem demandBound_shift (p : Program) : (p.shift d).demandBound = p.demandBound := by
  simp [demandBound, constants_shift, functions_shift, List.filter_map, Function.comp_def,
    FuncDef.isTemplate_shift]

/-- A function of a program that can be written down is no lambda. -/
theorem Written.kind (hp : p.Written) {f : FuncDef} (hf : .function f ∈ p.definitions) :
    f.kind ≠ .lambda := (hp _ hf).1.kind

end Program

/-- Demands of a shifted program are met as those of the program. -/
theorem demandAt_shifts (p : Program) (depth : Nat) (stack stack' : List Nat) :
    Demand.Shifted d (demandAt p .silent depth stack)
      (demandAt (p.shift d) .silent depth stack') := by
  induction depth generalizing stack stack' with
  | zero =>
    exact
      { constant := fun _ => fault_shifts _ _
        function := fun _ => fault_shifts _ _
        definitionOf := p.constantNamed?_shift
        visit := fun _ => .pure rfl }
  | succ depth ih =>
    exact
      { constant := fun c => constants_shifts (ih _ _) c
        function := fun f => (shifts_of_demand (ih _ _)).onFunctions f
        definitionOf := p.constantNamed?_shift
        visit := fun _ => .pure rfl }

/-! ### Registration -/

/-- The placeholders of builtin functions keep their ids. -/
theorem Builtin.shift_of_mem {f : FuncSymbol} (hf : f ∈ Builtin.all) :
    f.shift d = f ∧ f.kind ≠ .lambda := by
  have hids : ∀ id < 4, shiftId d id = id := fun id hid =>
    shiftId_of_lt d (Nat.lt_trans hid (by decide))
  simp only [Builtin.all, List.mem_cons, List.not_mem_nil, or_false] at hf
  rcases hf with rfl | rfl | rfl | rfl | rfl | rfl | rfl <;>
    simp [FuncSymbol.shift, Builtin.symbol, VarSymbol.shift, shiftName, hids]

/-- Builtin functions are declared among shifted functions as they are among the functions. -/
theorem Store.foldl_defineFunction_shift {fs : List FuncSymbol}
    (hfs : ∀ f ∈ fs, f.shift d = f ∧ f.kind ≠ .lambda) {declare : Store → FuncSymbol → Store}
    (hdeclare : ∀ s f, declare s f = match (s.addFunc f).2.defineFunction (s.addFunc f).1 with
      | .ok t => t
      | .error _ => (s.addFunc f).2) {st : Store} (hst : st.Named) :
    fs.foldl declare (st.shift d) = (fs.foldl declare st).shift d ∧
      (fs.foldl declare st).Named := by
  induction fs generalizing st with
  | nil => exact ⟨rfl, hst⟩
  | cons f rest ih =>
    rw [List.forall_mem_cons] at hfs
    obtain ⟨⟨hf, hkind⟩, hrest⟩ := hfs
    have hnamed := hst.addFunc f
    have hfunc : (st.addFunc f).2.func? (st.addFunc f).1 = some f := Array.getElem?_push_size
    have hadd := st.addFunc_shift (d := d) f
    have hdefine := defineFunction_shift (d := d) hnamed hfunc hkind
    have hstep : declare (st.shift d) f = (declare st f).shift d ∧ (declare st f).Named := by
      rw [hf] at hadd
      rw [hdeclare, hdeclare, hadd, hdefine]
      cases h : (st.addFunc f).2.defineFunction (st.addFunc f).1 with
      | ok t => exact ⟨rfl, hnamed.defineFunction hfunc hkind h⟩
      | error existing => exact ⟨rfl, hnamed⟩
    rw [List.foldl_cons, List.foldl_cons, hstep.1]
    exact ih hrest hstep.2

theorem Store.registerBuiltins_shift {st : Store} (h : st.Named) :
    (st.shift d).registerBuiltins = st.registerBuiltins.shift d ∧ st.registerBuiltins.Named :=
  foldl_defineFunction_shift (fun _ hf => Builtin.shift_of_mem hf) (fun _ _ => rfl) h

namespace Check

theorem registerFunction_shifts {f : FuncDef} (hkind : f.kind ≠ .lambda) :
    Agree (twin d) (registerFunction f) (registerFunction (f.shift d)) := by
  refine (declareFunction_shifts f Store.globalScope none).bind_of
    (declareFunction_ensures_symbol f Store.globalScope none) ?_
  rintro ⟨scope, id⟩ _ t t' rfl ht ⟨g, hg, -, hgkind⟩
  have hgkind : g.kind ≠ .lambda := hgkind ▸ hkind
  have hdefine := Store.defineFunction_shift (d := d) ht.named hg hgkind
  have hgoal : Agree (twin d)
      (match t.store.defineFunction id with
        | .ok s => setStore { s with functionScopes := s.functionScopes.push scope }
        | .error existing => do
          fail (.functionAlreadyDeclared (← func existing).describe) f.info.span.start)
      (match t'.store.defineFunction id with
        | .ok s => setStore { s with functionScopes := s.functionScopes.push scope }
        | .error existing => do
          fail (.functionAlreadyDeclared (← func existing).describe)
            (f.shift d).info.span.start) := by
    rw [ht.store, hdefine, f.info_shift]
    cases h : t.store.defineFunction id with
    | ok st =>
      have hnamed : st.Named := ht.named.defineFunction hg hgkind h
      have hpushed : Store.Named { st with functionScopes := st.functionScopes.push scope } :=
        hnamed
      exact setStore_shifts hpushed
    | error existing =>
      exact (func_shifts existing).carry fun other => fail_shifts (.redeclared other)
  exact hgoal ht

theorem registerConstant_shifts (c : ConstDecl) :
    Agree (twin d) (registerConstant c) (registerConstant (c.shift d)) := by
  refine (denoted?_shifts c.type).carry fun type => shifts_store fun st hst => ?_
  have hdefine : (st.shift d).defineConstant ⟨c.name, type.map (Ty.shift d), false⟩ =
      (st.defineConstant ⟨c.name, type, false⟩).map fun r => (r.1, r.2.shift d) :=
    st.defineConstant_shift ⟨c.name, type, false⟩
  dsimp only [ConstDecl.shift]
  rw [hdefine]
  cases h : st.defineConstant ⟨c.name, type, false⟩ with
  | error existing => exact fail_same rfl
  | ok r =>
    have hnamed : r.2.Named := by
      unfold Store.defineConstant at h
      split at h
      · cases h
      · cases h
        exact hst
    exact (setStore_shifts hnamed).next fun _ => link_shifts c.info.id (.var r.1)

theorem registerDefinition_shifts {definition : Definition}
    (h : ∀ f, definition = .function f → f.kind ≠ .lambda) :
    Agree (twin d) (registerDefinition definition) (registerDefinition (definition.shift d)) := by
  cases definition with
  | function f => exact registerFunction_shifts (h f rfl)
  | constant c => exact .forM fun decl _ => registerConstant_shifts decl

theorem register_shifts (builtins : Bool) (hp : p.Written) :
    Agree (twin d) (register builtins p) (register builtins (p.shift d)) := by
  refine (Alongside.modify fun {s s'} hs => ?_).next fun _ => .forM fun definition hm => ?_
  · cases builtins with
    | false => exact hs
    | true =>
      obtain ⟨hstore, hnamed⟩ := Store.registerBuiltins_shift (d := d) hs.named
      rw [hs.store, hstore]
      exact hs.withStore hnamed
  · exact registerDefinition_shifts fun f hf => hp.kind (hf ▸ hm)

/-! ### Analyses -/

theorem unlessBegun_shifts (node : Nat) {act act' : Check Unit} (h : Agree (twin d) act act') :
    Agree (twin d) (unlessBegun node act) (unlessBegun (shiftId d node) act') := by
  refine (progress?_shifts node).next fun begun => ?_
  split
  · exact h
  · exact .pure rfl

theorem bodies_shifts (p : Program) :
    Agree (twin d) (bodies .silent p) (bodies .silent (p.shift d)) := by
  unfold bodies
  rw [p.demandBound_shift, p.constants_shift, p.functions_shift]
  have hw := demandAt_shifts (d := d) p (p.demandBound + 1) [] []
  refine (Alongside.forM fun c _ => ?_).next fun _ => .forM fun f _ => ?_
  · exact unlessBegun_shifts c.info.id (hw.constant c)
  · rw [f.isTemplate_shift, f.info_shift]
    split
    · exact .pure rfl
    · exact unlessBegun_shifts f.info.id (hw.function f)

theorem program_shifts (builtins : Bool) (hp : p.Written) :
    Agree (twin d) (program builtins .silent p) (program builtins .silent (p.shift d)) :=
  (register_shifts builtins hp).next fun _ => bodies_shifts p

end Check

/-- Nothing is known, wherever the counter stands. -/
theorem initial_tandem {first : Nat} (h : Builtin.firstNodeId ≤ first) (d : Nat) :
    Tandem d (.initial first) (.initial (first + d)) where
  store := by simp [AnalysisState.initial, Resolution.empty, Store.shift, Store.empty, Scope.shift,
    ScopeBody.shift]
  types := .empty
  links := .empty
  scopes := .empty
  copies := .empty
  refused := rfl
  progress := .empty
  known := rfl
  active := .empty
  nextId := rfl
  later := h
  named id hid := absurd hid (Array.not_mem_empty id)

/-- How two analyses end: they refuse the text for the same cause, up to ids, at the same place, or
they accept the same tree with shifted ids and find out the same about its nodes. -/
inductive ShiftedOutcome (d : Nat) : Except Failure Analysis → Except Failure Analysis → Prop
  | refused {error error' : Error} (h : error.Shifted d error') :
    ShiftedOutcome d (.error (.error error)) (.error (.error error'))
  | accepted {p : Program} {s s' : AnalysisState} (h : s.Shifted d s') :
    ShiftedOutcome d (.ok ⟨p, s⟩) (.ok ⟨p.shift d, s'⟩)

/-- A program that is read from tokens has the same outcome with later ids. -/
theorem Program.analyze_shift {tokens : List Token} {file : String} {firstId nextId : Nat}
    (hparse : Program.parse tokens file firstId = .ok (p, nextId))
    (h : Builtin.firstNodeId ≤ nextId) (builtins : Bool) (d : Nat) :
    ShiftedOutcome d (p.analyze builtins nextId) ((p.shift d).analyze builtins (nextId + d)) := by
  have hfollows := Check.program_shifts builtins (Program.parse_written hparse).2
    (initial_tandem h d)
  have htotal := Program.analyze_total builtins hparse
  unfold Program.analyze at htotal ⊢
  cases hrun : Check.program builtins .silent p (.initial nextId) with
  | ok a t =>
    obtain ⟨a', t', hrun', -, ht⟩ := hfollows.of_ok hrun
    rw [hrun']
    exact .accepted ht.toShifted
  | error failure t =>
    obtain ⟨error, rfl⟩ : ∃ error, failure = .error error := by
      rw [hrun] at htotal
      rcases htotal with ⟨a, ha⟩ | ⟨error, herror⟩
      · cases ha
      · exact ⟨error, Except.error.inj herror⟩
    obtain ⟨failure', t', hrun', hfailure⟩ := hfollows.of_error hrun
    rw [hrun']
    cases hfailure with
    | error herror => exact .refused herror

/-- Where the counter of ids stands makes no difference. From any two first ids that are no ids of
builtin placeholders, one of them `d` after the other, a source text is refused at the same place
for the same cause, or the same tree is accepted and the same is found out about its nodes, with the
ids of nodes and placeholders and those in the names of lambdas shifted by the difference `d`. -/
theorem analyzeSource_shift (source file : String) (builtins : Bool) {first : Nat}
    (h : Builtin.firstNodeId ≤ first) (d : Nat) :
    ShiftedOutcome d (analyzeSource source file builtins first)
      (analyzeSource source file builtins (first + d)) := by
  unfold analyzeSource
  cases htokens : Token.tokenize source file with
  | error error =>
    obtain ⟨c, -, -, hcause⟩ := (Token.stopped_of_tokenize htokens).found
    have hplain : error.cause.isPlain = true := hcause ▸ rfl
    exact .refused ⟨.same hplain, rfl⟩
  | ok tokens =>
    have hfollows := Program.parse_follows tokens file h d
    change ShiftedOutcome d (Program.parse tokens file first >>= _)
      (Program.parse tokens file (first + d) >>= _)
    cases hparse : Program.parse tokens file first with
    | error failure =>
      obtain ⟨last, hlast, heof⟩ := Token.tokenize_getLast? htokens
      obtain ⟨error, rfl⟩ := Program.parse_reports hlast heof hparse
      rw [hparse] at hfollows
      obtain ⟨hparse', hplain⟩ := hfollows
      rw [hparse']
      exact .refused ⟨.same hplain, rfl⟩
    | ok parsed =>
      obtain ⟨p, nextId⟩ := parsed
      rw [hparse] at hfollows
      rw [hfollows]
      have hbounds := (Program.parse_fresh hparse).1.bounds p.info.id List.mem_cons_self
      have hnext : Builtin.firstNodeId ≤ nextId := by omega
      exact Program.analyze_shift hparse hnext builtins d

/-- A lambda is handed to a template. -/
theorem analyzeSource_shift_lambda :
    ∃ a b, analyzeSource "func at(f, x) { return f(x); } const c = at(-> (x: int) in x + 1, 3);"
        "main" true 1024 = .ok a ∧
      analyzeSource "func at(f, x) { return f(x); } const c = at(-> (x: int) in x + 1, 3);"
        "main" true (1024 + 1000) = .ok b ∧ a.state.Shifted 1000 b.state := by
  have hrun : (analyzeSource "func at(f, x) { return f(x); } const c = at(-> (x: int) in x + 1, 3);"
      "main" true 1024).toOption.isSome = true := by decide +kernel
  have hsame := analyzeSource_shift
    "func at(f, x) { return f(x); } const c = at(-> (x: int) in x + 1, 3);" "main" true
    (by decide : Builtin.firstNodeId ≤ 1024) 1000
  cases ha : analyzeSource "func at(f, x) { return f(x); } const c = at(-> (x: int) in x + 1, 3);"
      "main" true 1024 with
  | error e =>
    rw [ha] at hrun
    cases hrun
  | ok a =>
    rw [ha] at hsame
    generalize analyzeSource "func at(f, x) { return f(x); } const c = at(-> (x: int) in x + 1, 3);"
      "main" true (1024 + 1000) = other at hsame ⊢
    cases hsame with
    | accepted h => exact ⟨_, _, rfl, rfl, h⟩

end Frontend
