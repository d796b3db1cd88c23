import Frontend.Proofs.Analysis.Termination
import Frontend.Proofs.Types.Moments

/-!
# Defaults that are never used

Where a parameter has no type, a call no result or a definition is not found, the analysis has a
default to fall back on, or an error that no text can explain. None is ever reached: at each moment
of a run what the analysis is about to read is there (`Moment.Explicit`), and no run fails with the
report of a return statement outside of a function (`analysis_explicit`).
-/

namespace Frontend

open Check

/-- No parameter of a function has the type unit for want of a type. -/
def Store.ParamsTyped (s : Store) : Prop :=
  ∀ id f, s.func? id = some f → f.params.map (·.type) = f.paramTypes.map some

/-- A function that a call may select, or an instance that may be selected in its place. -/
def AnalysisState.CanCall (s : AnalysisState) (id : FuncId) : Prop :=
  id ∈ s.store.functions ∨ ∃ i ∈ s.known, i.func = id

/-- What the analysis has a default for is there at a moment of a run. -/
structure Moment.Explicit (p : Program) (m : Moment) : Prop where
  /-- The types of parameters are those that the parameters have. -/
  params : m.state.store.ParamsTyped
  /-- The result of a call is known, unless the definition of the function is not done; and that is
  analysed before the result is read, or is under analysis and the call is refused. -/
  results : ∀ id, m.state.CanCall id → ∃ f, m.state.store.func? id = some f ∧
    ((f.result?).isSome ∨ ∃ d, f.decl = some d ∧ m.state.progress[d.info.id]? ≠ some .done)
  /-- Where the analysis of a function ends, that of a lambda among them, its result is known. -/
  answered : ∀ node, m.visit = .finish node → m.state.Answered p node
  /-- Where a call or a name has got its type, the function that it stands for has a type, which the
  name in the call has got before. -/
  understood : ∀ node, (m.state.types[node]?).isSome → m.state.Understood node
  /-- In a definition that is done each name in a call has a type. -/
  callees : ∀ d e, Defined p m.state d → m.state.progress[d.info.id]? = some .done →
    .callee e ∈ d.sites p → (m.state.types[e.id]?).isSome
  /-- Each constant that the program defines is found by its name. -/
  constants : ∀ d c, .constant d ∈ p.definitions → c ∈ d.decls →
    (m.state.store.lookupConstant c.name).isSome
  /-- In the definitions at hand a compound assignment has one target and one value, and what is
  declared without values has types. -/
  shaped : ∀ d, Defined p m.state d → d.WellShaped

variable {p : Program} {l : Terrain} {s : AnalysisState}

/-- The parameters of all functions have types, in whatever state. -/
theorem AnalysisState.Kept.paramsTyped (h : s.Kept p l) : s.store.ParamsTyped := by
  intro id f hf
  rw [FuncSymbol.paramTypes, List.map_map]
  refine List.map_congr_left fun v hv => ?_
  obtain ⟨type, htype, -⟩ := (h.func hf).params v hv
  rw [Function.comp_apply, htype, Option.getD_some]

/-- A function of a definition at hand has a result once the definition is done. -/
theorem Inv.result_of_decl (hi : Inv p s) {id : FuncId} {f : FuncSymbol} {d : FuncDef}
    (hf : s.store.func? id = some f) (hdecl : f.decl = some d) (hd : Defined p s (.function d)) :
    (f.result?).isSome ∨ ∃ d, f.decl = some d ∧ s.progress[d.info.id]? ≠ some .done := by
  by_cases hdone : s.progress[d.info.id]? = some .done
  · exact .inl (FuncSymbol.result?_of_ret (hi.settled hd hf hdecl hdone))
  · exact .inr ⟨d, hdecl, hdone⟩

/-- What a call gives is known, or the function has still to be analysed. -/
theorem Inv.result_of_canCall (hi : Inv p s) {id : FuncId} (h : s.CanCall id) :
    ∃ f, s.store.func? id = some f ∧
      ((f.result?).isSome ∨ ∃ d, f.decl = some d ∧ s.progress[d.info.id]? ≠ some .done) := by
  rcases h with hm | ⟨i, hm, rfl⟩
  · obtain ⟨f, hf, hglobal⟩ := hi.functions hm
    refine ⟨f, hf, ?_⟩
    cases hglobal with
    | builtin _ hret =>
      refine .inl (FuncSymbol.result?_of_ret fun hvalue => hret.resolve_left fun hproc => ?_)
      rw [hproc] at hvalue
      cases hvalue
    | program hdecl hmem => exact hi.result_of_decl hf hdecl (.program hmem)
  · obtain ⟨f, copy, template, hinst⟩ := hi.known hm
    exact ⟨f, hinst.func, hi.result_of_decl hinst.func hinst.decl (.copy hinst.copied)⟩

/-- No default of the analysis is ever used. At each moment in the analysis of a program that is
read from tokens, the types of parameters, the results of functions, the functions that calls stand
for and the constants are known where they are read, and each definition has the shape that its
analysis takes for granted. The parameters of all functions have types when the run ends, with a
result or an error, and the error is not that a return statement lies outside of a function. -/
theorem analysis_explicit {tokens : List Token} {file : String} {firstId nextId : Nat}
    (builtins : Bool) (h : Program.parse tokens file firstId = .ok (p, nextId)) :
    (∃ log : List Moment,
      Passes (fun look => Check.program builtins (.looking look) p) (.initial nextId) log ∧
      ∀ m ∈ log, m.Explicit p) ∧
    Ensures (fun e t => t.store.ParamsTyped ∧ ∀ error, e = .error error → ¬ error.IsStrayReturn)
      (Check.program builtins .silent p) (.initial nextId) fun _ t => t.store.ParamsTyped := by
  have hp := Program.parse_wellFormed h
  have hregular := Program.parse_regular_terrain h
  have hfresh : ∀ node, nextId ≤ node → p.Free node := fun _ => hp.free_of_le
  constructor
  · obtain ⟨log, hpass, -⟩ := program_logged builtins p (.initial nextId)
    refine ⟨log, hpass, fun m hm => ?_⟩
    have hi := inv_of_passes hp hpass m hm
    have hkept := kept_of_passes hregular hfresh (Program.parse_numbered h) hpass m hm
    exact
      { params := hkept.state.paramsTyped
        results := fun _ => hi.result_of_canCall
        answered := fun _ => (orderly_of_passes hp hpass m hm).answered
        understood := fun _ => hi.understood
        callees := fun _ _ hd hdone hm => by
          obtain ⟨-, type, htype, -⟩ := hi.analysed hd hdone _ hm
          exact Option.isSome_iff_exists.mpr ⟨type, htype⟩
        constants := fun _ _ hd hc => hi.lookupConstant hd hc
        shaped := fun _ => hi.shaped }
  · have hkept := program_keepsTypes hregular hfresh (Program.parse_numbered h)
      Observer.silent_accepting builtins
    have hrun := program_completes builtins Observer.silent_passive hp
    cases hend : Check.program builtins .silent p (.initial nextId) with
    | ok _ t =>
      rw [Ensures, hend]
      exact (hkept.of_ok hend).1.paramsTyped
    | error e t =>
      rw [Ensures, hend]
      exact ⟨(hkept.of_error hend).kept.paramsTyped, (hrun.of_error hend).inside⟩

/-- A template, a variable without a value, a compound assignment, a lambda and a constant. -/
theorem analysis_explicit_mixed :
    ∃ (tokens : List Token) (p : Program) (nextId : Nat),
      Program.parse tokens "main" 0 = .ok (p, nextId) ∧
      (∃ log : List Moment,
        Passes (fun look => Check.program true (.looking look) p) (.initial nextId) log ∧
        ∀ m ∈ log, m.Explicit p) ∧
      Ensures (fun e t => t.store.ParamsTyped ∧ ∀ error, e = .error error → ¬ error.IsStrayReturn)
        (Check.program true .silent p) (.initial nextId) fun _ t => t.store.ParamsTyped := by
  have hrun : ((Token.tokenize ("func same(x) { return x; } const c = same(2); " ++
      "proc main() { var n: int; n += same(c); val f = -> (a: int) in a + n; }")
      "main").toOption.bind fun tokens => (Program.parse tokens "main" 0).toOption).isSome =
        true := by decide +kernel
  obtain ⟨⟨p, nextId⟩, hparsed⟩ := Option.isSome_iff_exists.mp hrun
  obtain ⟨tokens, -, hparse⟩ := Option.bind_eq_some_iff.mp hparsed
  have hp := eq_ok_of_toOption hparse
  exact ⟨tokens, p, nextId, hp, analysis_explicit true hp⟩

end Frontend
