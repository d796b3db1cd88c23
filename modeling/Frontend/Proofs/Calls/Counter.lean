import Frontend.Proofs.Analysis.Termination

/-!
# The count of instances

The analysis counts, for each template, the instances that it is inside of, and refuses to make
another one beyond the limit. The count is written from a value that is read before the instance is
analysed, where the same entry may be read and written again. Still it is exact: at each moment it
is the number of instances on the stack of definitions under analysis, behind each call of a template
it is what it was before, and the limit is reported just for a request of a new instance while as
many as allowed are on the stack (`analysis_counts`).
-/

namespace Frontend

open Check

variable {p : Program} {tokens : List Token} {file : String} {firstId nextId : Nat}

/-- At the moment a call at a position asks for an instance that there is none of yet, of a template
of the program that has as many instances on the stack as are allowed. -/
def Moment.Overdraws (p : Program) (m : Moment) (name : String) (position : Position) : Prop :=
  ∃ template ∈ p.functions, ∃ args, template.isTemplate = true ∧ template.name = name ∧
    m.visit = .request template.info.id name args position ∧
    (∀ i ∈ m.state.known, i.template = template.info.id → i.args ≠ args) ∧
    m.state.instancesOn m.stack template.info.id = instantiationLimit

namespace Orderly

/-- Where the counts are exact, the requests that are refused are those beyond the limit. -/
theorem refuses_iff {m : Moment} (h : Orderly p m.stack m.visit m.state) {name : String}
    {position : Position} : m.Refuses name position ↔ m.Overdraws p name position := by
  constructor
  · rintro ⟨_, args, hvisit, hnew, hlimit⟩
    obtain ⟨template, hmem, htemplate, rfl, rfl⟩ := h.asked hvisit
    refine ⟨template, Program.mem_functions.mpr hmem, args, htemplate, rfl, hvisit, hnew, ?_⟩
    rw [← h.stacked]
    exact Nat.le_antisymm (h.allowed _) hlimit
  · rintro ⟨template, -, args, -, -, hvisit, hnew, hcount⟩
    exact ⟨template.info.id, args, hvisit, hnew, Nat.le_of_eq ((h.stacked _).trans hcount).symm⟩

end Orderly

/-- Behind the call of a template, whether it gives an instance or fails and whatever is analysed on
the way, the instances are counted as before. -/
theorem instantiate_restores (p : Program) (depth : Nat) (stack : List Nat) (f : FuncSymbol)
    (args : List Ty) (position : Position) (s : AnalysisState) (template : Nat) :
    (finalState (instantiate (demandAt p .silent depth stack) f args position s)).active.getD
      template 0 = s.active.getD template 0 :=
  (instantiate_logged (demandAt_logged p depth stack) f args s).counted template

/-- In the analysis of a program that is read from tokens, at each moment and for each template, the
count of instances is the number of instances on the stack of definitions under analysis, and it is
within the limit. The analysis reports that there are too many instances of a template just if at one
of the moments a call asks for a new instance of the template while as many as allowed are on the
stack. Behind each call of a template, whether it gives an instance or fails, all counts are what
they were before. -/
theorem analysis_counts (builtins : Bool)
    (h : Program.parse tokens file firstId = .ok (p, nextId)) :
    (∃ log : List Moment,
      Passes (fun look => Check.program builtins (.looking look) p) (.initial nextId) log ∧
      (∀ m ∈ log, ∀ template,
        m.state.active.getD template 0 = m.state.instancesOn m.stack template ∧
          m.state.instancesOn m.stack template ≤ instantiationLimit) ∧
      ∀ name limit position,
        (∃ t, Check.program builtins .silent p (.initial nextId) =
          .error (.error ⟨.instantiationLimit name limit, position⟩) t) ↔
        limit = instantiationLimit ∧ ∃ m ∈ log, m.Overdraws p name position) ∧
    ∀ depth stack f args position s template,
      (finalState (instantiate (demandAt p .silent depth stack) f args position s)).active.getD
        template 0 = s.active.getD template 0 := by
  refine ⟨?_, instantiate_restores p⟩
  obtain ⟨log, hlog⟩ := program_logged builtins p (.initial nextId)
  have horderly := orderly_of_passes (Program.parse_wellFormed h) hlog.passes
  refine ⟨log, hlog.passes, fun m hm template => ?_, fun name limit position => ?_⟩
  · have hstacked := (horderly m hm).stacked template
    exact ⟨hstacked, hstacked ▸ (horderly m hm).allowed template⟩
  · have hrefused := hlog.refused name limit position
    refine hrefused.trans (and_congr_right fun _ => exists_congr fun m => ?_)
    exact and_congr_right fun hm => (horderly m hm).refuses_iff

/-- A template that asks for an instance of itself for ever new types overdraws the limit. -/
theorem analysis_counts_growing :
    ∃ (tokens : List Token) (p : Program) (nextId : Nat),
      Program.parse tokens "main" 0 = .ok (p, nextId) ∧
      ∃ log : List Moment,
        Passes (fun look => Check.program false (.looking look) p) (.initial nextId) log ∧
        (∀ m ∈ log, ∀ template,
          m.state.active.getD template 0 = m.state.instancesOn m.stack template ∧
            m.state.instancesOn m.stack template ≤ instantiationLimit) ∧
        ∃ position, ∃ m ∈ log, m.Overdraws p "grow" position := by
  have hrun : (((Token.tokenize "func grow(x) { return grow([x]); } const c = grow(1);"
      "main").toOption.bind fun tokens => (Program.parse tokens "main" 0).toOption).map fun r =>
        match Check.program false .silent r.1 (.initial r.2) with
        | .error (.error e) _ => some e.cause
        | _ => none) = some (some (.instantiationLimit "grow" instantiationLimit)) := by
    decide +kernel
  obtain ⟨⟨p, nextId⟩, hread, hcause⟩ := Option.map_eq_some_iff.mp hrun
  obtain ⟨tokens, -, hparse⟩ := Option.bind_eq_some_iff.mp hread
  obtain ⟨⟨log, hpass, hcounts, hreport⟩, -⟩ := analysis_counts false (eq_ok_of_toOption hparse)
  refine ⟨tokens, p, nextId, eq_ok_of_toOption hparse, log, hpass, hcounts, ?_⟩
  dsimp only at hcause
  split at hcause
  · next e t hend =>
    obtain ⟨cause, position⟩ := e
    cases hcause
    exact ⟨position, ((hreport _ _ _).mp ⟨t, hend⟩).2⟩
  · cases hcause

end Frontend
