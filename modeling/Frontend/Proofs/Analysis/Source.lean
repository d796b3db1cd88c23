import Frontend.Proofs.Analysis.Registration
import Frontend.Proofs.Parser.Program

/-!
# From source texts to completed analyses

What is read from tokens is a program as the analysis needs it, so the analysis of a source text
either completes or fails without a trace.
-/

namespace Frontend

variable {source file : String} {builtins : Bool} {firstId nextId : Nat} {tokens : List Token}
  {p : Program} {a : Analysis}

/-- What is read from tokens has different ids below the next free one and is well shaped. -/
theorem Program.parse_wellFormed (h : Program.parse tokens file firstId = .ok (p, nextId)) :
    p.WellFormed nextId := by
  obtain ⟨hfresh, hshaped⟩ := Program.parse_fresh h
  refine ⟨(List.nodup_cons.mp hfresh.nodup).2, fun node hm => ?_, hshaped⟩
  exact (hfresh.bounds node (List.mem_cons_of_mem _ hm)).2

/-- The tokens, the program and the run behind an analysis. -/
theorem analyzeSource_stages (h : analyzeSource source file builtins firstId = .ok a) :
    ∃ tokens nextId, Token.tokenize source file = .ok tokens ∧
      Program.parse tokens file firstId = .ok (a.program, nextId) ∧
        Check.program builtins .silent a.program (.initial nextId) = .ok () a.state := by
  unfold analyzeSource at h
  cases htokens : Token.tokenize source file with
  | error e => rw [htokens] at h; cases h
  | ok tokens =>
    rw [htokens] at h
    change (Program.parse tokens file firstId >>= _) = _ at h
    cases hparse : Program.parse tokens file firstId with
    | error e => rw [hparse] at h; cases h
    | ok parsed =>
      obtain ⟨p, nextId⟩ := parsed
      rw [hparse] at h
      change p.analyze builtins nextId = _ at h
      unfold Program.analyze at h
      split at h
      · next hrun =>
        cases h
        exact ⟨tokens, nextId, rfl, hparse, hrun⟩
      · cases h

/-- The run behind an analysis. -/
theorem analyzeSource_eq_ok (h : analyzeSource source file builtins firstId = .ok a) :
    ∃ tokens nextId, Program.parse tokens file firstId = .ok (a.program, nextId) ∧
      Check.program builtins .silent a.program (.initial nextId) = .ok () a.state := by
  obtain ⟨tokens, nextId, -, hparse, hrun⟩ := analyzeSource_stages h
  exact ⟨tokens, nextId, hparse, hrun⟩

/-- An analysis of a source text is complete. -/
theorem analyzeSource_completed (h : analyzeSource source file builtins firstId = .ok a) :
    Completed a.program a.state := by
  obtain ⟨tokens, nextId, hparse, hrun⟩ := analyzeSource_eq_ok h
  exact (program_ensures builtins Observer.silent_passive (Program.parse_wellFormed hparse)).of_ok
    hrun

/-! ### Sites of given texts -/

/-- Whether a definition of a program is analysed itself, and not only in copies. -/
def Definition.isAnalysed : Definition → Bool
  | .function d => !d.isTemplate
  | .constant _ => true

theorem AnalysedCode.of_mem {s : AnalysisState} {d : Definition} (h : d ∈ p.definitions)
    (hd : d.isAnalysed = true) : AnalysedCode p s d := by
  cases d with
  | function d => exact .function h (by simpa [Definition.isAnalysed] using hd)
  | constant d => exact .constant h

/-- A text whose analysis can be seen to have a definition that passes a test. -/
theorem exists_definition (test : Analysis → Definition → Bool)
    (h : ((analyzeSource source file builtins firstId).toOption.any fun a =>
      a.program.definitions.any fun d => d.isAnalysed && test a d) = true) :
    ∃ a d, analyzeSource source file builtins firstId = .ok a ∧
      AnalysedCode a.program a.state d ∧ test a d = true := by
  cases hrun : analyzeSource source file builtins firstId with
  | error e => rw [hrun] at h; cases h
  | ok a =>
    rw [hrun] at h
    obtain ⟨d, hd, htest⟩ := List.any_eq_true.mp h
    obtain ⟨hanalysed, htest⟩ := Bool.and_eq_true_iff.mp htest
    exact ⟨a, d, rfl, .of_mem hd hanalysed, htest⟩

/-- A text whose analysis can be seen to have a site that passes a test. -/
theorem exists_site (test : AnalysisState → Site → Bool)
    (h : ((analyzeSource source file builtins firstId).toOption.any fun a =>
      a.program.definitions.any fun d =>
        d.isAnalysed && (d.sites a.program).any (test a.state)) = true) :
    ∃ a d site, analyzeSource source file builtins firstId = .ok a ∧
      AnalysedCode a.program a.state d ∧ site ∈ d.sites a.program ∧
        test a.state site = true := by
  obtain ⟨a, d, ha, hd, htest⟩ :=
    exists_definition (fun a d => (d.sites a.program).any (test a.state)) h
  obtain ⟨site, hm, hsite⟩ := List.any_eq_true.mp htest
  exact ⟨a, d, site, ha, hd, hm, hsite⟩

end Frontend
