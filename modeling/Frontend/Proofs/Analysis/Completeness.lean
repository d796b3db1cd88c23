import Frontend.Proofs.Analysis.Source

/-!
# Complete analyses and single writes

No run tries to write a type, a link or a scope twice, and none writes anything in the body of a
template, whether it gives a result or fails. A run that gives a result has filled every slot of
analysed code.
-/

namespace Frontend

/-- The slot at a site is filled: an expression has a type, a name has a symbol unless it is an
underscore that nothing declares, a declaration has a symbol unless it is an underscore, a
function, block or `let` statement has a scope, and a lambda is done. -/
def Site.Filled (s : AnalysisState) : Site → Prop
  | .expr e | .callee e => (s.types[e.id]?).isSome
  | .reference env info name => (s.links[info.id]?).isSome ∨ name = "_" ∧ env.find? name = none
  | .declaration info name => name = "_" ∨ ∃ handle, s.links[info.id]? = some (.var handle)
  | .scope info => (s.scopes[info.id]?).isSome
  | .lambda d => s.progress[d.info.id]? = some .done

/-- What is resolved is filled. -/
theorem Site.Resolved.filled {s : AnalysisState} {site : Site} (h : site.Resolved s) :
    site.Filled s := by
  cases site with
  | expr e =>
    obtain ⟨type, ht, -⟩ := h
    exact Option.isSome_iff_exists.mpr ⟨type, ht⟩
  | callee e =>
    obtain ⟨type, ht, -⟩ := h
    exact Option.isSome_iff_exists.mpr ⟨type, ht⟩
  | reference env info name =>
    cases h with
    | ofVariable _ _ hl => exact .inl (Option.isSome_iff_exists.mpr ⟨_, hl⟩)
    | ofFunction _ hl _ => exact .inl (Option.isSome_iff_exists.mpr ⟨_, hl⟩)
    | ignored hfind hn _ => exact .inr ⟨hn, hfind⟩
  | declaration info name =>
    rcases eq_or_ne name "_" with hn | hn
    · exact .inl hn
    · obtain ⟨handle, v, hl, -⟩ := h hn
      exact .inr ⟨handle, hl⟩
  | scope info => exact h
  | lambda d => exact h

/-- On every program that is read from tokens, a run of registration and resolution writes no slot
twice and nothing in the bodies of templates, also if it fails. If a source text is accepted, then
every definition of analysed code is done and all its slots are filled. -/
theorem analyzeSource_complete (file : String) (builtins : Bool) (firstId : Nat) :
    (∀ tokens p nextId, Program.parse tokens file firstId = .ok (p, nextId) →
      Ensures (Clean p) (Check.program builtins .silent p) (.initial nextId)
        fun _ t => Untouched p t) ∧
    ∀ source a, analyzeSource source file builtins firstId = .ok a →
      ∀ d, AnalysedCode a.program a.state d → a.state.progress[d.info.id]? = some .done ∧
        ∀ site ∈ d.sites a.program, site.Filled a.state := by
  refine ⟨fun tokens p nextId hparse => ?_, fun source a h d hd => ?_⟩
  · exact (program_ensures builtins Observer.silent_passive (Program.parse_wellFormed hparse)).imp
      fun _ t _ hcompleted => hcompleted.inv.untouched
  · have hcompleted := analyzeSource_completed h
    exact ⟨hcompleted.done hd, fun site hm => (hcompleted.resolved hd hm).filled⟩

/-- A program with a template, whose body is left alone, and a constant that needs an instance. -/
theorem analyzeSource_complete_template :
    ∃ tokens p nextId a d, Program.parse tokens "main" 0 = .ok (p, nextId) ∧
      Ensures (Clean p) (Check.program false .silent p) (.initial nextId)
        (fun _ t => Untouched p t) ∧
      analyzeSource "func same(x) { return x; } const c = same(1);" "main" false 0 = .ok a ∧
      AnalysedCode a.program a.state d ∧ a.state.progress[d.info.id]? = some .done ∧
        ∀ site ∈ d.sites a.program, site.Filled a.state := by
  have hrun : ((analyzeSource "func same(x) { return x; } const c = same(1);" "main" false
      0).toOption.any fun a => a.program.definitions.any fun d =>
        d.isAnalysed && (d.sites a.program).any fun _ => true) = true := by decide +kernel
  obtain ⟨a, d, _, ha, hd, -, -⟩ := exists_site (fun _ _ => true) hrun
  obtain ⟨tokens, nextId, hparse, -⟩ := analyzeSource_eq_ok ha
  obtain ⟨hsingle, hfilled⟩ := analyzeSource_complete "main" false 0
  obtain ⟨hdone, hsites⟩ := hfilled _ a ha d hd
  exact ⟨tokens, _, nextId, a, d, hparse, hsingle _ _ _ hparse, ha, hd, hdone, hsites⟩

end Frontend
