import Frontend.Proofs.Analysis.Source

/-!
# Typing soundness

In a source text that is accepted, each expression of analysed code has a type by the rule of its
outermost construct, relative to the types of its parts.
-/

namespace Frontend

/-- Every expression of analysed code carries a type that obeys its typing rule, and so does every
member access in the place of the function in a call. -/
theorem analyzeSource_typing {source file : String} {builtins : Bool} {firstId : Nat} {a : Analysis}
    (h : analyzeSource source file builtins firstId = .ok a) {d : Definition}
    (hd : AnalysedCode a.program a.state d) :
    (∀ e, .expr e ∈ d.sites a.program →
      ∃ type, a.state.types[e.id]? = some type ∧ Typing a.state e type) ∧
    ∀ e, .callee e ∈ d.sites a.program →
      ∃ type, a.state.types[e.id]? = some type ∧ CalleeTyping a.state e type := by
  have hcompleted := analyzeSource_completed h
  exact ⟨fun e he => hcompleted.resolved hd he, fun e he => hcompleted.resolved hd he⟩

/-- Whether a site is that of a binary expression. -/
def Site.isBinary : Site → Bool
  | .expr (.binary ..) => true
  | _ => false

/-- The sum that initialises a constant. -/
theorem analyzeSource_typing_sum :
    ∃ a d e type, analyzeSource "const c = 1 + 2;" "main" false 0 = .ok a ∧
      AnalysedCode a.program a.state d ∧ .expr e ∈ d.sites a.program ∧
        a.state.types[e.id]? = some type ∧ Typing a.state e type := by
  have hrun : ((analyzeSource "const c = 1 + 2;" "main" false 0).toOption.any fun a =>
      a.program.definitions.any fun d =>
        d.isAnalysed && (d.sites a.program).any Site.isBinary) = true := by decide +kernel
  obtain ⟨a, d, site, ha, hd, hm, hsite⟩ := exists_site (fun _ => Site.isBinary) hrun
  cases site with
  | expr e =>
    obtain ⟨type, ht, hrule⟩ := (analyzeSource_typing ha hd).1 e hm
    exact ⟨a, d, e, type, ha, hd, hm, ht, hrule⟩
  | _ => cases hsite

end Frontend
