import Frontend.Proofs.Analysis.Source

/-!
# Immutable bindings

In a source text that is accepted, nothing is assigned to but indexed values, members, variables
that are declared with `var`, and underscores that stand for nothing. A compound assignment checks
its target last, other ones check each target when its value arrives; both leave the link of the
target alone from then on, wherever the assignment stands.
-/

namespace Frontend

variable {p : Program} {s : AnalysisState}

/-- In a completed analysis, the targets in analysed code may be assigned to. -/
theorem Completed.assignable (h : Completed p s) {d : Definition} (hd : AnalysedCode p s d)
    {e : Expr} (he : e ∈ d.targets) : s.Assignable e :=
  (h.inv.assigned hd.defined (h.done hd) e he).2

/-- Every target of an assignment in analysed code, be it plain or compound, in a lambda or in an
instance of a template, is an index expression, a member access, an underscore without a link, or a
name that is linked to a variable declared with `var`: one of a block, a loop or a `let` statement,
or a parameter. -/
theorem analyzeSource_assignable {source file : String} {builtins : Bool} {firstId : Nat}
    {a : Analysis} (h : analyzeSource source file builtins firstId = .ok a) {d : Definition}
    (hd : AnalysedCode a.program a.state d) {e : Expr} (he : e ∈ d.targets) :
    a.state.Assignable e :=
  (analyzeSource_completed h).assignable hd he

/-- Whether an expression is a name. -/
def Expr.isVarRef : Expr → Bool
  | .varRef .. => true
  | _ => false

/-- A lambda that assigns to a variable of the function around it. -/
theorem analyzeSource_assignable_captured :
    ∃ a d e, analyzeSource "func f() { var x = 1; val g = -> { x = 2; }; }" "main" false 0 = .ok a ∧
      AnalysedCode a.program a.state d ∧ e ∈ d.targets ∧ e.isVarRef = true ∧
        a.state.Assignable e := by
  have hrun : ((analyzeSource "func f() { var x = 1; val g = -> { x = 2; }; }" "main" false
      0).toOption.any fun a => a.program.definitions.any fun d =>
        d.isAnalysed && d.targets.any Expr.isVarRef) = true := by decide +kernel
  obtain ⟨a, d, ha, hd, htest⟩ := exists_definition (fun _ d => d.targets.any Expr.isVarRef) hrun
  obtain ⟨e, he, hname⟩ := List.any_eq_true.mp htest
  exact ⟨a, d, e, ha, hd, he, hname, analyzeSource_assignable ha hd he⟩

end Frontend
