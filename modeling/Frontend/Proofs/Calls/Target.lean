import Frontend.Proofs.Analysis.Source

/-!
# What calls are linked to

In a source text that is accepted, a call by name is linked to what overload selection picks for
the types of its arguments: the candidate itself or, of a template, the one instance for these
types. The type of the call is what the function gives.
-/

namespace Frontend

/-- The name and the arguments of a call by name, a receiver being the first argument. A member
access is a call without further arguments. -/
def Expr.named? : Expr → Option (String × List Expr)
  | .call _ (.varRef _ name _) args => some (name, args)
  | .call _ (.member _ receiver name) args => some (name, receiver :: args)
  | .member _ receiver name => some (name, [receiver])
  | _ => none

/-- A call or a member access. -/
def Expr.isCall : Expr → Bool
  | .call .. | .member .. => true
  | _ => false

/-- The function `id` is the instance of a template for argument types: it was made from a copy of
the template, its parameters have these types, and there is no other instance for them. -/
structure IsInstance (p : Program) (s : AnalysisState) (template : FuncDef) (args : List Ty)
    (id : FuncId) : Prop where
  made : ∃ f copy, Instantiates p s ⟨template.info.id, args, id⟩ f copy template
  unique : ∀ i ∈ s.known, i.template = template.info.id → i.args = args → i.func = id

/-- A call by name with arguments of some types stands for the function `id`: the candidate `c`
that overload selection picks, or its instance if `c` is a template of the program. -/
structure Calls (p : Program) (s : AnalysisState) (name : String) (args : List Ty) (c : FuncId)
    (candidate : FuncSymbol) (id : FuncId) : Prop where
  picked : ∃ score, Overload.select s.store.globalFuncs name args = some ((c, candidate), score)
  itself : candidate.isBuiltin = true ∨ candidate.isTemplate = false → id = c
  instantiated : candidate.isBuiltin = false → candidate.isTemplate = true →
    ∃ template, candidate.decl = some template ∧ IsInstance p s template args id

variable {p : Program} {s : AnalysisState} {name : String} {args : List Ty} {id : FuncId}

/-- A function without placeholders only takes arguments of the types of its parameters. -/
theorem FuncSymbol.paramTypes_eq_of_accepts {f : FuncSymbol} (hf : f.isTemplate = false)
    (h : List.Forall₂ Ty.Accepts f.paramTypes args) : f.paramTypes = args := by
  have hplain : ∀ type ∈ f.paramTypes, type.isTemplate = false := by
    intro type hm
    obtain ⟨v, hv, rfl⟩ := List.mem_map.mp hm
    have hvt : v.isTemplate = false := by simpa using List.any_eq_false.mp hf v hv
    unfold VarSymbol.isTemplate at hvt
    cases hvt' : v.type with
    | none => rfl
    | some type =>
      rw [hvt'] at hvt
      exact hvt
  generalize f.paramTypes = params at h hplain
  induction h with
  | nil => rfl
  | @cons param arg params args haccepts _ ih =>
    obtain ⟨hparam, hrest⟩ := List.forall_mem_cons.mp hplain
    rcases haccepts with htemplate | rfl
    · rw [hparam] at htemplate
      cases htemplate
    · rw [ih hrest]

/-- What a call by name stands for is what overload selection picks, or its instance. -/
theorem AnalysisState.Chosen.calls (h : s.Chosen name args id) (hi : Inv p s) :
    ∃ c candidate f, Calls p s name args c candidate id ∧ s.store.func? id = some f ∧
      (f.isBuiltin = false → f.paramTypes = args) := by
  cases h with
  | @plain id f score hs hf =>
    obtain ⟨hm, -, haccepts⟩ := Overload.select_eq_some hs
    refine ⟨id, f, f, ⟨⟨score, hs⟩, fun _ => rfl, fun hb ht => ?_⟩, (hi.globalFuncs hm).1,
      fun hb => ?_⟩
    · rw [hb, ht] at hf
      cases hf
    · have ht : f.isTemplate = false := by simpa [hb] using hf
      exact FuncSymbol.paramTypes_eq_of_accepts ht haccepts
  | @made c candidate score d id hs hf hd hk =>
    obtain ⟨hm, -, -⟩ := Overload.select_eq_some hs
    obtain ⟨hfunc, hglobal⟩ := hi.globalFuncs hm
    obtain ⟨f, copy, template, hinst⟩ := hi.known hk
    have hkey : d.info.id = template.info.id := hinst.key
    have htemplate := hi.eq_of_id_eq (hglobal.mem_definitions hi hfunc hd) hinst.source hkey
    subst htemplate
    obtain ⟨ht, hb⟩ : candidate.isTemplate = true ∧ candidate.isBuiltin = false := by
      simpa using hf
    refine ⟨c, candidate, f, ⟨⟨score, hs⟩, fun hor => ?_, fun _ _ => ⟨d, hd, ⟨f, copy, hinst⟩,
      fun i hmi hit hia => ?_⟩⟩, hinst.func, fun _ => hinst.types⟩
    · rcases hor with hor | hor
      · rw [hb] at hor
        cases hor
      · rw [ht] at hor
        cases hor
    · have heq := hi.unique hmi hk hit hia
      rw [heq]

/-- A call that is linked to a function is typed as a call of it by name. -/
theorem Typing.call_of_link {e : Expr} {type : Ty} (ht : Typing s e type)
    (hc : e.isCall = true) (hl : s.links[e.id]? = some (.func id)) :
    ∃ name args types, e.named? = some (name, args) ∧ s.HaveTypes args types ∧
      s.Chosen name types id ∧ s.Gives id type := by
  cases ht with
  | memberCall hlink hr _ hchosen hgives =>
    cases hl.symm.trans hlink
    exact ⟨_, _, _, rfl, .cons hr .nil, hchosen, hgives⟩
  | callByName hlink _ ha hchosen hgives =>
    cases hl.symm.trans hlink
    exact ⟨_, _, _, rfl, ha, hchosen, hgives⟩
  | callOnReceiver hlink _ hr ha _ hchosen hgives =>
    cases hl.symm.trans hlink
    exact ⟨_, _, _, rfl, .cons hr ha, hchosen, hgives⟩
  | builtinMember hlink => cases hl.symm.trans hlink
  | callOfMember hlink => cases hl.symm.trans hlink
  | callOfValue hlink => cases hl.symm.trans hlink
  | _ => cases hc

/-- A call or a member access of analysed code that is linked to a function is linked to the one
that overload selection picks for the types of the arguments, or to the instance of it for just
these types. Unless it is builtin, the parameters of the function have these types. The type of
the call is unit for a procedure and else the result type that the function has in the end. -/
theorem analyzeSource_callTarget {source file : String} {builtins : Bool} {firstId : Nat}
    {a : Analysis} (h : analyzeSource source file builtins firstId = .ok a) {d : Definition}
    (hd : AnalysedCode a.program a.state d) {e : Expr} (he : .expr e ∈ d.sites a.program)
    (hc : e.isCall = true) {id : FuncId} (hl : a.state.links[e.id]? = some (.func id)) :
    ∃ name args types c candidate f type, e.named? = some (name, args) ∧
      a.state.HaveTypes args types ∧ Calls a.program a.state name types c candidate id ∧
      a.state.store.func? id = some f ∧ (f.isBuiltin = false → f.paramTypes = types) ∧
      a.state.types[e.id]? = some type ∧
      if f.kind = .proc then type = .unit else f.ret = some type := by
  have hcompleted := analyzeSource_completed h
  obtain ⟨type, ht, hrule⟩ := hcompleted.resolved hd he
  obtain ⟨name, args, types, hnamed, hargs, hchosen, f, hf, hgives⟩ := hrule.call_of_link hc hl
  obtain ⟨c, candidate, f', hcalls, hf', hparams⟩ := hchosen.calls hcompleted.inv
  cases hf.symm.trans hf'
  refine ⟨name, args, types, c, candidate, f, type, hnamed, hargs, hcalls, hf, hparams, ht, ?_⟩
  unfold FuncSymbol.result? at hgives
  split
  · next hproc =>
    rw [if_pos hproc] at hgives
    exact (Option.some.inj hgives).symm
  · next hproc =>
    rw [if_neg hproc] at hgives
    exact hgives

/-- Whether a site is that of a call that is linked to a function. -/
def Site.isCallTo (id : FuncId) (s : AnalysisState) : Site → Bool
  | .expr e => e.isCall && s.links[e.id]? == some (.func id)
  | _ => false

/-- The call of a template that initialises a constant. -/
theorem analyzeSource_callTarget_template :
    ∃ a d e id name args types c candidate,
      analyzeSource "func same(x) { return x; } const c = same(1);" "main" false 0 = .ok a ∧
      AnalysedCode a.program a.state d ∧ .expr e ∈ d.sites a.program ∧
      a.state.links[e.id]? = some (.func id) ∧ e.named? = some (name, args) ∧
      a.state.HaveTypes args types ∧ Calls a.program a.state name types c candidate id := by
  have hrun : ((analyzeSource "func same(x) { return x; } const c = same(1);" "main" false
      0).toOption.any fun a => a.program.definitions.any fun d =>
        d.isAnalysed && (d.sites a.program).any (Site.isCallTo 1 a.state)) = true := by
    decide +kernel
  obtain ⟨a, d, site, ha, hd, hm, hsite⟩ := exists_site (Site.isCallTo 1) hrun
  cases site with
  | expr e =>
    obtain ⟨hc, hl⟩ := Bool.and_eq_true_iff.mp hsite
    have hlink := eq_of_beq hl
    obtain ⟨name, args, types, c, candidate, _, _, hnamed, hargs, hcalls, -⟩ :=
      analyzeSource_callTarget ha hd hm hc hlink
    exact ⟨a, d, e, _, name, args, types, c, candidate, ha, hd, hm, hlink, hnamed, hargs, hcalls⟩
  | _ => cases hsite

end Frontend
