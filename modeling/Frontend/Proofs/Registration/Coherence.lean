import Frontend.Proofs.Calls.Overload
import Frontend.Proofs.Registration.Run

/-!
# Coherent overloads

Functions that declare the same have one name and ask the same of their arguments, where all
placeholders ask the same. A call, however, does not look at placeholders. The two notions fit:
functions of one name that take the same arguments and have their placeholders at the same places
declare the same, as at the other places both have the type of the argument. Registration leaves no
two functions that declare the same, so the functions that take a call differ in their placeholders.
-/

namespace Frontend

/-! ### Functions that declare the same -/

/-- What a parameter asks of its argument; all placeholders ask the same. -/
def VarSymbol.pattern (v : VarSymbol) : Option (Option Ty) :=
  if v.isTemplate then none else some v.type

namespace FuncSymbol

theorem sameParam_iff (p q : VarSymbol) : sameParam p q = true ↔ p.pattern = q.pattern := by
  unfold sameParam VarSymbol.pattern
  cases p.isTemplate <;> cases q.isTemplate <;> simp

theorem zip_sameParam_iff (ps qs : List VarSymbol) :
    (ps.length = qs.length ∧ ((ps.zip qs).all fun (p, q) => sameParam p q) = true) ↔
      ps.map VarSymbol.pattern = qs.map VarSymbol.pattern := by
  induction ps generalizing qs with
  | nil => cases qs <;> simp
  | cons p ps ih =>
    cases qs with
    | nil => simp
    | cons q qs =>
      rw [List.map_cons, List.map_cons, List.cons.injEq, ← ih, ← sameParam_iff]
      simp only [List.length_cons, Nat.add_right_cancel_iff, List.zip_cons_cons, List.all_cons,
        Bool.and_eq_true]
      exact and_left_comm

/-- Declaring the same is having the same name and the same patterns. -/
theorem sameDeclaration_iff (f g : FuncSymbol) : f.sameDeclaration g = true ↔
    f.name = g.name ∧ f.params.map VarSymbol.pattern = g.params.map VarSymbol.pattern := by
  rw [← zip_sameParam_iff, sameDeclaration, Bool.and_eq_true, Bool.and_eq_true, beq_iff_eq,
    beq_iff_eq, and_assoc]

theorem sameDeclaration_equivalence :
    Equivalence fun f g : FuncSymbol => f.sameDeclaration g = true where
  refl f := (sameDeclaration_iff f f).mpr ⟨rfl, rfl⟩
  symm {f g} h := by
    obtain ⟨hname, hparams⟩ := (sameDeclaration_iff f g).mp h
    exact (sameDeclaration_iff g f).mpr ⟨hname.symm, hparams.symm⟩
  trans {f g k} h h' := by
    obtain ⟨hname, hparams⟩ := (sameDeclaration_iff f g).mp h
    obtain ⟨hname', hparams'⟩ := (sameDeclaration_iff g k).mp h'
    exact (sameDeclaration_iff f k).mpr ⟨hname.trans hname', hparams.trans hparams'⟩

/-! ### Functions that take the same arguments -/

/-- All parameters have a type. -/
def IsTyped (f : FuncSymbol) : Prop := ∀ v ∈ f.params, v.type.isSome

/-- The `i`-th parameter is a placeholder. -/
def PlaceholderAt (f : FuncSymbol) (i : Nat) : Prop :=
  ∃ v, f.params[i]? = some v ∧ v.isTemplate = true

theorem not_placeholderAt {f : FuncSymbol} (h : f.isTemplate = false) (i : Nat) :
    ¬ f.PlaceholderAt i := by
  rintro ⟨v, hv, ht⟩
  rw [isTemplate, List.any_eq_false] at h
  exact h v (List.mem_of_getElem? hv) ht

variable {f g : FuncSymbol} {args : List Ty}

theorem placeholderAt_iff {f : FuncSymbol} {i : Nat} (h : i < f.params.length) :
    f.PlaceholderAt i ↔ f.params[i].isTemplate = true := by
  simp [PlaceholderAt, List.getElem?_eq_getElem h]

/-- A parameter that takes an argument is a placeholder or has the type of the argument. -/
theorem pattern_of_accepts {v : VarSymbol} {arg : Ty} (htyped : v.type.isSome)
    (h : (v.type.getD .unit).Accepts arg) :
    v.pattern = if v.isTemplate then none else some (some arg) := by
  obtain ⟨type, htype⟩ := Option.isSome_iff_exists.mp htyped
  rw [htype, Option.getD_some] at h
  unfold VarSymbol.pattern VarSymbol.isTemplate
  rw [htype, Option.any_some]
  split
  · rfl
  · next ht => rw [h.resolve_left ht]

/-- What parameters ask is known from the arguments they take and from where their placeholders
are. -/
theorem patterns_of_accepts {params : List VarSymbol} {args : List Ty}
    (htyped : ∀ v ∈ params, v.type.isSome)
    (h : List.Forall₂ (fun v arg => (v.type.getD .unit).Accepts arg) params args) :
    params.map VarSymbol.pattern = List.zipWith
      (fun placeholder arg => if placeholder = true then none else some (some arg))
      (params.map VarSymbol.isTemplate) args := by
  induction h with
  | nil => rfl
  | cons hv _ ih =>
    rw [List.forall_mem_cons] at htyped
    rw [List.map_cons, List.map_cons, List.zipWith_cons_cons, ih htyped.2,
      pattern_of_accepts htyped.1 hv]

variable {f g : FuncSymbol} {args : List Ty}

theorem accepts_of_score (h : 0 < Overload.score f args) :
    List.Forall₂ (fun v arg => (v.type.getD .unit).Accepts arg) f.params args :=
  List.forall₂_map_left_iff.mp ((Overload.scoreParams_pos_iff _ _).mp h)

/-- Functions of one name that take the same arguments and have the same placeholders declare the
same. -/
theorem sameDeclaration_of_score (hf : f.IsTyped) (hg : g.IsTyped) (hname : f.name = g.name)
    (hfargs : 0 < Overload.score f args) (hgargs : 0 < Overload.score g args)
    (hplaces : ∀ i, f.PlaceholderAt i ↔ g.PlaceholderAt i) : f.sameDeclaration g = true := by
  have hfaccepts := accepts_of_score hfargs
  have hgaccepts := accepts_of_score hgargs
  have hlen : f.params.length = g.params.length :=
    hfaccepts.length_eq.trans hgaccepts.length_eq.symm
  have htemplates : f.params.map VarSymbol.isTemplate = g.params.map VarSymbol.isTemplate := by
    refine List.ext_getElem (by simpa using hlen) fun i hi hi' => ?_
    rw [List.length_map] at hi hi'
    rw [List.getElem_map, List.getElem_map, Bool.eq_iff_iff, ← placeholderAt_iff hi,
      ← placeholderAt_iff hi']
    exact hplaces i
  refine (sameDeclaration_iff f g).mpr ⟨hname, ?_⟩
  rw [patterns_of_accepts hf hfaccepts, patterns_of_accepts hg hgaccepts, htemplates]

end FuncSymbol

/-! ### Overloads in a store -/

namespace Store

/-- The global functions of a name that take the arguments. -/
def applicable (s : Store) (name : String) (args : List Ty) : List (FuncId × FuncSymbol) :=
  (s.lookupFunctions name).filter fun c => decide (0 < Overload.score c.2 args)

/-- The global functions declare different things, and those that take a call have placeholders at
different places; one of them at most has none. -/
structure Coherent (s : Store) : Prop where
  different : s.globalFuncs.Pairwise fun c d => c.2.sameDeclaration d.2 = false
  placed : ∀ name args, (s.applicable name args).Pairwise fun c d =>
    ¬ ∀ i, c.2.PlaceholderAt i ↔ d.2.PlaceholderAt i
  free : ∀ name args, ((s.applicable name args).filter fun c => !c.2.isTemplate).length ≤ 1

/-- Functions that declare different things are coherent, if the types of all parameters are
known. -/
theorem coherent_of_different {s : Store}
    (h : s.globalFuncs.Pairwise fun c d => c.2.sameDeclaration d.2 = false)
    (htyped : ∀ c ∈ s.globalFuncs, c.2.IsTyped) : s.Coherent := by
  have hplaced : ∀ name args, (s.applicable name args).Pairwise fun c d =>
      ¬ ∀ i, c.2.PlaceholderAt i ↔ d.2.PlaceholderAt i := by
    intro name args
    refine List.Pairwise.imp_of_mem (fun {c d} hc hd hdifferent hplaces => ?_)
      ((h.filter _).filter _)
    obtain ⟨hc, hcargs⟩ := List.mem_filter.mp hc
    obtain ⟨hd, hdargs⟩ := List.mem_filter.mp hd
    obtain ⟨hc, hcname⟩ := List.mem_filter.mp hc
    obtain ⟨hd, hdname⟩ := List.mem_filter.mp hd
    have hname := (beq_iff_eq.mp hcname).trans (beq_iff_eq.mp hdname).symm
    have hsame := FuncSymbol.sameDeclaration_of_score (htyped c hc) (htyped d hd) hname
      (of_decide_eq_true hcargs) (of_decide_eq_true hdargs) hplaces
    rw [hdifferent] at hsame
    cases hsame
  refine ⟨h, hplaced, fun name args => ?_⟩
  have hpairs := (hplaced name args).filter fun c => !c.2.isTemplate
  have hfree : ∀ c ∈ (s.applicable name args).filter fun c => !c.2.isTemplate,
      c.2.isTemplate = false := fun c hc => by simpa using (List.mem_filter.mp hc).2
  generalize (s.applicable name args).filter (fun c => !c.2.isTemplate) = cs at hpairs hfree ⊢
  match cs with
  | [] => exact Nat.zero_le 1
  | [_] => exact Nat.le_refl 1
  | c :: d :: _ =>
    -- without placeholders they are at the same places, namely at none
    have hc := FuncSymbol.not_placeholderAt (hfree c (by simp))
    have hd := FuncSymbol.not_placeholderAt (hfree d (by simp))
    refine absurd (fun i => iff_of_false (hc i) (hd i)) ?_
    exact (List.pairwise_cons.mp hpairs).1 d List.mem_cons_self

end Store

/-! ### Registration -/

theorem Builtin.isTyped {f : FuncSymbol} (h : f ∈ Builtin.all) : f.IsTyped := by
  have hall : (Builtin.all.all fun f => f.params.all fun v => v.type.isSome) = true := by decide
  intro v hv
  exact List.all_eq_true.mp (List.all_eq_true.mp hall f h) v hv

theorem WellDeclared.isTyped {builtins : Bool} {ds : List Definition} (h : WellDeclared builtins ds)
    {f : FuncSymbol} (hf : f ∈ headings builtins (functionsOf ds)) : f.IsTyped := by
  rcases List.mem_append.mp hf with hf | hf
  · cases builtins with
    | false => cases hf
    | true => exact Builtin.isTyped hf
  · obtain ⟨d, hd, rfl⟩ := List.mem_map.mp hf
    intro v hv
    obtain ⟨q, hq, rfl⟩ := List.mem_map.mp hv
    have hq : annotationOffences q.type = [] := by
      refine (annotationOffences_eq_nil _).mpr fun annot htype => ?_
      refine h.known _ (mem_functionsOf hd) annot (List.mem_append_left _ ?_)
      exact List.mem_filterMap.mpr ⟨q, hq, htype⟩
    rw [Param.symbol_eq hq]
    rfl

/-- Declaring the same is an equivalence, and the global functions of a program that is registered
are coherent. -/
theorem register_coherent {builtins : Bool} {p : Program} {nextId : Nat} {s : AnalysisState}
    (h : Check.register builtins p (.initial nextId) = .ok () s) :
    (Equivalence fun f g : FuncSymbol => f.sameDeclaration g = true) ∧ s.store.Coherent := by
  obtain ⟨hnil, hregistered⟩ := (Check.register_offences builtins p nextId).of_ok h
  have hwell := (p.offences_eq_nil_iff builtins).mp hnil
  have hsymbols : s.store.globalFuncs.map (·.2) = headings builtins (functionsOf p.definitions) :=
    hregistered.symbols
  refine ⟨FuncSymbol.sameDeclaration_equivalence, Store.coherent_of_different ?_ fun c hc => ?_⟩
  · have hpairs := hwell.functions
    rw [← hsymbols, List.pairwise_map] at hpairs
    exact hpairs
  · exact hwell.isTyped (hsymbols ▸ List.mem_map_of_mem hc)

/-- Three functions take the same call, with placeholders at different places. -/
theorem register_coherent_template :
    ∃ (p : Program) (nextId : Nat) (s : AnalysisState),
      Check.register true p (.initial nextId) = .ok () s ∧
      (s.store.applicable "f" [.int, .int]).length = 3 ∧
      (Equivalence fun f g : FuncSymbol => f.sameDeclaration g = true) ∧ s.store.Coherent := by
  have hrun : ((Token.tokenize
      "func f(x, y) { } func f(x: int, y) { } func f(x: int, y: int) { }"
      "main").toOption.bind fun tokens =>
        (Program.parse tokens "main" Builtin.firstNodeId).toOption).any (fun r =>
          (EStateM.run' (do Check.register true r.1; Check.store) (.initial r.2)).any fun st =>
            (st.applicable "f" [.int, .int]).length = 3) = true := by
    decide +kernel
  obtain ⟨⟨p, nextId⟩, -, hstore⟩ := (Option.any_eq_true _ _).mp hrun
  unfold EStateM.run' at hstore
  simp only [EStateM.run, bind, EStateM.bind] at hstore
  cases hs : Check.register true p (.initial nextId) with
  | error e s =>
    rw [hs] at hstore
    cases hstore
  | ok _ s =>
    rw [hs] at hstore
    exact ⟨p, nextId, s, hs, of_decide_eq_true hstore, register_coherent hs⟩

end Frontend
