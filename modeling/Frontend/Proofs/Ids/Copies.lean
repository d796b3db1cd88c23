import Frontend.Proofs.Ids.Unique
import Frontend.Proofs.Tree.Unnumbered

/-!
# Copies are faithful

What is known of a node is kept under its id, so a copy starts without anything known: its ids are
the next ones of the counter, under which nothing has been recorded so far. That holds of every
function, whatever has been found out about it, before the analysis of a program, at each moment of
it and when it is done (`analysis_copies`). Beside the ids nothing of the function is lost, and what
is known of it stays.
-/

namespace Frontend

open Check

/-- A copy of a function, with the state once its ids are taken from the counter. -/
def AnalysisState.copyOf (s : AnalysisState) (d : FuncDef) : FuncDef × AnalysisState :=
  let (copy, nextId) := d.copy.run s.nextId
  (copy, { s with nextId })

/-- A copy is the function under new ids, of which nothing is known; all else in the state stays as
it is. -/
structure FuncDef.CopiedBetween (p : Program) (d copy : FuncDef) (s t : AnalysisState) :
    Prop where
  alike : copy.unnumbered = d.unnumbered
  nodup : copy.ids.Nodup
  minted : ∀ id ∈ copy.ids, s.nextId ≤ id ∧ id < t.nextId
  newer : ∀ id ∈ copy.ids, ∀ node ∈ s.nodeIds p, node < id
  blank : ∀ id ∈ copy.ids, t.slots id = .empty ∧ t.copies.getD id #[] = #[]
  unchanged : t = { s with nextId := t.nextId }

/-- Every function is copied faithfully. -/
def AnalysisState.Copies (p : Program) (s : AnalysisState) : Prop :=
  ∀ d : FuncDef, d.CopiedBetween p (s.copyOf d).1 s (s.copyOf d).2

/-- Nothing is recorded under an id that has not been given out. -/
structure AnalysisState.Unminted (p : Program) (s : AnalysisState) : Prop where
  nodes : ∀ node ∈ s.nodeIds p, node < s.nextId
  slots : ∀ id, s.nextId ≤ id → s.slots id = .empty
  copies : ∀ id, s.nextId ≤ id → s.copies.getD id #[] = #[]

variable {p : Program} {s : AnalysisState} {tokens : List Token} {file : String}
  {firstId nextId : Nat}

theorem AnalysisState.Unminted.faithful (h : s.Unminted p) : s.Copies p := by
  intro d
  have hfresh : Fresh s.nextId (s.copyOf d).2.nextId (s.copyOf d).1.ids :=
    (d.copy_fresh s.nextId).1
  exact
    { alike := d.copy_unnumbered s.nextId
      nodup := hfresh.nodup
      minted := hfresh.bounds
      newer := fun id hid node hnode =>
        Nat.lt_of_lt_of_le (h.nodes node hnode) (hfresh.bounds id hid).1
      blank := fun id hid =>
        ⟨h.slots id (hfresh.bounds id hid).1, h.copies id (hfresh.bounds id hid).1⟩
      unchanged := rfl }

/-- Copies are kept for definitions of the program only. -/
theorem Inv.copies_eq_empty (hi : Inv p s) {id : Nat} (h : s.nextId ≤ id) :
    s.copies.getD id #[] = #[] := by
  refine Array.eq_empty_iff_forall_not_mem.mpr fun c hc => ?_
  obtain ⟨i, -, f, template, hkey, hinst⟩ := hi.copied hc
  have hlt := hi.bounded (.program hinst.source) (Definition.function template).info_mem_ids
  have heq : id = template.info.id := hkey.symm.trans hinst.key
  exact absurd h (Nat.not_le.mpr (heq ▸ hlt))

theorem Inv.unminted (hi : Inv p s) (hn : s.Numbered p) : s.Unminted p :=
  ⟨hn.below, fun _ h => hi.unused h, fun _ h => hi.copies_eq_empty h⟩

/-- Before the analysis nothing is recorded at all. -/
theorem AnalysisState.initial_unminted (h : (initial nextId).Numbered p) :
    (initial nextId).Unminted p where
  nodes := h.below
  slots _ _ := by simp [slots, Slots.empty, initial, Resolution.empty]
  copies _ _ := by simp [initial, Resolution.empty]

/-- An instance of a template is made from such a copy. -/
theorem Check.makeInstance_copies (d : FuncDef) (args : List Ty) (depth : Nat) :
    Ensures (fun _ _ => True) (makeInstance d args depth) s fun r _ => r.1 = (s.copyOf d).1 := by
  refine .bind (.modifyGet (.bind ((Ensures.any _ _).imp fun _ _ _ _ => ?_)))
  exact .bind (.modify (.pure rfl))

/-- Copies are faithful before the analysis of a program that is read, at each moment of it and when
it is done, and such a copy is what an instance of a template is made from. -/
theorem analysis_copies (builtins : Bool)
    (h : Program.parse tokens file firstId = .ok (p, nextId)) :
    (AnalysisState.initial nextId).Copies p ∧
    (∃ log : List Moment,
      Passes (fun look => Check.program builtins (.looking look) p) (.initial nextId) log ∧
      ∀ m ∈ log, m.state.Copies p) ∧
    (∀ t, Check.program builtins .silent p (.initial nextId) = .ok () t → t.Copies p) ∧
    ∀ d args depth s copy id t, Check.makeInstance d args depth s = .ok (copy, id) t →
      copy = (s.copyOf d).1 := by
  have hp := Program.parse_wellFormed h
  have hregular := Program.parse_regular_terrain h
  have hids := Program.parse_numbered h
  refine ⟨(AnalysisState.initial_unminted hids).faithful, ?_, fun t hrun => ?_,
    fun d args depth s copy id t hrun => (Check.makeInstance_copies d args depth).of_ok hrun⟩
  · obtain ⟨log, hpass, -⟩ := program_logged builtins p (.initial nextId)
    refine ⟨log, hpass, fun m hm => ?_⟩
    have hkept := kept_of_passes hregular (fun _ => hp.free_of_le) hids hpass m hm
    exact ((inv_of_passes hp hpass m hm).unminted hkept.state.numbered).faithful
  · have hcompleted := (program_completes builtins Observer.silent_passive hp).of_ok hrun
    have hkept := (program_keepsTypes hregular (fun _ => hp.free_of_le) hids
      Observer.silent_accepting builtins).of_ok hrun
    exact (hcompleted.inv.unminted hkept.1.numbered).faithful

/-- A template with a lambda in it that is called with a number and with a text. -/
theorem analysis_copies_lambda :
    ∃ (tokens : List Token) (p : Program) (nextId : Nat) (t : AnalysisState),
      Program.parse tokens "main" Builtin.firstNodeId = .ok (p, nextId) ∧
      Check.program true .silent p (.initial nextId) = .ok () t ∧ t.known.length = 2 ∧
      (AnalysisState.initial nextId).Copies p ∧ t.Copies p := by
  have hrun : ((analyzeSource
      "func f(x) { val g = -> (a: int) in a; return x; } const a = f(1); const b = f(\"\");"
      "main" true Builtin.firstNodeId).toOption.any fun a => a.state.known.length == 2) = true := by
    decide +kernel
  obtain ⟨a, hanalysis, hknown⟩ := (Option.any_eq_true _ _).mp hrun
  cases hsource : analyzeSource
      "func f(x) { val g = -> (a: int) in a; return x; } const a = f(1); const b = f(\"\");"
      "main" true Builtin.firstNodeId with
  | error e =>
    rw [hsource] at hanalysis
    cases hanalysis
  | ok a =>
    rw [hsource] at hanalysis
    cases hanalysis
    obtain ⟨tokens, nextId, hparse, hend⟩ := analyzeSource_eq_ok hsource
    obtain ⟨hinitial, -, hfinal, -⟩ := analysis_copies true hparse
    exact ⟨tokens, a.program, nextId, a.state, hparse, hend, beq_iff_eq.mp hknown, hinitial,
      hfinal _ hend⟩

end Frontend
