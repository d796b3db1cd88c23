import Frontend.Proofs.Analysis.Definition

/-!
# Demands at every depth

`demandAt` meets its demands by the analysis of whole definitions, with the demands of one depth
less inside. Where no more definitions may be begun, a demand fails without a trace. The second
pass asks for each constant definition and each function that is no template, so in the end all of
these are done.
-/

namespace Frontend

open Check

variable {p : Program} {s t : AnalysisState} {observe : Observer}

/-- An observer that may only refuse the program, as far as moments are orderly. -/
def Observer.Passive (p : Program) (observe : Observer) : Prop :=
  ∀ {s : AnalysisState} (stack : List Nat) (visit : Visit), Inv p s → Orderly p stack visit s →
    Ensures (Rejected p) (observe stack visit) s fun _ t => t = s

theorem Observer.silent_passive : Observer.silent.Passive p := fun _ _ _ _ => .pure rfl

theorem Program.constantNamed?_mem {name : String} {d : ConstDef}
    (h : p.constantNamed? name = some d) : .constant d ∈ p.definitions := by
  obtain ⟨e, hm, he⟩ := List.mem_filterMap.mp (List.mem_of_find?_eq_some h)
  cases e with
  | function f => cases he
  | constant e =>
    cases he
    exact hm

/-- Demands are met by steps, however deep they nest, if so many more definitions may be begun
that the bound is exceeded. -/
theorem demandAt_sound (ho : observe.Passive p) (depth : Nat) (stack : List Nat)
    (hdepth : p.demandBound < stack.length + depth) :
    (demandAt p observe depth stack).Sound p stack := by
  induction depth generalizing stack with
  | zero =>
    -- One more definition would be more than can be under analysis.
    have hfull : ∀ {node : Nat} {s : AnalysisState}, Nested p (node :: stack) s → ¬ Inv p s := by
      intro node s hn hi
      have hlen := hn.length_le hi
      rw [List.length_cons] at hlen
      omega
    exact
      { visit := ho stack
        definitionOf := Program.constantNamed?_mem
        constant := fun {s d} hi hd hnone hn =>
          absurd (hi.begin (d := .constant d) (.program hd) hnone nofun) (hfull hn)
        function := fun {s d} hi hd ht hnone hn =>
          absurd (hi.begin (d := .function d) hd hnone (by rintro _ ⟨⟩; exact ht)) (hfull hn) }
  | succ depth ih =>
    have hdepth' : ∀ node : Nat, p.demandBound < (node :: stack).length + depth := by
      intro node
      rw [List.length_cons]
      omega
    exact
      { visit := ho stack
        definitionOf := Program.constantNamed?_mem
        constant := fun {s d} hi hd hnone hn =>
          constants_ensures (ih (d.info.id :: stack) (hdepth' _)) hi hd hnone hn
        function := fun {s d} hi hd ht hnone hn =>
          function_ensures (ih (d.info.id :: stack) (hdepth' _)) hi hd ht hnone hn }

/-- No definition is under analysis. -/
def Idle (p : Program) (s : AnalysisState) : Prop :=
  ∀ {d}, Defined p s d → s.progress[d.info.id]? ≠ some .inProgress

theorem Step.idle (hs : Step p none [] s t) (hi : Inv p s) (h : Idle p s) : Idle p t := by
  intro d hd hin
  have hmid := hs.active hd hin
  rcases hs.fresh hd with hd' | hnew
  · exact h hd' hmid
  · have hunused : s.progress[d.info.id]? = none :=
      congrArg Slots.progress (hi.unused (hnew _ d.info_mem_ids))
    rw [hunused] at hmid
    cases hmid

namespace Check

/-- A definition is analysed in its turn, unless it is done already. -/
theorem unlessBegun_ensures (hi : Inv p s) (hidle : Idle p s) {d : Definition}
    (hd : Defined p s d) {act : Check Unit}
    (h : s.progress[d.info.id]? = none → Ensures (Rejected p) act s fun _ t =>
      Step p none [] s t ∧ t.progress[d.info.id]? = some .done) :
    Ensures (Rejected p) (unlessBegun d.info.id act) s fun _ t =>
      Step p none [] s t ∧ t.progress[d.info.id]? = some .done := by
  refine .bind (progress?_ensures ?_)
  split
  · next hnone => exact h (by simpa using hnone)
  · next hsome =>
    refine .pure ⟨.refl hi, ?_⟩
    cases hprogress : s.progress[d.info.id]? with
    | none => simp [hprogress] at hsome
    | some progress =>
      cases progress with
      | inProgress => exact absurd hprogress (hidle hd)
      | done => rfl

/-- One definition after another is done. -/
private theorem forM_ensures {α : Type} (node : α → Nat) (wanted : α → Prop) {as : List α}
    {f : α → Check Unit}
    (h : ∀ a ∈ as, ∀ {s}, Inv p s → Nested p [] s → Idle p s →
      Ensures (Rejected p) (f a) s fun _ t =>
        Step p none [] s t ∧ (wanted a → t.progress[node a]? = some .done))
    (hi : Inv p s) (hn : Nested p [] s) (hidle : Idle p s) :
    Ensures (Rejected p) (as.forM f) s fun _ t => Step p none [] s t ∧
      ∀ a ∈ as, wanted a → t.progress[node a]? = some .done := by
  induction as generalizing s with
  | nil => exact .pure ⟨.refl hi, nofun⟩
  | cons a rest ih =>
    rw [List.forall_mem_cons] at h
    refine .bind ((h.1 hi hn hidle).imp fun _ t _ hfirst => ?_)
    obtain ⟨hs, hdone⟩ := hfirst
    refine (ih h.2 hs.inv (hn.step hs) (hs.idle hi hidle)).imp fun _ u _ hrest => ?_
    refine ⟨hs.trans hrest.1, List.forall_mem_cons.mpr ⟨fun hwanted => ?_, hrest.2⟩⟩
    exact hrest.1.grows.done (hdone hwanted)

/-- The second pass leaves each constant definition and each function done that is no template. -/
theorem bodies_ensures (ho : observe.Passive p) (hi : Inv p s) (hn : Nested p [] s)
    (hidle : Idle p s) :
    Ensures (Rejected p) (bodies observe p) s fun _ t => Step p none [] s t ∧
      ∀ d ∈ p.definitions, (∀ f, d = .function f → f.isTemplate = false) →
        t.progress[d.info.id]? = some .done := by
  have hw := demandAt_sound ho (p.demandBound + 1) [] (by rw [List.length_nil]; omega)
  unfold bodies
  refine .bind ((forM_ensures (fun d : ConstDef => d.info.id) (fun _ => True)
    (fun d hd s hi hn hidle => ?_) hi hn hidle).imp fun _ t _ hfirst => ?_)
  · have hm := Program.mem_constants.mp hd
    refine (unlessBegun_ensures hi hidle (.program hm) fun hnone => hw.constant hi hm hnone
      (hn.begin (d := .constant d) hi hm hnone)).imp fun _ t _ h => ⟨h.1, fun _ => h.2⟩
  · obtain ⟨hst, hdone⟩ := hfirst
    refine (forM_ensures (fun d : FuncDef => d.info.id)
      (fun d => d.isTemplate = false) (fun d hd s hi hn hidle => ?_) hst.inv (hn.step hst)
      (hst.idle hi hidle)).imp fun _ u _ hsecond => ?_
    · have hm := Program.mem_functions.mp hd
      split
      · next ht => exact .pure ⟨.refl hi, fun hf => absurd (ht.symm.trans hf) nofun⟩
      · next ht =>
        refine (unlessBegun_ensures hi hidle (.program hm) fun hnone =>
          hw.function hi (.program hm) (fun _ => by simpa using ht) hnone
            (hn.begin (d := .function d) hi hm hnone)).imp fun _ t _ h => ?_
        exact ⟨h.1, fun _ => h.2⟩
    · obtain ⟨htu, hdone'⟩ := hsecond
      refine ⟨hst.trans htu, fun d hd ht => ?_⟩
      cases d with
      | function d =>
        exact hdone' d (Program.mem_functions.mpr hd) (ht d rfl)
      | constant d =>
        exact htu.grows.done (hdone d (Program.mem_constants.mpr hd) trivial)

end Check

end Frontend
