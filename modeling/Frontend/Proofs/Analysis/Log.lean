import Frontend.Analysis.Program
import Frontend.Proofs.Analysis.Definition
import Frontend.Proofs.Analysis.Quiet

/-!
# Logs of runs

An observer that looks at each moment and stops the run at the first one that it objects to shows
which moments a run passes through, one after the other: the log of the run, which is the same for
all such observers. Along the log, what has been begun stays begun. The report that a template has
too many instances answers a request in the log, and behind each run the instances are counted as
before it.
-/

namespace Frontend

open Check

/-- What an observer is told of, inside which definitions, and the state that it finds. -/
structure Moment where
  stack : List Nat
  visit : Visit
  state : AnalysisState

/-- A reason to stop a run at a moment, if there is one. -/
abbrev Look := Moment → Option Failure

/-- Sees no reason to stop. -/
def Look.content : Look := fun _ => none

/-- The observer that stops a run where a look gives a reason to. -/
def Observer.looking (look : Look) : Observer := fun stack visit s =>
  match look ⟨stack, visit, s⟩ with
  | none => .ok () s
  | some e => .error e s

variable {s t u : AnalysisState} {log log' : List Moment} {node : Nat}

/-! ### Trails -/

/-- What has been begun stays begun, and what is known of constants stays known. -/
structure AnalysisState.Keeps (s t : AnalysisState) : Prop where
  begun : ∀ ⦃node : Nat⦄, s.progress[node]? ≠ none → t.progress[node]? ≠ none
  constants : s.store.KeepsConstants t.store

namespace AnalysisState.Keeps

theorem of_rests (h : s.Rests t) : s.Keeps t where
  begun node hn := by rwa [h.progress]
  constants := h.constants

theorem refl (s : AnalysisState) : s.Keeps s := .of_rests (.refl s)

theorem trans (hst : s.Keeps t) (htu : t.Keeps u) : s.Keeps u where
  begun _ h := htu.begun (hst.begun h)
  constants := hst.constants.trans htu.constants

theorem mark (s : AnalysisState) (node : Nat) (progress : Progress) :
    s.Keeps (s.mark node progress) where
  begun n hn := by
    by_cases heq : n = node
    · rw [heq, progress_mark_self]
      exact Option.some_ne_none _
    · rwa [progress_mark heq]
  constants := .of_eq rfl

theorem recount (s : AnalysisState) (active : Std.TreeMap Nat Nat) :
    s.Keeps { s with active } := ⟨fun _ hn => hn, .of_eq rfl⟩

end AnalysisState.Keeps

/-- The state behind a moment, in which a definition that begins is marked. -/
def Visit.after (s : AnalysisState) : Visit → AnalysisState
  | .begin node => s.mark node .inProgress
  | _ => s

theorem Visit.keeps_after (s : AnalysisState) (visit : Visit) : s.Keeps (visit.after s) := by
  cases visit with
  | begin node => exact .mark s node _
  | _ => exact .refl s

/-- A way from one state to another through moments, along which nothing that has been begun is
forgotten. -/
inductive Trail : AnalysisState → List Moment → AnalysisState → Prop
  | nil {s t : AnalysisState} (h : s.Keeps t) : Trail s [] t
  | cons {s t : AnalysisState} {m : Moment} {log : List Moment} (h : s.Keeps m.state)
      (rest : Trail (m.visit.after m.state) log t) : Trail s (m :: log) t

namespace Trail

theorem before (h : s.Keeps t) (ht : Trail t log u) : Trail s log u := by
  cases ht with
  | nil hk => exact .nil (h.trans hk)
  | cons hk rest => exact .cons (h.trans hk) rest

theorem append (h : Trail s log t) (ht : Trail t log' u) : Trail s (log ++ log') u := by
  induction h with
  | nil hk => exact ht.before hk
  | cons hk _ ih => exact .cons hk (ih ht)

/-- What is kept from moment to moment is kept all the way. -/
theorem keeps (h : Trail s log t) : s.Keeps t := by
  induction h with
  | nil hk => exact hk
  | @cons s t m log hk _ ih => exact hk.trans ((m.visit.keeps_after _).trans ih)

/-- What has been begun is seen as begun at each later moment. -/
theorem begun (h : Trail s log t) (hs : s.progress[node]? ≠ none) :
    ∀ m ∈ log, m.state.progress[node]? ≠ none := by
  induction h with
  | nil => nofun
  | @cons s t m log hk rest ih =>
    have hm := hk.begun hs
    exact List.forall_mem_cons.mpr ⟨hm, ih ((m.visit.keeps_after _).begun hm)⟩

/-- What is only begun where it has not been begun yet is begun at most once. -/
theorem countP_begin_le (h : Trail s log t)
    (hfresh : ∀ m ∈ log, m.visit = .begin node → m.state.progress[node]? = none) :
    log.countP (fun m => m.visit = .begin node) ≤ 1 := by
  induction h with
  | nil => exact Nat.zero_le _
  | @cons s t m log hk rest ih =>
    rw [List.forall_mem_cons] at hfresh
    by_cases hm : m.visit = .begin node
    · have hbegun : (m.visit.after m.state).progress[node]? ≠ none := by
        rw [hm, Visit.after, AnalysisState.progress_mark_self]
        exact Option.some_ne_none _
      have hnone : log.countP (fun m => m.visit = .begin node) = 0 :=
        List.countP_eq_zero.mpr fun n hn hvisit =>
          rest.begun hbegun n hn (hfresh.2 n hn (of_decide_eq_true hvisit))
      exact Nat.le_of_eq (by rw [List.countP_cons, hnone, if_pos (decide_eq_true hm)])
    · rw [List.countP_cons, if_neg (fun h => hm (of_decide_eq_true h))]
      exact ih hfresh.2

end Trail

/-! ### Actions with a log -/

variable {α β : Type} {act : Look → Check α}

/-- The state behind a run. -/
def finalState : EStateM.Result Failure AnalysisState α → AnalysisState
  | .ok _ t => t
  | .error _ t => t

/-- What is ensured in both outcomes holds of the state behind the run. -/
theorem ensures_finalState {P : AnalysisState → Prop} {act : Check α} :
    Ensures (fun _ t => P t) act s (fun _ t => P t) ↔ P (finalState (act s)) := by
  unfold Ensures finalState
  cases act s <;> exact Iff.rfl

/-- Whatever is looked for, the action stops at the first moment of the log that is objected to, or
else it does what it does without an observer. -/
def Passes (act : Look → Check α) (s : AnalysisState) (log : List Moment) : Prop :=
  ∀ look, match log.findSome? look with
    | none => act look s = act .content s
    | some e => ∃ t, act look s = .error e t

/-- At the moment a call at a position asks for an instance that there is none of yet, of the
template of a name that has as many instances under analysis as are allowed. -/
def Moment.Refuses (m : Moment) (name : String) (position : Position) : Prop :=
  ∃ template args, m.visit = .request template name args position ∧
    (∀ i ∈ m.state.known, i.template = template → i.args ≠ args) ∧
    instantiationLimit ≤ m.state.active.getD template 0

/-- The moments of a run: the ways to stop it, what is kept along it, and the request that is
answered by a report of too many instances. -/
structure Recorded (act : Look → Check α) (s : AnalysisState) (log : List Moment) : Prop where
  passes : Passes act s log
  trail : Trail s log (finalState (act .content s))
  refused : ∀ name limit position,
    (∃ t, act .content s = .error (.error ⟨.instantiationLimit name limit, position⟩) t) ↔
      limit = instantiationLimit ∧ ∃ m ∈ log, m.Refuses name position

/-- From a state the action passes through some log, and behind it the instances are counted as
before. -/
structure LoggedAt (s : AnalysisState) (act : Look → Check α) : Prop where
  recorded : ∃ log, Recorded act s log
  counted : ∀ template,
    (finalState (act .content s)).active.getD template 0 = s.active.getD template 0

/-- From every state the action passes through some log. -/
def Logged (act : Look → Check α) : Prop := ∀ s, LoggedAt s act

theorem Quiet.rests {act : Check α} (h : Quiet act) (s : AnalysisState) :
    s.Rests (finalState (act s)) :=
  ensures_finalState.mp ((h s).imp_both (fun _ _ h => h.1) fun _ _ h => h)

private theorem bind_run (act : Check α) (f : α → Check β) (s : AnalysisState) :
    (act >>= f) s = match act s with
      | .ok a t => f a t
      | .error e t => .error e t := by
  change EStateM.bind act f s = _
  unfold EStateM.bind
  cases act s <;> rfl

namespace Recorded

/-- A run that asks no observer and does not report too many instances has an empty log. -/
theorem nil {act : Check α} (hkeeps : s.Keeps (finalState (act s)))
    (hlimit : ∀ e t, act s = .error e t → e.withinLimit = true) :
    Recorded (fun _ => act) s [] where
  passes _ := rfl
  trail := .nil hkeeps
  refused name limit position := by
    refine iff_of_false ?_ nofun
    rintro ⟨t, hrun⟩
    cases hlimit _ t hrun

/-- No request is refused in a run that gives a result. -/
theorem not_refuses (h : Recorded act s log) {a : α} (hrun : act .content s = .ok a t) {m : Moment}
    (hm : m ∈ log) (name : String) (position : Position) : ¬ m.Refuses name position := by
  intro hrefuses
  obtain ⟨u, hfails⟩ := (h.refused name _ position).mpr ⟨rfl, m, hm, hrefuses⟩
  cases hrun.symm.trans hfails

theorem bind {f : Look → α → Check β} (h : Recorded act s log)
    (hf : ∀ a t, act .content s = .ok a t → ∃ log', Recorded (fun look => f look a) t log') :
    ∃ log', Recorded (fun look => act look >>= f look) s log' := by
  have hpass := h.passes
  have htrail := h.trail
  cases hact : act .content s with
  | error e t =>
    rw [hact] at htrail
    have hrun : (act .content >>= f .content) s = .error e t := by rw [bind_run, hact]
    refine ⟨log, fun look => ?_, by simp only [hrun]; exact htrail, fun name limit position => ?_⟩
    · have hlook := hpass look
      split at hlook
      · simp only [hrun]
        rw [bind_run, hlook, hact]
      · obtain ⟨u, hu⟩ := hlook
        exact ⟨u, (bind_run _ _ _).trans (by rw [hu])⟩
    · rw [← h.refused, hact]
      simp only [hrun, EStateM.Result.error.injEq]
  | ok a t =>
    obtain ⟨log', h'⟩ := hf a t hact
    rw [hact] at htrail
    have hrun : (act .content >>= f .content) s = f .content a t := by rw [bind_run, hact]
    refine ⟨log ++ log', fun look => ?_, by simp only [hrun]; exact htrail.append h'.trail,
      fun name limit position => ?_⟩
    · have hlook := hpass look
      rw [List.findSome?_append]
      split at hlook
      · next hnone =>
        simp only [hnone, Option.none_or, hrun]
        rw [bind_run, hlook, hact]
        exact h'.passes look
      · next e hsome =>
        simp only [hsome, Option.some_or]
        obtain ⟨u, hu⟩ := hlook
        exact ⟨u, (bind_run _ _ _).trans (by rw [hu])⟩
    · simp only [hrun, h'.refused]
      refine and_congr_right fun _ => ⟨fun ⟨m, hm, hr⟩ => ⟨m, List.mem_append_right _ hm, hr⟩, ?_⟩
      rintro ⟨m, hm, hr⟩
      rcases List.mem_append.mp hm with hm | hm
      · exact absurd hr (h.not_refuses hact hm name position)
      · exact ⟨m, hm, hr⟩

/-- The state may be changed behind a run, where nothing is forgotten. -/
theorem andFinally {f : AnalysisState → AnalysisState} (h : Recorded act s log)
    (hf : ∀ s : AnalysisState, s.Keeps (f s)) :
    Recorded (fun look => Check.andFinally (act look) f) s log where
  passes look := by
    have hlook := h.passes look
    split at hlook
    · unfold Check.andFinally
      simp only [hlook]
    · obtain ⟨u, hu⟩ := hlook
      exact ⟨f u, by simp only [Check.andFinally, hu]⟩
  trail := by
    have hfinal : finalState (Check.andFinally (act .content) f s) =
        f (finalState (act .content s)) := by
      unfold Check.andFinally
      cases act .content s <;> rfl
    rw [hfinal, ← List.append_nil log]
    exact h.trail.append (.nil (hf _))
  refused name limit position := by
    rw [← h.refused]
    unfold Check.andFinally
    cases act .content s with
    | ok a t => exact iff_of_false nofun nofun
    | error e t => simp only [EStateM.Result.error.injEq, exists_and_left, exists_eq']

end Recorded

/-- An action after another one is logged if it is from the state that it finds. -/
theorem LoggedAt.bind {f : Look → α → Check β} (h : LoggedAt s act)
    (hf : ∀ a t, act .content s = .ok a t → LoggedAt t fun look => f look a) :
    LoggedAt s fun look => act look >>= f look where
  recorded := by
    obtain ⟨log, hlog⟩ := h.recorded
    exact hlog.bind fun a t hrun => (hf a t hrun).recorded
  counted k := by
    have hcounted := h.counted k
    rw [bind_run]
    cases hact : act .content s with
    | error e t =>
      rw [hact] at hcounted
      exact hcounted
    | ok a t =>
      rw [hact] at hcounted
      exact ((hf a t hact).counted k).trans hcounted

/-- What is logged from a later state is logged from the earlier one where nothing is counted on the
way. -/
theorem LoggedAt.before {f g : Look → Check α} (hkeeps : s.Keeps t)
    (hactive : t.active = s.active) (heq : ∀ look, f look s = g look t) (h : LoggedAt t g) :
    LoggedAt s f where
  recorded := by
    obtain ⟨log, hlog⟩ := h.recorded
    refine ⟨log, fun look => ?_, ?_, ?_⟩
    · simp only [heq]
      exact hlog.passes look
    · rw [heq]
      exact hlog.trail.before hkeeps
    · rw [heq]
      exact hlog.refused
  counted k := by
    rw [heq, h.counted k, hactive]

namespace Logged

/-- What asks no observer has an empty log. -/
theorem quiet {act : Check α} (h : Quiet act) : Logged fun _ => act := fun s =>
  { recorded := ⟨[], .nil (.of_rests (h.rests s)) fun _ _ hrun => ((h s).of_error hrun).2⟩
    counted := fun _ => by rw [(h.rests s).active] }

theorem congr {f : Look → Check α} (heq : ∀ look, act look = f look) (h : Logged f) :
    Logged act := by
  rwa [funext heq]

theorem bind {f : Look → α → Check β} (h : Logged act) (hf : ∀ a, Logged fun look => f look a) :
    Logged fun look => act look >>= f look := fun s => (h s).bind fun a t _ => hf a t

theorem map {f : α → β} (h : Logged act) : Logged fun look => f <$> act look :=
  .congr (fun _ => (bind_pure_comp f _).symm) (.bind h fun a => .quiet (.pure (f a)))

end Logged

/-- A visit is a moment before all that follows. -/
theorem Passes.cons {stack : List Nat} {visit : Visit} {rest : Look → Check α}
    (h : Passes rest s log) :
    Passes (fun look => Observer.looking look stack visit >>= fun _ => rest look) s
      (⟨stack, visit, s⟩ :: log) := by
  intro look
  simp only [bind_run, Observer.looking, List.findSome?_cons]
  cases look ⟨stack, visit, s⟩ with
  | some e => exact ⟨s, rfl⟩
  | none => exact h look

/-- An observer that sees no reason to stop only delays what follows. -/
private theorem looking_content_bind {stack : List Nat} {visit : Visit} (f : Check α) :
    (Observer.looking .content stack visit >>= fun _ => f) s = f s := bind_run _ _ _

/-- A moment at which no request is refused comes before what is logged from the state behind
it. -/
theorem LoggedAt.seen {stack : List Nat} {visit : Visit} {f g : Look → Check α}
    (hgranted : ∀ name position, ¬ Moment.Refuses ⟨stack, visit, s⟩ name position)
    (heq : ∀ look, f look s = g look (visit.after s)) (h : LoggedAt (visit.after s) g) :
    LoggedAt s fun look => Observer.looking look stack visit >>= fun _ => f look where
  recorded := by
    obtain ⟨log, hlog⟩ := h.recorded
    have hpass : Passes f s log := fun look => by
      simp only [heq]
      exact hlog.passes look
    refine ⟨_, hpass.cons, ?_, fun name limit position => ?_⟩
    · rw [looking_content_bind, heq]
      exact .cons (.refl s) hlog.trail
    · rw [looking_content_bind, heq]
      simp only [hlog.refused, List.exists_mem_cons_iff, hgranted, false_or]
  counted k := by
    have hafter : (visit.after s).active = s.active := by cases visit <;> rfl
    rw [looking_content_bind, heq, h.counted k, hafter]

/-- A request that is refused is the last moment. -/
theorem LoggedAt.refusal {stack : List Nat} {template : Nat} {name : String} {args : List Ty}
    {position : Position} {f : Look → Check α}
    (hnew : ∀ i ∈ s.known, i.template = template → i.args ≠ args)
    (hlimit : instantiationLimit ≤ s.active.getD template 0)
    (hrun : ∀ look, f look s =
      .error (.error ⟨.instantiationLimit name instantiationLimit, position⟩) s) :
    LoggedAt s fun look =>
      Observer.looking look stack (.request template name args position) >>= fun _ => f look := by
  have hpass : Passes f s [] := fun look => (hrun look).trans (hrun .content).symm
  refine ⟨⟨_, hpass.cons, ?_, fun name' limit position' => ?_⟩, fun k => ?_⟩
  · rw [looking_content_bind, hrun]
    exact .cons (.refl s) (.nil (.refl s))
  · rw [looking_content_bind, hrun]
    simp only [List.mem_singleton, exists_eq_left]
    constructor
    · rintro ⟨_, ⟨⟩⟩
      exact ⟨rfl, template, args, rfl, hnew, hlimit⟩
    · rintro ⟨rfl, _, _, ⟨⟩, -, -⟩
      exact ⟨s, rfl⟩
  · rw [looking_content_bind, hrun]
    rfl

/-! ### What holds at all moments -/

open Classical in
/-- Objects in one way to all moments that are not good. -/
noncomputable def Look.unless (good : Moment → Prop) (e : Failure) : Look := fun m =>
  if good m then none else some e

/-- An observer that looks for bad moments goes on at a good one. -/
theorem Look.looking_unless {good : Moment → Prop} (e : Failure) {stack : List Nat}
    {visit : Visit} (h : good ⟨stack, visit, s⟩) :
    Observer.looking (Look.unless good e) stack visit s = .ok () s := by
  have hnone : Look.unless good e ⟨stack, visit, s⟩ = none := if_pos h
  unfold Observer.looking
  rw [hnone]

/-- All moments of a run are good if the run never fails in the way that bad ones are objected
to. -/
theorem Passes.good {good : Moment → Prop} {e : Failure} (h : Passes act s log)
    (hrun : ∀ t, act (Look.unless good e) s ≠ .error e t) : ∀ m ∈ log, good m := by
  intro m hm
  by_contra hbad
  have hstop : Look.unless good e m = some e := if_neg hbad
  have hlook := h (Look.unless good e)
  split at hlook
  · next hnone =>
    have hcontent := List.findSome?_eq_none_iff.mp hnone m hm
    rw [hstop] at hcontent
    cases hcontent
  · next e' hsome =>
    obtain ⟨t, hfails⟩ := hlook
    obtain ⟨n, -, hn⟩ := List.exists_of_findSome?_eq_some hsome
    unfold Look.unless at hn
    split at hn <;> cases hn
    exact hrun t hfails

end Frontend
