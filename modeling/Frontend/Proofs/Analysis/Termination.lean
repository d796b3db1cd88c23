import Frontend.Proofs.Analysis.Observation
import Frontend.Proofs.Analysis.Source

/-!
# Analyses end

The analysis of a program that is read from tokens ends with a result or an error, however its
templates call each other. The log of its run shows why: no definition is begun twice, only so many
copies of a template are under analysis at once, and so analyses nest no deeper than a bound that is
computed from the program.
-/

namespace Frontend

open Check

variable {p : Program} {tokens : List Token} {file : String} {firstId nextId : Nat}

open Classical in
/-- Objects to moments that are not orderly. -/
noncomputable def Look.strict (p : Program) : Look := fun m =>
  if Orderly p m.stack m.visit m.state then none else some (.fault .outOfFuel)

theorem Look.strict_passive : (Observer.looking (Look.strict p)).Passive p := by
  intro s stack visit _ ho
  have hlook : Look.strict p ⟨stack, visit, s⟩ = none := if_pos ho
  unfold Ensures Observer.looking
  rw [hlook]

/-- All moments of a run over a program are orderly. -/
theorem orderly_of_passes (hp : p.WellFormed nextId) {builtins : Bool} {log : List Moment}
    (h : Passes (fun look => Check.program builtins (.looking look) p) (.initial nextId) log) :
    ∀ m ∈ log, Orderly p m.stack m.visit m.state := by
  refine h.good (e := .fault .outOfFuel) fun t hrun => ?_
  obtain ⟨error, herror⟩ :=
    ((program_completes builtins Look.strict_passive hp).of_error hrun).cause
  cases herror

/-- The analysis of a program that is read from tokens ends with a result or an error. It passes
through finitely many moments, which are those that an observer sees. At each of them the
definitions under analysis are different and not more than the bound, and not more copies of a
template are under analysis than the limit; and no definition, lambda or copy is begun twice. -/
theorem analysis_ends (builtins : Bool)
    (h : Program.parse tokens file firstId = .ok (p, nextId)) :
    ((∃ t, Check.program builtins .silent p (.initial nextId) = .ok () t) ∨
      ∃ error t, Check.program builtins .silent p (.initial nextId) = .error (.error error) t) ∧
    ∃ log : List Moment,
      Passes (fun look => Check.program builtins (.looking look) p) (.initial nextId) log ∧
      (∀ m ∈ log, m.stack.Nodup ∧ m.stack.length ≤ p.demandBound ∧
        ∀ template, (m.state.unfinished template).length ≤ instantiationLimit) ∧
      ∀ node, log.countP (fun m => m.visit = .begin node) ≤ 1 := by
  have hp := Program.parse_wellFormed h
  constructor
  · have hrun := program_completes builtins Observer.silent_passive hp
    cases hend : Check.program builtins .silent p (.initial nextId) with
    | ok _ t => exact .inl ⟨t, rfl⟩
    | error e t =>
      obtain ⟨error, rfl⟩ := (hrun.of_error hend).cause
      exact .inr ⟨error, t, rfl⟩
  · obtain ⟨log, hpass, htrail⟩ := program_logged builtins p (.initial nextId)
    have horderly := orderly_of_passes hp hpass
    refine ⟨log, hpass, fun m hm => ?_, fun node => ?_⟩
    · exact ⟨(horderly m hm).nodup, (horderly m hm).bounded, (horderly m hm).limited⟩
    · exact htrail.countP_begin_le fun m hm hvisit => (horderly m hm).fresh hvisit

/-- A template that asks for a copy of itself for ever new types. -/
theorem analysis_ends_growing :
    ∃ (tokens : List Token) (p : Program) (nextId : Nat),
      Program.parse tokens "main" 0 = .ok (p, nextId) ∧
      ((∃ t, Check.program false .silent p (.initial nextId) = .ok () t) ∨
        ∃ error t, Check.program false .silent p (.initial nextId) = .error (.error error) t) ∧
      ∃ log : List Moment,
        Passes (fun look => Check.program false (.looking look) p) (.initial nextId) log ∧
        (∀ m ∈ log, m.stack.Nodup ∧ m.stack.length ≤ p.demandBound ∧
          ∀ template, (m.state.unfinished template).length ≤ instantiationLimit) ∧
        ∀ node, log.countP (fun m => m.visit = .begin node) ≤ 1 := by
  have hrun : ((Token.tokenize "func grow(x) { return grow([x]); } const c = grow(1);"
      "main").toOption.bind fun tokens => (Program.parse tokens "main" 0).toOption).isSome =
        true := by decide +kernel
  obtain ⟨⟨p, nextId⟩, hparsed⟩ := Option.isSome_iff_exists.mp hrun
  obtain ⟨tokens, -, hparse⟩ := Option.bind_eq_some_iff.mp hparsed
  cases h : Program.parse tokens "main" 0 with
  | ok r => exact ⟨tokens, r.1, r.2, h, analysis_ends false h⟩
  | error e =>
    rw [h] at hparse
    cases hparse

end Frontend
