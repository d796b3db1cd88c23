import Frontend.Proofs.Analysis.Observation
import Frontend.Proofs.Analysis.Source
import Frontend.Proofs.Parser.Regular
import Frontend.Proofs.Types.Program

/-!
# Types at all moments

A program that is read is regular on a terrain of its own: its nodes begin at places of tokens, and
the only ids that do not count as free are those of its templates. So at every moment of a run over
it everything is kept, and the lists of instances and copies record the same.
-/

namespace Frontend

open Check

variable {p : Program} {l : Terrain} {place : Position → Prop} {n : Nat} {builtins : Bool}
  {log : List Moment}

/-! ### The terrain of a program -/

/-- An id that is not that of a template. -/
def Program.Free (p : Program) (node : Nat) : Prop :=
  ∀ d ∈ p.functions, d.isTemplate = true → d.info.id ≠ node

/-- The ground that a program stands on. -/
def Program.terrain (p : Program) (place : Position → Prop) : Terrain := ⟨place, p.Free⟩

/-- A node of a definition has a free id, unless it is the root of a template. -/
theorem Program.WellFormed.free (hp : p.WellFormed n) {d : Definition} (hd : d ∈ p.definitions)
    {node : Nat} (hm : node ∈ d.ids)
    (hroot : ∀ e, d = .function e → e.isTemplate = true → node ≠ e.info.id) : p.Free node := by
  intro e he htemplate heq
  have hdef := hp.eq_of_mem_ids hd (Program.mem_functions.mp he) hm
    (show node ∈ (Definition.function e).ids from heq ▸ (Definition.function e).info_mem_ids)
  exact hroot e hdef htemplate heq.symm

theorem Program.WellFormed.free_of_le (hp : p.WellFormed n) {node : Nat} (hn : n ≤ node) :
    p.Free node := by
  intro d hd _ heq
  have hlt := hp.bounded d.info.id (List.mem_flatMap.mpr
    ⟨_, Program.mem_functions.mp hd, (Definition.function d).info_mem_ids⟩)
  omega

/-- A program that is read is regular on its terrain. -/
theorem Program.WellFormed.regular (hp : p.WellFormed n)
    (h : ∀ d ∈ p.definitions, d.Regular (.at place)) : p.Regular (p.terrain place) where
  constant c hc := by
    have hm := Program.mem_constants.mp hc
    obtain ⟨hinfo, hdecls, hvalues⟩ : c.Regular (.at place) := h _ hm
    have hroles : Played p.Plays (Definition.roles (.constant c)) := fun r hr => ⟨_, hm, hr⟩
    have hfree : ∀ node ∈ c.ids, p.Free node := fun node hnode => hp.free hm hnode
      fun _ heq => by cases heq
    simp only [ConstDef.ids, List.forall_mem_cons, List.forall_mem_append] at hfree
    exact ⟨hinfo.onto hfree.1, fun d hd => (hdecls d hd).onto fun node hnode =>
      hfree.2.1 node (List.mem_flatMap.mpr ⟨d, hd, hnode⟩), exprsRegular_onto hvalues hfree.2.2
        hroles⟩
  function d hd := by
    have hm := Program.mem_functions.mp hd
    obtain ⟨hplace, hregular⟩ : place d.info.span.start ∧ d.Regular (.at place) := h _ hm
    have hroles : Played p.Plays d.roles := fun r hr => ⟨_, hm, hr⟩
    refine ⟨hplace, hregular.onto (fun node hnode => ?_) hroles⟩
    refine hp.free hm (List.mem_of_mem_tail hnode) ?_
    rintro _ ⟨⟩ - rfl
    have hnodup := hp.ids_nodup hm
    obtain ⟨info, _, _, _, _, _, _⟩ := d
    simp only [Definition.ids, FuncDef.ids, List.nodup_cons, List.tail_cons] at hnodup hnode
    exact hnodup.1 hnode
  free d hd := by
    have hm := Program.mem_functions.mp hd
    cases htemplate : d.isTemplate with
    | true => exact iff_of_false (fun hfree => hfree d hd htemplate rfl) (by decide)
    | false =>
      refine iff_of_true (hp.free hm (Definition.function d).info_mem_ids ?_) rfl
      rintro _ ⟨⟩ ht
      rw [htemplate] at ht
      cases ht

/-- What is read from tokens is regular, wherever they stand. -/
theorem Program.parse_regular_terrain {tokens : List Token} {file : String} {firstId : Nat}
    (h : Program.parse tokens file firstId = .ok (p, n)) :
    p.Regular (p.terrain fun _ => True) :=
  (Program.parse_wellFormed h).regular
    (Program.parse_regular (.inr fun _ => trivial) (fun _ _ => trivial) h)

/-- The nodes of a program that is read have ids of their own before the analysis. -/
theorem Program.parse_numbered {tokens : List Token} {file : String} {firstId : Nat}
    (h : Program.parse tokens file firstId = .ok (p, n)) : (AnalysisState.initial n).Numbered p :=
  .initial (Program.parse_fresh h).1

/-! ### Moments -/

/-- What is kept at a moment of a run. -/
structure Moment.Kept (p : Program) (l : Terrain) (m : Moment) : Prop where
  state : m.state.Kept p l
  roster : m.state.Roster
  visit : m.visit.Clear p m.state

/-- At all moments of a run, all is kept. -/
theorem kept_of_passes (hp : p.Regular l) (hfresh : ∀ node, n ≤ node → l.free node)
    (hids : (AnalysisState.initial n).Numbered p)
    (h : Passes (fun look => Check.program builtins (.looking look) p) (.initial n) log) :
    ∀ m ∈ log, m.Kept p l := by
  refine h.good (e := .fault (.builtinDeclaration "")) fun t hrun => ?_
  have ho : (Observer.looking (Look.unless (fun m => m.Kept p l)
      (.fault (.builtinDeclaration "")))).Accepting p l := fun stack visit s hk hr hv =>
    Look.looking_unless _ ⟨hk, hr, hv⟩
  exact ((program_keepsTypes hp hfresh hids ho builtins).of_error hrun).cause "" rfl

/-- At all moments of a run over a program that is read, the invariant of the analysis holds. -/
theorem inv_of_passes (hp : p.WellFormed n)
    (h : Passes (fun look => Check.program builtins (.looking look) p) (.initial n) log) :
    ∀ m ∈ log, Inv p m.state := by
  refine h.good (e := .fault .outOfFuel) fun t hrun => ?_
  have ho : (Observer.looking (Look.unless (fun m => Inv p m.state)
      (.fault .outOfFuel))).Passive p := by
    intro s stack visit hi _
    unfold Ensures
    rw [Look.looking_unless _ hi]
  obtain ⟨error, herror⟩ := ((program_completes builtins ho hp).of_error hrun).cause
  cases herror

theorem Observer.silent_accepting : Observer.silent.Accepting p l := fun _ _ _ _ _ _ => rfl

end Frontend
