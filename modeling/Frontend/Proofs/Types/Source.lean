import Frontend.Proofs.Types.Moments

/-!
# The types that analysis computes

At every moment of a run and where it ends, the types of variables, constants, parameters and
results are proper, and so are the types of nodes (`AnalysisState.WellTyped`). Placeholders are left
to the parameters of templates and builtin functions, and to the nodes that stand for a builtin
function in a call.
-/

namespace Frontend

open Check

/-- What is left at a moment is an expression with a proper type, or it is a statement and nothing
else. -/
def Moment.Resolved (p : Program) (m : Moment) : Prop :=
  ∀ node, m.visit = .leave node →
    (∃ type, m.state.types[node]? = some type ∧ type.Proper) ∨
      Plays p m.state .statement node ∧ ∀ role, Plays p m.state role node → role = .statement

variable {p : Program} {l : Terrain} {s : AnalysisState} {builtins : Bool}

/-- A node plays one role only. -/
theorem Plays.unique (hi : Inv p s) {role role' : Role} {node : Nat} (h : Plays p s role node)
    (h' : Plays p s role' node) : role = role' := by
  obtain ⟨d, hd, hrole⟩ := h
  obtain ⟨e, he, hrole'⟩ := h'
  have heq := hi.disjoint hd he (Definition.mem_ids_of_mem_roles hrole)
    (Definition.mem_ids_of_mem_roles hrole')
  subst heq
  exact Definition.role_unique (hi.nodup hd) hrole hrole'

theorem Moment.Kept.resolved {m : Moment} (h : m.Kept p l) (hi : Inv p m.state) :
    m.Resolved p := by
  intro node hvisit
  have hclear := h.visit
  rw [hvisit] at hclear
  obtain hstatement | htype := hclear
  · exact .inr ⟨hstatement, fun role hrole => hrole.unique hi hstatement⟩
  · exact .inl htype

end Frontend
