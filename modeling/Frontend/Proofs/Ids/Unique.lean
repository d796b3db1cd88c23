import Frontend.Proofs.Layout.Plan
import Frontend.Proofs.Types.Moments

/-!
# Ids are unique

Whatever is read gets ids that nothing else has, and so does each copy of a template; so at no
moment of the analysis of a program do two nodes share an id, no two definitions share a key of
the tables that the analysis keeps, and no placeholder stands for two parameters
(`analysis_unique`).
-/

namespace Frontend

open Check

/-- Whatever a reader reads has ids that the counter gives out meanwhile. -/
def Parse.GivesFresh {α : Type} (act : Parse α) (ids : α → List Nat) : Prop :=
  ∀ s a t, act s = .ok a t → Fresh s.nextId t.nextId (ids a)

/-- The ids of the functions among scopes. -/
def functionNodes (shapes : List Shape) : List Nat := (shapes.filter (·.isFunction)).map Shape.node

/-- The keys of a definition and of the lambdas in it. -/
def Definition.keys : Definition → List Nat
  | .function d => functionNodes (d.shapes none)
  | .constant d => d.info.id :: functionNodes (exprsShapes none d.values)

/-- The keys of all definitions: those of the program, the copies of its templates, and lambdas. -/
def AnalysisState.keys (p : Program) (s : AnalysisState) : List Nat :=
  p.definitions.flatMap Definition.keys ++
    s.allCopies.flatMap fun c => (Definition.function c).keys

/-- No id is used twice. -/
structure AnalysisState.Unique (p : Program) (s : AnalysisState) : Prop where
  nodes : (s.nodeIds p).Nodup
  bounds : ∀ node ∈ s.nodeIds p, Builtin.firstNodeId ≤ node ∧ node < s.nextId
  keys : (s.keys p).Nodup
  placeholders : s.store.placeholders.Nodup
  /-- A placeholder is that of a builtin function, or the id of a parameter of the program. -/
  origin : ∀ id ∈ s.store.placeholders,
    id ∈ Builtin.placeholders ∨ id ∈ p.placeholders ∧ id ∈ p.ids

variable {p : Program} {s : AnalysisState} {l : Terrain} {tokens : List Token} {file : String}
  {firstId nextId : Nat}

/-! ### Reading -/

theorem Parse.Mints.givesFresh {α : Type} {act : Parse α} {k : Nat} {ids : α → List Nat}
    {good : α → Prop} (h : ∀ s, Mints s act k ids good) : GivesFresh act ids :=
  fun s _ _ hrun => ((h s).of_ok hrun).2.1.fresh

/-! ### Keys -/

theorem functionNodes_sublist (shapes : List Shape) :
    (functionNodes shapes).Sublist (shapes.map Shape.node) := List.filter_sublist.map _

theorem Definition.keys_sublist (d : Definition) : d.keys.Sublist d.ids := by
  have hnodes := (functionNodes_sublist _).trans d.shapes_regular.nodes
  cases d with
  | function d => exact hnodes
  | constant d =>
    have hvalues : (functionNodes (exprsShapes none d.values)).Sublist (exprIds d.values) :=
      (functionNodes_sublist _).trans (exprsShapes_regular none d.values).nodes
    exact (hvalues.trans (List.sublist_append_right _ _)).cons_cons d.info.id

theorem AnalysisState.keys_sublist (p : Program) (s : AnalysisState) :
    (s.keys p).Sublist (s.nodeIds p) := by
  refine .append (.cons _ ?_) ?_
  · exact flatMap_sublist Definition.keys_sublist p.definitions
  · exact flatMap_sublist (fun c => (Definition.function c).keys_sublist) s.allCopies

/-! ### Runs -/

theorem Builtin.placeholders_lt : ∀ id ∈ placeholders, id < firstNodeId := by decide

/-- What is kept makes all ids unique where the nodes of the program have ids for nodes. -/
theorem AnalysisState.Kept.unique (h : s.Kept p l)
    (hfirst : ∀ id ∈ p.ids, Builtin.firstNodeId ≤ id) : s.Unique p := by
  have hdisjoint : p.placeholders.Disjoint Builtin.placeholders := by
    intro id hid hbuiltin
    have hle := hfirst id (p.placeholders_sublist.subset hid)
    have hlt := Builtin.placeholders_lt id hbuiltin
    omega
  refine ⟨h.numbered.nodup, fun node hm => ⟨?_, h.numbered.below node hm⟩,
    (s.keys_sublist p).nodup h.numbered.nodup, h.placed.nodup hdisjoint, fun id hid => ?_⟩
  · rcases List.mem_append.mp hm with hm | hm
    · exact hfirst node hm
    · obtain ⟨c, hc, hnode⟩ := List.mem_flatMap.mp hm
      have hroot : p.info.id ∈ p.ids := List.mem_cons_self
      have hle := hfirst _ hroot
      have hlt := h.numbered.behind c hc node hnode _ hroot
      omega
  · exact (h.placed.origin id hid).imp_right fun hm => ⟨hm, p.placeholders_sublist.subset hm⟩

/-- Every reader gives new nodes ids of their own, and in the analysis of a program that is read
with ids for nodes no id is used twice: at each moment of it, and where it ends, with a result or an
error. -/
theorem analysis_unique (builtins : Bool) (hfirst : Builtin.firstNodeId ≤ firstId)
    (h : Program.parse tokens file firstId = .ok (p, nextId)) :
    ((∀ power, Parse.GivesFresh (Parse.typeExpr power) TypeExpr.ids) ∧
      (∀ power, Parse.GivesFresh (Parse.expr power) Expr.ids) ∧
      Parse.GivesFresh Parse.stmt Stmt.ids ∧ Parse.GivesFresh Parse.block Block.ids ∧
      Parse.GivesFresh Parse.definition Definition.ids ∧
      Parse.GivesFresh Parse.program Program.ids) ∧
    (∃ log : List Moment,
      Passes (fun look => Check.program builtins (.looking look) p) (.initial nextId) log ∧
      ∀ m ∈ log, m.state.Unique p) ∧
    (finalState (Check.program builtins .silent p (.initial nextId))).Unique p := by
  have hp := Program.parse_wellFormed h
  have hregular := Program.parse_regular_terrain h
  have hids := Program.parse_numbered h
  have hnodes : ∀ id ∈ p.ids, Builtin.firstNodeId ≤ id := fun id hid =>
    Nat.le_trans hfirst ((Program.parse_fresh h).1.bounds id hid).1
  refine ⟨?_, ?_, ?_⟩
  · exact ⟨fun power => Parse.Mints.givesFresh fun s => Parse.typeExpr_mints power s,
      fun power => Parse.Mints.givesFresh fun s =>
        (Parse.nested_minting s.bound 0).expr power s (Parse.fits_bound s),
      Parse.Mints.givesFresh fun s =>
        (Parse.nested_minting 0 s.bound).stmt s (Parse.fits_bound s),
      Parse.Mints.givesFresh Parse.block_mints, Parse.Mints.givesFresh Parse.definition_mints,
      Parse.Mints.givesFresh Parse.program_mints⟩
  · obtain ⟨log, hpass, -⟩ := program_logged builtins p (.initial nextId)
    refine ⟨log, hpass, fun m hm => ?_⟩
    have hkept := kept_of_passes hregular (fun _ => hp.free_of_le) hids hpass m hm
    exact hkept.state.unique hnodes
  · have hkeeps := program_keepsTypes hregular (fun _ => hp.free_of_le) hids
      Observer.silent_accepting builtins
    cases hrun : Check.program builtins .silent p (.initial nextId) with
    | ok _ t => exact (hkeeps.of_ok hrun).1.unique hnodes
    | error e t => exact (hkeeps.of_error hrun).kept.unique hnodes

/-- A template that is called with a number and with a lambda. -/
theorem analysis_unique_copies :
    ∃ (tokens : List Token) (p : Program) (nextId : Nat),
      Program.parse tokens "main" Builtin.firstNodeId = .ok (p, nextId) ∧
      (∃ log : List Moment,
        Passes (fun look => Check.program true (.looking look) p) (.initial nextId) log ∧
        ∀ m ∈ log, m.state.Unique p) ∧
      (finalState (Check.program true .silent p (.initial nextId))).Unique p := by
  have hrun : ((Token.tokenize
      "func same(x) { return x; } const a = same(1); const f = same(-> (a: int) in a + 1);"
      "main").toOption.bind fun tokens =>
        (Program.parse tokens "main" Builtin.firstNodeId).toOption).isSome = true := by
    decide +kernel
  obtain ⟨⟨p, nextId⟩, hparsed⟩ := Option.isSome_iff_exists.mp hrun
  obtain ⟨tokens, -, hparse⟩ := Option.bind_eq_some_iff.mp hparsed
  cases h : Program.parse tokens "main" Builtin.firstNodeId with
  | ok r => exact ⟨tokens, r.1, r.2, h, (analysis_unique true (Nat.le_refl _) h).2⟩
  | error e =>
    rw [h] at hparse
    cases hparse

end Frontend
