import Frontend.Proofs.Analysis.Totality
import Frontend.Proofs.Builtins.Walk
import Frontend.Proofs.Returns.Declare

/-!
# Builtin functions are invisible to programs that do not mention them

If no function, reference or member of a source text has the name of a builtin function, then the
text is refused for the same cause at the same place with and without builtin functions, or it is
accepted and the same is found out about it.
-/

namespace Frontend

open Check

variable {p : Program}

/-- What a definition mentions beside the name of a function. -/
theorem Definition.discreet_function {d : FuncDef} (h : Discreet (Definition.function d).names) :
    d.name ∉ Builtin.names ∧ Discreet d.names := discreet_cons.mp h

namespace Program

variable (hp : Discreet p.names)
include hp

theorem discreet_of_mem_functions {d : FuncDef} (hd : d ∈ p.functions) :
    d.name ∉ Builtin.names ∧ Discreet d.names := by
  obtain ⟨definition, hm, hdef⟩ := List.mem_filterMap.mp hd
  cases definition with
  | constant d => cases hdef
  | function f =>
    cases hdef
    exact Definition.discreet_function (discreet_flatMap.mp hp _ hm)

theorem discreet_of_mem_constants {d : ConstDef} (hd : d ∈ p.constants) :
    Discreet (exprsNames d.values) := by
  obtain ⟨definition, hm, hdef⟩ := List.mem_filterMap.mp hd
  cases definition with
  | function d => cases hdef
  | constant c =>
    cases hdef
    exact discreet_flatMap.mp hp _ hm

end Program

/-! ### Demands -/

/-- The demands of a program that mentions no builtin function are met alike. -/
theorem demandAt_discreet (hp : Discreet p.names) (depth : Nat) (stack : List Nat) :
    (demandAt p .silent depth stack).Discreet := by
  have hdefinition : ∀ {name d}, p.constantNamed? name = some d → Discreet (exprsNames d.values) :=
    fun h => Program.discreet_of_mem_constants hp (List.mem_of_find?_eq_some h)
  induction depth generalizing stack with
  | zero =>
    exact
      { constant := fun _ => .fault _ _
        function := fun _ => .fault _ _
        definitionOf := hdefinition
        visit := fun _ => .pure rfl }
  | succ depth ih =>
    exact
      { constant := fun hd => constants_alike (ih _) hd
        function := fun hd => (alike_of_discreet (ih _)).onFunctions _ hd
        definitionOf := hdefinition
        visit := fun _ => .pure rfl }

/-! ### Registration -/

namespace Check

theorem registerFunction_alike {d : FuncDef} (hd : Discreet (Definition.function d).names) :
    Alike (registerFunction d) := by
  obtain ⟨hname, hnames⟩ := Definition.discreet_function hd
  refine (declareFunction_parallel hnames _ none).bind_of
    (declareFunction_ensures_symbol d _ none) ?_
  rintro ⟨scope, id⟩ _ t t' rfl ht ⟨f, hf, hfname, -⟩
  have hdefine := Store.defineFunction_behind hf (hfname.symm ▸ hname)
  refine .store ?_
  rw [ht.store]
  dsimp only
  rw [hdefine]
  cases h : t.store.defineFunction id with
  | error existing =>
    refine (func_parallel existing).bind ?_ ht
    rintro _ g ⟨rfl, -⟩
    exact .fail _ _
  | ok st =>
    have hst : st.funcs = t.store.funcs := by
      unfold Store.defineFunction at h
      dsimp only at h
      split at h
      · cases h
      · cases h
        rfl
    refine setStore_parallel ?_ ht
    intro g hg
    exact ht.discreet g (hst ▸ hg)

theorem registerConstant_alike (d : ConstDecl) : Alike (registerConstant d) := by
  refine (denoted?_stateless _).alike.next fun type => store_parallel.bind ?_
  rintro st _ ⟨rfl, hst⟩
  rw [Store.defineConstant_behind]
  cases h : st.defineConstant ⟨d.name, type, false⟩ with
  | error existing => exact .fail _ _
  | ok r =>
    have hr : r.2.funcs = st.funcs := by
      unfold Store.defineConstant at h
      split at h
      · cases h
      · cases h
        rfl
    have hdiscreet : r.2.Discreet := fun g hg => hst g (hr ▸ hg)
    exact (setStore_parallel hdiscreet).next fun _ => link_parallel _ (.var r.1)

theorem registerDefinition_alike {d : Definition} (hd : Discreet d.names) :
    Alike (registerDefinition d) := by
  cases d with
  | function d => exact registerFunction_alike hd
  | constant d => exact .forM fun c _ => registerConstant_alike c

/-! ### Programs -/

theorem unlessBegun_alike (node : Nat) {act : Check Unit} (h : Alike act) :
    Alike (unlessBegun node act) := by
  refine (progress?_alike node).next fun begun => ?_
  split
  · exact h
  · exact .pure rfl

theorem bodies_alike (hp : Discreet p.names) : Alike (bodies .silent p) := by
  have hw := demandAt_discreet hp (p.demandBound + 1) []
  refine Parallel.next (.forM fun d hd => ?_) fun _ => .forM fun d hd => ?_
  · exact unlessBegun_alike _ (hw.constant (Program.discreet_of_mem_constants hp hd))
  · split
    · exact .pure rfl
    · exact unlessBegun_alike _ (hw.function (Program.discreet_of_mem_functions hp hd).2)

/-- Beside the registration of builtin functions, both analyses do the same. -/
theorem program_eq (builtins : Bool) (p : Program) (s : AnalysisState) :
    program builtins .silent p s =
      (p.definitions.forM registerDefinition >>= fun _ => bodies .silent p)
        (if builtins then { s with store := s.store.registerBuiltins } else s) := by
  unfold program register
  rw [bind_assoc]
  rfl

end Check

/-- Nothing is known, with the builtin functions declared and without them. -/
theorem initial_tied (nextId : Nat) : Tied (.initial nextId)
    { AnalysisState.initial nextId with store := Store.empty.registerBuiltins } where
  store := Store.registerBuiltins_empty
  types := rfl
  links node := by
    change (∅ : Std.TreeMap Nat Link)[node]? = ((∅ : Std.TreeMap Nat Link)[node]?).map Link.behind
    rw [Std.TreeMap.getElem?_emptyc, Option.map_none]
  scopes := rfl
  copies := rfl
  refused := rfl
  progress := rfl
  known := rfl
  active := rfl
  nextId := rfl
  discreet := by
    intro f hf
    exact absurd hf (Array.not_mem_empty f)

/-- The program is analysed with builtin functions as it is without them. -/
theorem Check.program_tracks (hp : Discreet p.names) (nextId : Nat) :
    Tracks Eq (program false .silent p) (program true .silent p) (.initial nextId)
      (.initial nextId) := by
  have hrest : Alike (p.definitions.forM registerDefinition >>= fun _ => bodies .silent p) :=
    Parallel.next (.forM fun d hd => registerDefinition_alike (discreet_flatMap.mp hp d hd))
      fun _ => bodies_alike hp
  have htracks := hrest (initial_tied nextId)
  unfold Tracks Ensures at htracks ⊢
  rw [program_eq, program_eq]
  exact htracks

/-- How two analyses end: they refuse the text for the same cause at the same place, or they accept
the same program and find out the same about it. -/
inductive SameOutcome : Except Failure Analysis → Except Failure Analysis → Prop
  | refused (error : Error) : SameOutcome (.error (.error error)) (.error (.error error))
  | accepted {p : Program} {s t : AnalysisState} (h : Beside s t) :
    SameOutcome (.ok ⟨p, s⟩) (.ok ⟨p, t⟩)

/-- A program that is read from tokens and mentions no builtin function has the same outcome with
and without them. -/
theorem Program.analyze_sameOutcome {tokens : List Token} {file : String} {firstId nextId : Nat}
    (h : Program.parse tokens file firstId = .ok (p, nextId)) (hp : Discreet p.names) :
    SameOutcome (p.analyze false nextId) (p.analyze true nextId) := by
  have htracks := Check.program_tracks hp nextId
  have htotal := Program.analyze_total false h
  unfold Program.analyze at htotal ⊢
  cases hrun : Check.program false .silent p (.initial nextId) with
  | ok a t =>
    obtain ⟨a', t', hrun', -, ht⟩ := htracks.of_ok hrun
    rw [hrun']
    exact .accepted ht.toBeside
  | error failure t =>
    obtain ⟨error, rfl⟩ : ∃ error, failure = .error error := by
      rw [hrun] at htotal
      rcases htotal with ⟨a, ha⟩ | ⟨error, herror⟩
      · cases ha
      · exact ⟨error, Except.error.inj herror⟩
    obtain ⟨t', hrun'⟩ := htracks.of_error hrun ⟨error, rfl⟩
    rw [hrun']
    exact .refused error

/-- If no function, reference or member of a source text has the name of a builtin function, the
text is refused for the same cause at the same place with and without builtin functions, or it is
accepted and types, links, scopes and instances are the same. -/
theorem analyzeSource_builtins {source file : String} {firstId : Nat}
    (h : ∀ {tokens p nextId}, Token.tokenize source file = .ok tokens →
      Program.parse tokens file firstId = .ok (p, nextId) → Discreet p.names) :
    SameOutcome (analyzeSource source file false firstId)
      (analyzeSource source file true firstId) := by
  unfold analyzeSource
  cases htokens : Token.tokenize source file with
  | error error => exact .refused error
  | ok tokens =>
    change SameOutcome (Program.parse tokens file firstId >>= _)
      (Program.parse tokens file firstId >>= _)
    cases hparse : Program.parse tokens file firstId with
    | error failure =>
      obtain ⟨last, hlast, heof⟩ := Token.tokenize_getLast? htokens
      obtain ⟨error, rfl⟩ := Program.parse_reports hlast heof hparse
      exact .refused error
    | ok parsed => exact Program.analyze_sameOutcome hparse (h htokens hparse)

/-- A template and a constant that is computed by an instance of it. -/
theorem analyzeSource_builtins_template :
    ∃ a b, analyzeSource "func twice(x) { return x + x; } const four = twice(2);" "main" false
        Builtin.firstNodeId = .ok a ∧
      analyzeSource "func twice(x) { return x + x; } const four = twice(2);" "main" true
        Builtin.firstNodeId = .ok b ∧ Beside a.state b.state := by
  have hrun : (analyzeSource "func twice(x) { return x + x; } const four = twice(2);" "main" false
      Builtin.firstNodeId).toOption.isSome = true := by decide +kernel
  have hnames : ((Token.tokenize "func twice(x) { return x + x; } const four = twice(2);"
      "main").toOption.bind fun tokens => (Program.parse tokens "main"
        Builtin.firstNodeId).toOption).all (fun r => decide (Discreet r.1.names)) = true := by
    decide +kernel
  have hsame := analyzeSource_builtins (fun htokens hparse => by
    rw [htokens] at hnames
    change (Program.parse _ "main" Builtin.firstNodeId).toOption.all _ = true at hnames
    rw [hparse] at hnames
    exact of_decide_eq_true hnames)
  cases ha : analyzeSource "func twice(x) { return x + x; } const four = twice(2);" "main" false
      Builtin.firstNodeId with
  | error e => rw [ha] at hrun; cases hrun
  | ok a =>
    rw [ha] at hsame
    generalize analyzeSource "func twice(x) { return x + x; } const four = twice(2);" "main" true
      Builtin.firstNodeId = other at hsame ⊢
    cases hsame with
    | accepted h => exact ⟨_, _, rfl, rfl, h⟩

end Frontend
