import Frontend.Proofs.Analysis.Observation

/-!
# Hints do not change types

An expression that has a type without a hint has the same type with that type as its hint, and if
it holds no lambda, with any hint at all. The states behind the runs are the same, so neither a
link nor a scope, an instance or an id depends on the hint (`expr_unmoved`).
-/

namespace Frontend

mutual

/-- No lambda stands in the expression, at whatever depth. -/
def Expr.LambdaFree : Expr → Prop
  | .literal .. | .varRef .. => True
  | .array _ elems | .tuple _ elems => exprsLambdaFree elems
  | .dict _ entries => entriesLambdaFree entries
  | .member _ value _ | .unary _ _ value | .cast _ value _ | .typed _ value _ => value.LambdaFree
  | .index _ first second | .binary _ _ first second | .range _ first second _ =>
    first.LambdaFree ∧ second.LambdaFree
  | .call _ callee args => callee.LambdaFree ∧ exprsLambdaFree args
  | .ifElse _ _ condition thenValue elseValue =>
    condition.LambdaFree ∧ thenValue.LambdaFree ∧ elseValue.LambdaFree
  | .lambda .. => False

/-- No lambda stands in any of the expressions. -/
def exprsLambdaFree : List Expr → Prop
  | [] => True
  | e :: rest => e.LambdaFree ∧ exprsLambdaFree rest

/-- No lambda stands in any of the keys and values. -/
def entriesLambdaFree : List (Expr × Expr) → Prop
  | [] => True
  | (key, value) :: rest => key.LambdaFree ∧ value.LambdaFree ∧ entriesLambdaFree rest

end

mutual

/-- An expression takes no type from its hint: no empty literal and no lambda stands where the hint
is passed on to. -/
def Expr.Hintless : Expr → Prop
  | .array _ [] | .dict _ [] | .lambda .. => False
  | .array _ (first :: _) => first.Hintless
  | .tuple _ elems => exprsHintless elems
  | .dict _ ((key, value) :: _) => key.Hintless ∧ value.Hintless
  | .unary _ _ operand => operand.Hintless
  | .ifElse _ _ _ thenValue _ => thenValue.Hintless
  | _ => True

/-- Expressions take no types from their hints. -/
def exprsHintless : List Expr → Prop
  | [] => True
  | e :: rest => e.Hintless ∧ exprsHintless rest

end

/-- No hint is needed: where there is one, the expression takes no type from it. -/
def Unneeded {α : Type} : List (Option α) → List Expr → Prop
  | hint :: hints, e :: rest => (hint = none ∨ e.Hintless) ∧ Unneeded hints rest
  | _, _ => True

/-- It only matters where there are hints. -/
theorem Unneeded.congr {α β : Type} {hints : List (Option α)} {hints' : List (Option β)}
    {es : List Expr} (hsome : hints.map Option.isSome = hints'.map Option.isSome)
    (h : Unneeded hints es) : Unneeded hints' es := by
  induction es generalizing hints hints' with
  | nil => cases hints' <;> trivial
  | cons e rest ih =>
    match hints, hints', hsome with
    | _, [], _ => trivial
    | hint :: hints, hint' :: hints', hsome =>
      rw [List.map_cons, List.map_cons, List.cons.injEq] at hsome
      refine ⟨h.1.imp_left ?_, ih hsome.2 h.2⟩
      rintro rfl
      exact Option.isNone_iff_eq_none.mp (by simpa using hsome.1.symm)

/-- An operator with one operand gives a value of the type of the operand. -/
theorem UnaryOp.operand_of_result {op : UnaryOp} {operand type : Ty}
    (h : op.result operand = .ok type) : operand = type := by
  cases op <;> simp only [result] at h <;> split at h <;> cases h <;> rfl

namespace Check

variable {w : Demand} {scope : ScopeId} {s t : AnalysisState}

/-! ### Runs that give the same -/

section

variable {α β : Type} {a : α} {b : β}

/-- From some state the action gives `a`. -/
def CanGive (act : Check α) (a : α) : Prop := ∃ s t, act s = .ok a t

theorem CanGive.bind {act : Check α} {f : α → Check β} (h : CanGive (act >>= f) b) :
    ∃ a, CanGive (f a) b := by
  obtain ⟨s, t, hrun⟩ := h
  obtain ⟨a, u, -, hrest⟩ := run_bind_eq_ok.mp hrun
  exact ⟨a, u, t, hrest⟩

theorem CanGive.of_pure {a' : α} (h : CanGive (pure a') a) : a' = a := by
  obtain ⟨_, _, ⟨⟩⟩ := h
  rfl

/-- Each run of the first action that gives `a` is a run of the second one, with the same state
behind it. -/
def Repeats (a : α) (act act' : Check α) : Prop := ∀ s t, act s = .ok a t → act' s = .ok a t

namespace Repeats

variable {act act' : Check α}

theorem refl (act : Check α) : Repeats a act act := fun _ _ h => h

/-- An action that is refused gives nothing to repeat. -/
theorem fail {cause : Cause} {position : Position} : Repeats a (Check.fail cause position) act :=
  fun _ _ h => nomatch h

/-- What is to be repeated of a first action may depend on what the rest gives. -/
theorem bind {f f' : α → Check β} (hf : ∀ a, Repeats b (f a) (f' a))
    (h : ∀ a, CanGive (f a) b → Repeats a act act') : Repeats b (act >>= f) (act' >>= f') := by
  intro s t hrun
  obtain ⟨a, u, hact, hrest⟩ := run_bind_eq_ok.mp hrun
  exact run_bind_eq_ok.mpr ⟨a, u, h a ⟨u, t, hrest⟩ s u hact, hf a u t hrest⟩

/-- A common beginning. -/
theorem after {f f' : α → Check β} (hf : ∀ a, Repeats b (f a) (f' a)) :
    Repeats b (act >>= f) (act >>= f') :=
  bind hf fun _ _ => refl act

/-- The type that an expression is given is the one that is found. -/
theorem typing {w : Demand} {type : Ty} {act act' : Check Ty} (node : Nat)
    (h : Repeats type act act') :
    Repeats type (Check.typing w node act) (Check.typing w node act') := by
  refine .after fun _ => .bind (fun _ => .refl _) fun found hfound => ?_
  obtain ⟨_, hfound⟩ := hfound.bind
  obtain rfl : found = type := hfound.of_pure
  refine .bind (fun _ => .refl _) fun type htype => ?_
  obtain ⟨_, htype⟩ := htype.bind
  obtain rfl : type = found := htype.of_pure
  exact h

end Repeats

end

/-- As many expressions have types as there are. -/
theorem exprs_length {hints : List (Option Ty)} {es : List Expr} {types : List Ty}
    (h : exprs w scope hints es s = .ok types t) : types.length = es.length := by
  induction es generalizing hints types s with
  | nil =>
    rw [exprs] at h
    cases h
    rfl
  | cons e rest ih =>
    rw [exprs] at h
    obtain ⟨type, u, -, h⟩ := run_bind_eq_ok.mp h
    obtain ⟨types, v, hrest, hpure⟩ := run_bind_eq_ok.mp h
    cases hpure
    exact congrArg Nat.succ (ih hrest)

/-- Parameters whose types are known without hints have annotations. -/
theorem lambdaParams_repeats (types : List Ty) (ps : List Param) (hints : List Ty) :
    Repeats types (lambdaParams ps []) (lambdaParams ps hints) := by
  induction ps generalizing types hints with
  | nil => exact .refl _
  | cons p rest ih =>
    rw [lambdaParams, lambdaParams]
    refine .bind (fun type => .bind (fun _ => .refl _) fun _ _ => ih _ _) fun type _ => ?_
    unfold lambdaParam
    cases p.type with
    | some annotation => exact .refl _
    | none => exact .fail

/-- A lambda is declared, analysed and then typed. -/
theorem expr_lambda (w : Demand) (scope : ScopeId) (hint : Option Ty) (info : NodeInfo)
    (d : FuncDef) :
    expr w scope hint (.lambda info d) = typing w info.id (do
      let (params, id) ← declareLambda scope d (lambdaHint hint d.params.length).1
      function w d
      lambdaType params id (lambdaHint hint d.params.length).2) := by
  rw [expr.eq_def]
  rfl

/-- Without a hint that asks for a procedure, a lambda is a function with a result. -/
theorem lambda_gives {scope : ScopeId} {d : FuncDef} {hints : List Ty} {type : Ty}
    (h : CanGive (do
      let (params, id) ← declareLambda scope d hints
      function w d
      lambdaType params id false) type) : ∃ params ret, type = .func params (some ret) := by
  obtain ⟨⟨params, id⟩, h⟩ := h.bind
  obtain ⟨_, h⟩ := h.bind
  obtain ⟨f, h⟩ := h.bind
  exact ⟨params, _, h.of_pure.symm⟩

/-- The hint of a function with a result asks for no procedure. -/
theorem lambdaHint_func (params : List Ty) (ret : Ty) (count : Nat) :
    (lambdaHint (some (.func params (some ret))) count).2 = false := by
  by_cases hcount : params.length = count <;> simp [lambdaHint, hcount]

/-! ### Harmless hints -/

/-- A hint does no harm to an expression of a type: there is none, it is that type, or no lambda
stands in the expression. -/
def Harmless (e : Expr) (hint : Option Ty) (type : Ty) : Prop :=
  hint = none ∨ hint = some type ∨ e.LambdaFree

/-- Hints do no harm to expressions of certain types; where hints run out, there is none. -/
def AllHarmless : List Expr → List (Option Ty) → List Ty → Prop
  | e :: es, hints, type :: types =>
    Harmless e (hints.headD none) type ∧ AllHarmless es hints.tail types
  | _, _, _ => True

theorem allHarmless_none (es : List Expr) (types : List Ty) : AllHarmless es [] types := by
  induction es generalizing types with
  | nil => trivial
  | cons e rest ih =>
    cases types with
    | nil => trivial
    | cons type types => exact ⟨.inl rfl, ih types⟩

theorem allHarmless_some (es : List Expr) (types : List Ty) :
    AllHarmless es (types.map some) types := by
  induction es generalizing types with
  | nil => trivial
  | cons e rest ih =>
    cases types with
    | nil => trivial
    | cons type types => exact ⟨.inr (.inl rfl), ih types⟩

theorem allHarmless_of_lambdaFree {es : List Expr} (h : exprsLambdaFree es)
    (hints : List (Option Ty)) (types : List Ty) : AllHarmless es hints types := by
  induction es generalizing hints types with
  | nil => trivial
  | cons e rest ih =>
    cases types with
    | nil => trivial
    | cons type types => exact ⟨.inr (.inr h.1), ih h.2 _ _⟩

namespace Harmless

variable {info : NodeInfo} {hint : Option Ty} {type : Ty}

/-- An element of an array of the type that is hinted at has the type that is hinted at for it. -/
theorem elem {first : Expr} {rest : List Expr}
    (h : Harmless (.array info (first :: rest)) hint (.array type)) :
    Harmless first (elemHint hint) type := by
  rcases h with rfl | rfl | hfree
  · exact .inl rfl
  · exact .inr (.inl rfl)
  · exact .inr (.inr hfree.1)

theorem key {key value : Expr} {rest : List (Expr × Expr)} {keyType valueType : Ty}
    (h : Harmless (.dict info ((key, value) :: rest)) hint (.dict keyType valueType)) :
    Harmless key (dictHints hint).1 keyType := by
  rcases h with rfl | rfl | hfree
  · exact .inl rfl
  · exact .inr (.inl rfl)
  · exact .inr (.inr hfree.1)

theorem value {key value : Expr} {rest : List (Expr × Expr)} {keyType valueType : Ty}
    (h : Harmless (.dict info ((key, value) :: rest)) hint (.dict keyType valueType)) :
    Harmless value (dictHints hint).2 valueType := by
  rcases h with rfl | rfl | hfree
  · exact .inl rfl
  · exact .inr (.inl rfl)
  · exact .inr (.inr hfree.2.1)

theorem elems {es : List Expr} {types : List Ty} (h : Harmless (.tuple info es) hint (.tuple types))
    (hlength : types.length = es.length) : AllHarmless es (tupleHints hint es.length) types := by
  rcases h with rfl | rfl | hfree
  · exact allHarmless_none es types
  · have hhints : tupleHints (some (.tuple types)) es.length = types.map some := if_pos hlength
    rw [hhints]
    exact allHarmless_some es types
  · exact allHarmless_of_lambdaFree hfree _ types

theorem operand {op : UnaryOp} {operand : Expr} (h : Harmless (.unary info op operand) hint type) :
    Harmless operand hint type := h

theorem thenValue {kind : IfKind} {condition thenValue elseValue : Expr}
    (h : Harmless (.ifElse info kind condition thenValue elseValue) hint type) :
    Harmless thenValue hint type := h.imp_right (Or.imp_right fun hfree => hfree.2.1)

end Harmless

mutual

/-- A harmless hint changes neither the type of an expression nor the state behind its run. -/
theorem expr_repeats (w : Demand) (scope : ScopeId) : ∀ (e : Expr) (hint : Option Ty) (type : Ty),
    Harmless e hint type → Repeats type (expr w scope none e) (expr w scope hint e)
  -- no hint is passed on here
  | .literal .., _, _, _ | .varRef .., _, _, _ | .member .., _, _, _ | .index .., _, _, _
  | .call .., _, _, _ | .binary .., _, _, _ | .cast .., _, _, _ | .typed .., _, _, _
  | .range .., _, _, _ => by
    rw [expr.eq_def, expr.eq_def]
    exact .refl _
  | .array _ [], _, _, _ | .dict _ [], _, _, _ => by
    rw [expr.eq_def, expr.eq_def]
    exact .typing _ .fail
  | .array info (first :: rest), hint, type, h => by
    rw [expr.eq_def, expr.eq_def]
    refine .typing _ (.bind (fun _ => .refl _) fun elem hrest => ?_)
    obtain ⟨_, hpure⟩ := hrest.bind
    obtain rfl : .array elem = type := hpure.of_pure
    exact expr_repeats w scope first _ elem h.elem
  | .tuple info elems, hint, type, h => by
    rw [expr.eq_def, expr.eq_def]
    refine .typing _ fun s t hrun => ?_
    obtain ⟨types, u, helems, hpure⟩ := run_bind_eq_ok.mp hrun
    obtain rfl : .tuple types = type := CanGive.of_pure ⟨_, _, hpure⟩
    have hall : AllHarmless elems (tupleHints hint elems.length) types :=
      h.elems (exprs_length helems)
    have hrepeat := exprs_repeats w scope elems _ types hall s u helems
    exact run_bind_eq_ok.mpr ⟨types, u, hrepeat, hpure⟩
  | .dict info ((key, value) :: rest), hint, type, h => by
    rw [expr.eq_def, expr.eq_def]
    refine .typing _ (.bind (fun keyType => .bind (fun _ => .refl _) fun valueType hrest => ?_)
      fun keyType hrest => ?_)
    · obtain ⟨_, hpure⟩ := hrest.bind
      obtain rfl : .dict keyType valueType = type := hpure.of_pure
      exact expr_repeats w scope value _ valueType h.value
    · obtain ⟨valueType, hrest⟩ := hrest.bind
      obtain ⟨_, hpure⟩ := hrest.bind
      obtain rfl : .dict keyType valueType = type := hpure.of_pure
      exact expr_repeats w scope key _ keyType h.key
  | .unary info op operand, hint, type, h => by
    rw [expr.eq_def, expr.eq_def]
    refine .typing _ (.bind (fun _ => .refl _) fun operandType hrest => ?_)
    have hsame : operandType = type := by
      cases hresult : op.result operandType with
      | ok result =>
        rw [hresult] at hrest
        exact (op.operand_of_result hresult).trans hrest.of_pure
      | error expected =>
        rw [hresult] at hrest
        obtain ⟨_, _, ⟨⟩⟩ := hrest
    exact expr_repeats w scope operand hint operandType (hsame ▸ h.operand)
  | .ifElse info kind condition thenValue elseValue, hint, type, h => by
    rw [expr.eq_def, expr.eq_def]
    refine .typing _ (.after fun _ => .after fun _ =>
      .bind (fun _ => .refl _) fun thenType hrest => ?_)
    obtain ⟨_, hrest⟩ := hrest.bind
    obtain ⟨_, hpure⟩ := hrest.bind
    obtain rfl : thenType = type := hpure.of_pure
    exact expr_repeats w scope thenValue hint thenType h.thenValue
  | .lambda info definition, hint, type, h => by
    rw [expr_lambda, expr_lambda]
    refine .typing _ fun s t hrun => ?_
    have hret : ∃ params ret, type = .func params (some ret) := lambda_gives ⟨s, t, hrun⟩
    have hwants : (lambdaHint hint definition.params.length).2 = false := by
      obtain ⟨params, ret, rfl⟩ := hret
      rcases h with rfl | rfl | hfree
      · rfl
      · exact lambdaHint_func params ret _
      · exact hfree.elim
    rw [hwants]
    refine Repeats.bind (fun _ => .refl _) (fun declared _ => ?_) s t hrun
    exact .bind (fun _ => .refl _) fun types _ => lambdaParams_repeats types _ _

theorem exprs_repeats (w : Demand) (scope : ScopeId) : ∀ (es : List Expr)
    (hints : List (Option Ty)) (types : List Ty), AllHarmless es hints types →
      Repeats types (exprs w scope [] es) (exprs w scope hints es)
  | [], _, _, _ => by
    rw [exprs, exprs]
    exact .refl _
  | e :: rest, hints, types, h => by
    rw [exprs, exprs]
    refine .bind (fun type => .bind (fun _ => .refl _) fun others hpure => ?_) fun type hrest => ?_
    · obtain rfl : type :: others = types := hpure.of_pure
      exact exprs_repeats w scope rest _ others h.2
    · obtain ⟨others, hpure⟩ := hrest.bind
      obtain rfl : type :: others = types := hpure.of_pure
      exact expr_repeats w scope e _ type h.1

end

mutual

/-- An expression that takes no type from its hint goes the same way with any hint. -/
theorem expr_hintless (w : Demand) (scope : ScopeId) (hint : Option Ty) : ∀ e : Expr,
    e.Hintless → expr w scope hint e = expr w scope none e
  | .literal .., _ | .varRef .., _ | .member .., _ | .index .., _ | .call .., _ | .binary .., _
  | .cast .., _ | .typed .., _ | .range .., _ => by
    rw [expr.eq_def, expr.eq_def]
  | .array _ (first :: rest), h => by
    have hfirst := expr_hintless w scope (elemHint hint) first h
    rw [expr.eq_def, expr.eq_def]
    have hnone : elemHint none = none := rfl
    simp only [hfirst, hnone]
  | .tuple _ elems, h => by
    have helems := exprs_hintless w scope elems (tupleHints hint elems.length) h
    rw [expr.eq_def, expr.eq_def]
    have hnone : tupleHints none elems.length = [] := rfl
    simp only [helems, hnone]
  | .dict _ ((key, value) :: rest), h => by
    have hkey := expr_hintless w scope (dictHints hint).1 key h.1
    have hvalue := expr_hintless w scope (dictHints hint).2 value h.2
    rw [expr.eq_def, expr.eq_def]
    have hnone : dictHints none = (none, none) := rfl
    simp only [hkey, hvalue, hnone]
  | .unary _ op operand, h => by
    have hoperand := expr_hintless w scope hint operand h
    rw [expr.eq_def, expr.eq_def]
    simp only [hoperand]
  | .ifElse _ _ condition thenValue elseValue, h => by
    have hthen := expr_hintless w scope hint thenValue h
    rw [expr.eq_def, expr.eq_def]
    simp only [hthen]

theorem exprs_hintless (w : Demand) (scope : ScopeId) : ∀ (es : List Expr)
    (hints : List (Option Ty)), exprsHintless es → exprs w scope hints es = exprs w scope [] es
  | [], _, _ => by rw [exprs, exprs]
  | e :: rest, hints, h => by
    rw [exprs, exprs, expr_hintless w scope _ e h.1, exprs_hintless w scope rest _ h.2]
    rfl

end

/-- Hints that are not needed may be left out. -/
theorem exprs_unneeded (w : Demand) (scope : ScopeId) {hints : List (Option Ty)} {es : List Expr}
    (h : Unneeded hints es) : exprs w scope hints es = exprs w scope [] es := by
  induction es generalizing hints with
  | nil => rw [exprs, exprs]
  | cons e rest ih =>
    match hints, h with
    | [], _ => rfl
    | hint :: hints, h =>
      rw [exprs, exprs, List.headD_cons, List.tail_cons, ih h.2]
      rcases h.1 with rfl | hless
      · rfl
      · rw [expr_hintless w scope hint e hless]
        rfl

/-- An expression that has a type without a hint has it with that type as its hint, and without a
lambda in it, with any hint; each time the same state is behind the run. -/
theorem expr_unmoved {w : Demand} {scope : ScopeId} {e : Expr} {type : Ty} {s t : AnalysisState}
    (h : expr w scope none e s = .ok type t) :
    expr w scope (some type) e s = .ok type t ∧
      (e.LambdaFree → ∀ hint, expr w scope hint e s = .ok type t) := by
  constructor
  · exact expr_repeats w scope e (some type) type (.inr (.inl rfl)) s t h
  · intro hfree hint
    exact expr_repeats w scope e hint type (.inr (.inr hfree)) s t h

/-- A pair of a list and a number keeps its type in a context that expects another one. -/
theorem expr_unmoved_pair : ∃ (w : Demand) (s t : AnalysisState) (e : Expr) (type : Ty),
    expr w Store.globalScope none e s = .ok type t ∧ e.LambdaFree ∧
      type = .tuple [.array .int, .uint] ∧
      expr w Store.globalScope (some type) e s = .ok type t ∧
      expr w Store.globalScope (some (.tuple [.array .float, .string])) e s = .ok type t := by
  let node (id : Nat) : NodeInfo := ⟨id, .null⟩
  let e : Expr := .tuple (node 0) [.array (node 1) [.literal (node 2) (.int 1)],
    .literal (node 3) (.uint 2)]
  let w : Demand := ⟨fun _ => pure (), fun _ => pure (), fun _ => none, fun _ => pure ()⟩
  have hrun : (expr w Store.globalScope none e).run' (.initial 4) =
      some (.tuple [.array .int, .uint]) := by decide +kernel
  obtain ⟨t, heq⟩ := exists_state_of_run' hrun
  have hfree : e.LambdaFree := by simp [e, Expr.LambdaFree, exprsLambdaFree]
  obtain ⟨hsame, hany⟩ := expr_unmoved heq
  exact ⟨w, _, t, e, _, heq, hfree, rfl, hsame, hany hfree _⟩

end Check

end Frontend
