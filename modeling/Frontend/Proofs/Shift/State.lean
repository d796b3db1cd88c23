import Frontend.Proofs.Analysis.Opening
import Frontend.Proofs.Shift.Symbols
import Frontend.Proofs.Shift.Twin

/-!
# States with later ids

The states of two analyses of which the second one has a later counter: whatever one has found out
about a node, the other one has found out about the shifted node. Each operation that the analysis
is made of keeps two states so, or reports the same in both.
-/

namespace Frontend

variable {d : Nat} {α β : Type}

/-! ### Tables -/

/-- A table with its keys shifted, and its values changed. -/
structure TableShifted (d : Nat) (g : α → β) (m : Std.TreeMap Nat α) (m' : Std.TreeMap Nat β) :
    Prop where
  values : ∀ key : Nat, m'[shiftId d key]? = m[key]?.map g
  keys : ∀ key : Nat, key ∈ m' → ∃ old, key = shiftId d old

namespace TableShifted

variable {g : α → β} {m : Std.TreeMap Nat α} {m' : Std.TreeMap Nat β}

theorem empty : TableShifted d g ∅ ∅ where
  values key := by rw [Std.TreeMap.getElem?_emptyc, Std.TreeMap.getElem?_emptyc, Option.map_none]
  keys key h := absurd h Std.TreeMap.not_mem_emptyc

theorem insert (h : TableShifted d g m m') (key : Nat) (a : α) :
    TableShifted d g (m.insert key a) (m'.insert (shiftId d key) (g a)) where
  values k := by
    simp only [Std.TreeMap.getElem?_insert, h.values, Std.compare_eq_iff_eq,
      shiftId_injective.eq_iff]
    split <;> rfl
  keys k hk := by
    rw [Std.TreeMap.mem_insert, Std.compare_eq_iff_eq] at hk
    rcases hk with rfl | hk
    · exact ⟨key, rfl⟩
    · exact h.keys k hk

theorem contains (h : TableShifted d g m m') (key : Nat) :
    m'.contains (shiftId d key) = m.contains key := by
  rw [Std.TreeMap.contains_eq_isSome_getElem?, Std.TreeMap.contains_eq_isSome_getElem?, h.values,
    Option.isSome_map]

theorem getD (h : TableShifted d g m m') (key : Nat) (a : α) :
    m'.getD (shiftId d key) (g a) = g (m.getD key a) := by
  rw [Std.TreeMap.getD_eq_getD_getElem?, Std.TreeMap.getD_eq_getD_getElem?, h.values,
    Option.getD_map]

end TableShifted

/-! ### Failures -/

/-- Causes that are the same up to the ids in the texts of functions and types. -/
inductive Cause.Shifted (d : Nat) : Cause → Cause → Prop
  | same {cause : Cause} (h : cause.isPlain = true) : Shifted d cause cause
  | redeclared (f : FuncSymbol) :
    Shifted d (.functionAlreadyDeclared f.describe) (.functionAlreadyDeclared (f.shift d).describe)
  | overload (name : String) (args : List Ty) :
    Shifted d (.noMatchingOverload name (Ty.joinText args))
      (.noMatchingOverload name (Ty.joinText (args.map (Ty.shift d))))
  | received (expected : String) (type : Ty) :
    Shifted d (.typeMatch expected type.toText) (.typeMatch expected (type.shift d).toText)
  | types (expected received : Ty) :
    Shifted d (.typeMatch expected.toText received.toText)
      (.typeMatch (expected.shift d).toText (received.shift d).toText)
  | notInferred (f : FuncSymbol) :
    Shifted d (.typeNotInferred f.name) (.typeNotInferred (f.shift d).name)

/-- Reports of the same cause, up to ids, at the same place. -/
structure Error.Shifted (d : Nat) (e e' : Error) : Prop where
  cause : e.cause.Shifted d e'.cause
  position : e'.position = e.position

/-- Failures of the same cause, up to ids, at the same place. Of broken preconditions nothing is
said. -/
inductive Failure.Shifted (d : Nat) : Failure → Failure → Prop
  | error {e e' : Error} (h : e.Shifted d e') : Shifted d (.error e) (.error e')
  | fault (f f' : Fault) : Shifted d (.fault f) (.fault f')

theorem Failure.Shifted.same : ∀ {e : Failure}, e.isPlain = true → e.Shifted d e
  | .error _, h => .error ⟨.same h, rfl⟩
  | .fault f, _ => .fault f f

/-! ### States -/

/-- An instance of a template with its ids shifted. -/
def Instance.shift (d : Nat) (i : Instance) : Instance :=
  { i with template := shiftId d i.template, args := i.args.map (Ty.shift d) }

/-- What one analysis has found out, another one has found out about shifted nodes, and nothing
else. -/
structure AnalysisState.Shifted (d : Nat) (s s' : AnalysisState) : Prop where
  store : s'.store = s.store.shift d
  types : TableShifted d (Ty.shift d) s.types s'.types
  links : TableShifted d id s.links s'.links
  scopes : TableShifted d id s.scopes s'.scopes
  copies : TableShifted d (Array.map (FuncDef.shift d)) s.copies s'.copies
  refused : s'.refused = s.refused.map (shiftId d)
  progress : TableShifted d id s.progress s'.progress
  known : s'.known = s.known.map (Instance.shift d)
  active : TableShifted d id s.active s'.active
  nextId : s'.nextId = s.nextId + d

/-- States of two analyses whose counters are past the ids of builtin placeholders, and whose global
functions are no lambdas. -/
structure Tandem (d : Nat) (s s' : AnalysisState) : Prop extends s.Shifted d s' where
  later : Builtin.firstNodeId ≤ s.nextId
  named : s.store.Named

namespace Tandem

variable {s s' : AnalysisState}

/-- Other symbols. -/
theorem withStore (h : Tandem d s s') {st : Store} (hst : st.Named) :
    Tandem d { s with store := st } { s' with store := st.shift d } :=
  { h with store := rfl, named := hst }

theorem link (h : Tandem d s s') (node : Nat) (target : Link) :
    Tandem d { s with toResolution := s.toResolution.link node target }
      { s' with toResolution := s'.toResolution.link (shiftId d node) target } := by
  unfold Resolution.link
  rw [h.links.contains]
  by_cases hn : s.links.contains node = true
  · rw [if_pos hn, if_pos hn]
    exact { h with refused := congrArg (shiftId d node :: ·) h.refused }
  · rw [if_neg hn, if_neg hn]
    exact { h with links := h.links.insert node target }

theorem setScope (h : Tandem d s s') (node : Nat) (scope : ScopeId) :
    Tandem d { s with toResolution := s.toResolution.setScope node scope }
      { s' with toResolution := s'.toResolution.setScope (shiftId d node) scope } := by
  unfold Resolution.setScope
  rw [h.scopes.contains]
  by_cases hn : s.scopes.contains node = true
  · rw [if_pos hn, if_pos hn]
    exact { h with refused := congrArg (shiftId d node :: ·) h.refused }
  · rw [if_neg hn, if_neg hn]
    exact { h with scopes := h.scopes.insert node scope }

end Tandem

namespace Check

/-- Analyses of which the second one has a later counter. -/
def twin (d : Nat) : Twin Failure AnalysisState where
  states := Tandem d
  failures := Failure.Shifted d

variable {position : Position} {scope : ScopeId} {good : α → β → Prop}

/-! ### Failing -/

theorem fail_shifts {cause cause' : Cause} (h : cause.Shifted d cause') :
    Alongside (twin d) good (fail cause position) (fail cause' position) :=
  .throw (.error ⟨h, rfl⟩)

theorem fail_same {cause : Cause} (h : cause.isPlain = true) :
    Alongside (twin d) good (fail cause position) (fail cause position) := fail_shifts (.same h)

theorem fault_shifts (f f' : Fault) : Alongside (twin d) good (fault f) (fault f') :=
  .throw (.fault f f')

theorem mismatch_shifts (expected : String) (received : Ty) :
    Alongside (twin d) good (mismatch expected received position)
      (mismatch expected (received.shift d) position) := fail_shifts (.received expected received)

theorem expectType_shifts (expected received : Ty) :
    Agree (twin d) (expectType expected received position)
      (expectType (expected.shift d) (received.shift d) position) := by
  unfold expectType
  simp only [Ty.shift_inj]
  split
  · exact .pure rfl
  · exact fail_shifts (.types expected received)

theorem expectTypeIf_shifts (expected : Option Ty) (received : Ty) :
    Agree (twin d) (expectTypeIf expected received position)
      (expectTypeIf (expected.map (Ty.shift d)) (received.shift d) position) := by
  cases expected with
  | none => exact .pure rfl
  | some expected => exact expectType_shifts expected received

theorem expectOperand_shifts (op : BinaryOp) (type : Ty) :
    Agree (twin d) (expectOperand op type position)
      (expectOperand op (type.shift d) position) := by
  unfold expectOperand
  rw [op.result?_shift, Option.isNone_map]
  split
  · exact mismatch_shifts _ _
  · exact .pure rfl

/-! ### Annotations -/

/-- Of two results that fail alike, the second one gives an image. -/
theorem ofResult_shifts (g : α → β) {r : Except Failure α} (h : FailsOnly Failure.isPlain r) :
    Carries (twin d) g (ofResult r) (ofResult (r.map g)) := by
  cases r with
  | ok a => exact .pure rfl
  | error e => exact .throw (.same (h e rfl))

theorem denoted_shifts (t : TypeExpr) :
    Carries (twin d) (Ty.shift d) (denoted t) (denoted (t.shift d)) := by
  have hmap : (t.shift d).resolve.mapError Failure.error =
      (t.resolve.mapError Failure.error).map (Ty.shift d) := by
    rw [t.resolve_shift]
    cases t.resolve <;> rfl
  unfold denoted
  rw [hmap]
  exact ofResult_shifts _ t.denotes_failsOnly

theorem denoted?_shifts (t : Option TypeExpr) :
    Carries (twin d) (Option.map (Ty.shift d)) (denoted? t)
      (denoted? (t.map (TypeExpr.shift d))) := by
  cases t with
  | none => exact .pure rfl
  | some t => exact (denoted_shifts t).carry fun _ => .pure rfl

/-! ### Taking types apart -/

theorem takeApart_shifts (count : Nat) (type : Ty) :
    Carries (twin d) (List.map (Ty.shift d)) (takeApart count type position)
      (takeApart count (type.shift d) position) := by
  cases type with
  | tuple elems =>
    simp only [Ty.shift, shiftTypes_eq, takeApart, List.length_map]
    split
    · exact .pure rfl
    · exact fail_same rfl
  | func params ret =>
    rw [Ty.shift_func]
    exact fail_same rfl
  | _ => exact fail_same rfl

theorem loopTypes_shifts (count : Nat) (elem : Ty) :
    Carries (twin d) (List.map (Ty.shift d)) (loopTypes count elem position)
      (loopTypes count (elem.shift d) position) := by
  unfold loopTypes
  split
  · exact .pure rfl
  · exact takeApart_shifts count elem

theorem declaredTypes_shifts (decls : List VarDecl) (types : List (Option Ty)) :
    Carries (twin d) (List.map (Ty.shift d)) (declaredTypes decls types)
      (declaredTypes (decls.map (VarDecl.shift d)) (types.map (Option.map (Ty.shift d)))) := by
  induction decls generalizing types with
  | nil => exact .pure rfl
  | cons decl rest ih =>
    rcases types with _ | ⟨_ | type, types⟩
    · exact .pure rfl
    · exact fail_same rfl
    · exact (ih types).carry fun _ => .pure rfl

theorem indexType_shifts (receiver index : Expr) (receiverType type : Ty) :
    Carries (twin d) (Ty.shift d) (indexType receiver index receiverType type)
      (indexType (receiver.shift d) (index.shift d) (receiverType.shift d) (type.shift d)) := by
  have hother : ∀ t : Ty, Carries (twin d) (Ty.shift d)
      (mismatch "indexable value" t receiver.position)
      (mismatch "indexable value" (t.shift d) receiver.position) := fun t => mismatch_shifts _ t
  unfold indexType
  rw [receiver.position_shift, index.position_shift, index.tuplePosition?_shift]
  cases receiverType with
  | array elem =>
    simp only [Ty.shift, Ty.isIntegral_shift]
    split
    · exact .pure rfl
    · exact mismatch_shifts _ _
  | builtin b =>
    cases b with
    | string =>
      simp only [Ty.shift, Ty.isIntegral_shift]
      split
      · exact .pure (by simp)
      · exact mismatch_shifts _ _
    | _ => exact hother _
  | dict key value => exact (expectType_shifts key type).next fun _ => .pure rfl
  | tuple elems =>
    simp only [Ty.shift, shiftTypes_eq, List.getElem?_map]
    cases index.tuplePosition? with
    | none => exact mismatch_shifts _ _
    | some i =>
      simp only [Option.bind_some]
      cases elems[i]? with
      | none => exact mismatch_shifts _ _
      | some elem => exact .pure rfl
  | func params ret =>
    have hfunc := hother (.func params ret)
    rw [Ty.shift_func] at hfunc ⊢
    exact hfunc
  | _ => exact hother _

end Check

end Frontend
