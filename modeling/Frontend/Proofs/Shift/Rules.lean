import Frontend.Analysis.Walk
import Frontend.Proofs.Shift.Tree
import Frontend.Proofs.Tree.Denotation

/-!
# Rules on shifted types

A shift keeps types apart and looks alike to every rule: what a rule computes from shifted types is
the shift of what it computes from the types. An annotation denotes the same type, for no annotation
denotes a placeholder.
-/

namespace Frontend

variable {d : Nat}

/-! ### Types -/

mutual

/-- Different types have different shifts. -/
theorem Ty.shift_inj : ∀ {t u : Ty}, t.shift d = u.shift d ↔ t = u
  | .builtin a, u => by cases u <;> simp
  | .template a, u => by cases u <;> simp [shiftId_injective.eq_iff]
  | .array a, u => by cases u <;> simp [Ty.shift_inj]
  | .tuple as, u => by cases u <;> simp [Ty.shiftAll_inj]
  | .dict k v, u => by cases u <;> simp [Ty.shift_inj]
  | .func ps none, u => by
    cases u with
    | func qs r' => cases r' <;> simp [Ty.shiftAll_inj]
    | _ => simp
  | .func ps (some r), u => by
    cases u with
    | func qs r' => cases r' <;> simp [Ty.shiftAll_inj, Ty.shift_inj]
    | _ => simp
  | .named n as, u => by cases u <;> simp [Ty.shiftAll_inj]
  | .qualified q a, u => by cases u <;> simp [Ty.shift_inj]

theorem Ty.shiftAll_inj : ∀ {ts us : List Ty},
    ts.map (Ty.shift d) = us.map (Ty.shift d) ↔ ts = us
  | [], us => by cases us <;> simp
  | t :: ts, us => by cases us <;> simp [Ty.shift_inj, Ty.shiftAll_inj]

end

@[simp] theorem Ty.isTemplate_shift (t : Ty) : (t.shift d).isTemplate = t.isTemplate := by
  cases t <;> simp [isTemplate]

@[simp] theorem Ty.isUnit_shift (t : Ty) : (t.shift d).isUnit = t.isUnit := by
  cases t with
  | tuple elems => cases elems <;> simp [isUnit]
  | _ => simp [isUnit]

@[simp] theorem Ty.isNumeric_shift (t : Ty) : (t.shift d).isNumeric = t.isNumeric := by
  cases t <;> simp [isNumeric]

@[simp] theorem Ty.isIntegral_shift (t : Ty) : (t.shift d).isIntegral = t.isIntegral := by
  cases t <;> simp [isIntegral]

theorem Ty.shift_eq_bool (t : Ty) : t.shift d = .bool ↔ t = .bool := by
  have hbool : Ty.bool.shift d = .bool := by simp
  rw [← hbool, Ty.shift_inj]
  simp

theorem Ty.shift_eq_string (t : Ty) : t.shift d = .string ↔ t = .string := by
  have hstring : Ty.string.shift d = .string := by simp
  rw [← hstring, Ty.shift_inj]
  simp

theorem Ty.getD_unit_shift (t : Option Ty) :
    (t.map (Ty.shift d)).getD .unit = (t.getD .unit).shift d := by
  cases t <;> simp

/-! ### Annotations -/

mutual

/-- The text of an annotation has no ids in it. -/
theorem TypeExpr.toText_shift : ∀ t : TypeExpr, (t.shift d).toText = t.toText
  | .primary _ name [] => by simp [TypeExpr.shift, TypeExpr.toText]
  | .primary _ name (arg :: args) => by
    have hargs := joinText_shift (arg :: args)
    rw [List.map_cons] at hargs
    simp only [TypeExpr.shift, shiftAnnotations_eq, List.map_cons, TypeExpr.toText, hargs]
  | .array _ elem => by simp [TypeExpr.shift, TypeExpr.toText, elem.toText_shift]
  | .dict _ key value => by
    simp [TypeExpr.shift, TypeExpr.toText, key.toText_shift, value.toText_shift]
  | .tuple _ elems => by simp [TypeExpr.shift, TypeExpr.toText, joinText_shift elems]
  | .func _ kind params none => by simp [TypeExpr.shift, TypeExpr.toText, joinText_shift params]
  | .func _ kind params (some ret) => by
    simp [TypeExpr.shift, TypeExpr.toText, joinText_shift params, ret.toText_shift]
  | .qualified _ .ref inner => by simp [TypeExpr.shift, TypeExpr.toText, inner.toText_shift]
  | .qualified _ .maybe inner => by simp [TypeExpr.shift, TypeExpr.toText, inner.toText_shift]

theorem joinText_shift : ∀ ts : List TypeExpr,
    TypeExpr.joinText (ts.map (TypeExpr.shift d)) = TypeExpr.joinText ts
  | [] => rfl
  | [t] => by simp [TypeExpr.joinText, t.toText_shift]
  | t :: u :: rest => by
    have hrest := joinText_shift (u :: rest)
    rw [List.map_cons] at hrest
    simp only [List.map_cons, TypeExpr.joinText, t.toText_shift, hrest]

end

/-- The shift of two results one after the other. -/
theorem map_bind_map {ε α β γ δ : Type} {g : α → γ} {k : β → δ} (r : Except ε α)
    {f : α → Except ε β} {f' : γ → Except ε δ} (h : ∀ a, f' (g a) = (f a).map k) :
    (r.map g >>= f') = (r >>= f).map k := by
  cases r with
  | ok a => exact h a
  | error e => rfl

/-- An annotation that denotes nothing is reported as the one that it is the shift of. -/
theorem unknownType_shift (t : TypeExpr) :
    (.error ⟨.unknownType (t.shift d).toText, (t.shift d).position⟩ : Except Error Ty) =
      (Except.error ⟨.unknownType t.toText, t.position⟩ : Except Error Ty).map (Ty.shift d) := by
  rw [TypeExpr.toText_shift, TypeExpr.position_shift]
  rfl

/-- An annotation is refused for a plain cause only, also as a failure. -/
theorem TypeExpr.denotes_failsOnly (t : TypeExpr) :
    FailsOnly Failure.isPlain (t.resolve.mapError .error) :=
  t.resolve_failsOnly.mapError fun e h => by
    obtain ⟨cause, position⟩ := e
    cases cause <;> first | rfl | cases h

mutual

/-- An annotation denotes the same type or is refused for the same cause. -/
theorem TypeExpr.resolve_shift : ∀ t : TypeExpr,
    (t.shift d).resolve = t.resolve.map (Ty.shift d)
  | .primary info name [] => by
    simp only [TypeExpr.shift, shiftAnnotations]
    unfold TypeExpr.resolve
    cases BuiltinType.ofName? name with
    | none => exact unknownType_shift (.primary info name [])
    | some builtin => exact congrArg Except.ok (by simp)
  | .primary info name [arg] => by
    simp only [TypeExpr.shift, shiftAnnotations]
    unfold TypeExpr.resolve
    cases BuiltinType.ofName? name with
    | none =>
      dsimp only
      split
      · rw [arg.resolve_shift]
        exact map_bind_map _ fun elem => congrArg Except.ok (by simp)
      · exact unknownType_shift (.primary info name [arg])
    | some builtin => exact unknownType_shift (.primary info name [arg])
  | .primary info name (first :: second :: rest) => by
    have hunknown := unknownType_shift (d := d) (.primary info name (first :: second :: rest))
    simp only [TypeExpr.shift, shiftAnnotations] at hunknown ⊢
    unfold TypeExpr.resolve
    cases BuiltinType.ofName? name <;> exact hunknown
  | .array _ elem => by
    simp only [TypeExpr.shift, TypeExpr.resolve, elem.resolve_shift]
    exact map_bind_map _ fun elem => congrArg Except.ok (by simp)
  | .dict _ key value => by
    simp only [TypeExpr.shift, TypeExpr.resolve, key.resolve_shift, value.resolve_shift]
    exact map_bind_map _ fun key => map_bind_map _ fun value => congrArg Except.ok (by simp)
  | .tuple _ elems => by
    simp only [TypeExpr.shift, TypeExpr.resolve, shiftAnnotations_eq, resolveAll_shift elems]
    exact map_bind_map _ fun elems => congrArg Except.ok (by simp)
  | .func _ .proc params none => by
    simp only [TypeExpr.shift, TypeExpr.resolve, shiftAnnotations_eq, resolveAll_shift params]
    exact map_bind_map _ fun params => congrArg Except.ok (by simp)
  | .func _ .proc params (some ret) => by
    simp only [TypeExpr.shift, TypeExpr.resolve, shiftAnnotations_eq, resolveAll_shift params]
    exact map_bind_map _ fun params => congrArg Except.ok (by simp)
  | .func _ .func params none => by
    simp only [TypeExpr.shift, TypeExpr.resolve, shiftAnnotations_eq, resolveAll_shift params]
    exact map_bind_map _ fun params => congrArg Except.ok (by simp)
  | .func _ .lambda params none => by
    simp only [TypeExpr.shift, TypeExpr.resolve, shiftAnnotations_eq, resolveAll_shift params]
    exact map_bind_map _ fun params => congrArg Except.ok (by simp)
  | .func _ .func params (some ret) => by
    simp only [TypeExpr.shift, TypeExpr.resolve, shiftAnnotations_eq, resolveAll_shift params,
      ret.resolve_shift]
    exact map_bind_map _ fun params => map_bind_map _ fun ret => congrArg Except.ok (by simp)
  | .func _ .lambda params (some ret) => by
    simp only [TypeExpr.shift, TypeExpr.resolve, shiftAnnotations_eq, resolveAll_shift params,
      ret.resolve_shift]
    exact map_bind_map _ fun params => map_bind_map _ fun ret => congrArg Except.ok (by simp)
  | .qualified _ qualifier inner => by
    simp only [TypeExpr.shift, TypeExpr.resolve, inner.resolve_shift]
    exact map_bind_map _ fun inner => congrArg Except.ok (by simp)

theorem resolveAll_shift : ∀ ts : List TypeExpr, TypeExpr.resolveAll (ts.map (TypeExpr.shift d)) =
    (TypeExpr.resolveAll ts).map (List.map (Ty.shift d))
  | [] => rfl
  | t :: rest => by
    simp only [List.map_cons, TypeExpr.resolveAll, t.resolve_shift, resolveAll_shift rest]
    exact map_bind_map _ fun t => map_bind_map _ fun rest => rfl

end

/-! ### Types of expressions -/

@[simp] theorem Literal.type_shift (value : Literal) : value.type.shift d = value.type := by
  cases value <;> simp [Literal.type]

theorem Ty.member?_shift (t : Ty) (name : String) :
    (t.shift d).member? name = (t.member? name).map (Ty.shift d) := by
  cases t with
  | builtin type =>
    cases type <;> simp only [Ty.shift, member?, Option.map_none]
    split <;> simp
  | tuple elems =>
    simp only [Ty.shift, shiftTypes_eq, member?, List.head?_map, List.getElem?_map,
      List.getLast?_map]
    split
    · rfl
    · split
      · rfl
      · split <;> rfl
  | array elem =>
    simp only [Ty.shift, member?]
    split <;> simp
  | dict key value =>
    simp only [Ty.shift, member?]
    split <;> simp
  | func params ret =>
    rw [Ty.shift_func]
    rfl
  | _ => rfl

theorem Ty.element?_shift (t : Ty) : (t.shift d).element? = t.element?.map (Ty.shift d) := by
  cases t with
  | builtin type => cases type <;> simp [element?]
  | named name args =>
    rcases args with _ | ⟨arg, _ | ⟨other, rest⟩⟩
    · rfl
    · simp only [Ty.shift, shiftTypes, element?]
      split <;> rfl
    · rfl
  | dict key value => simp [element?]
  | func params ret =>
    rw [Ty.shift_func]
    rfl
  | _ => rfl

theorem BinaryOp.result?_shift (op : BinaryOp) (t : Ty) :
    op.result? (t.shift d) = (op.result? t).map (Ty.shift d) := by
  simp only [result?, Ty.shift_eq_bool, Ty.shift_eq_string, Ty.isNumeric_shift,
    Ty.isIntegral_shift]
  split
  · simp
  · split
    · split <;> simp
    · split
      · split <;> rfl
      · split <;> rfl

theorem UnaryOp.result_shift (op : UnaryOp) (t : Ty) :
    op.result (t.shift d) = (op.result t).map (Ty.shift d) := by
  cases op <;> simp only [result, Ty.shift_eq_bool, Ty.isNumeric_shift] <;> split <;> rfl

theorem Expr.tuplePosition?_shift (e : Expr) : (e.shift d).tuplePosition? = e.tuplePosition? := by
  cases e with
  | literal info value => cases value <;> rfl
  | _ => rfl

theorem Expr.label_shift (e : Expr) : (e.shift d).label = e.label := by
  cases e <;> simp [Expr.shift, label]

/-! ### Hints -/

theorem tupleHints_shift (hint : Option Ty) (count : Nat) :
    tupleHints (hint.map (Ty.shift d)) count =
      (tupleHints hint count).map (Option.map (Ty.shift d)) := by
  rcases hint with _ | t
  · rfl
  · cases t with
    | tuple elems =>
      simp only [Option.map_some, Ty.shift, shiftTypes_eq, tupleHints, List.length_map]
      split
      · simp
      · rfl
    | func params ret =>
      rw [Option.map_some, Ty.shift_func]
      rfl
    | _ => rfl

theorem elemHint_shift (hint : Option Ty) :
    elemHint (hint.map (Ty.shift d)) = (elemHint hint).map (Ty.shift d) := by
  rcases hint with _ | t
  · rfl
  · cases t with
    | func params ret =>
      rw [Option.map_some, Ty.shift_func]
      rfl
    | _ => rfl

theorem dictHints_shift (hint : Option Ty) : dictHints (hint.map (Ty.shift d)) =
    ((dictHints hint).1.map (Ty.shift d), (dictHints hint).2.map (Ty.shift d)) := by
  rcases hint with _ | t
  · rfl
  · cases t with
    | func params ret =>
      rw [Option.map_some, Ty.shift_func]
      rfl
    | _ => rfl

theorem joinHints_shift (hints : List (Option Ty)) :
    joinHints (hints.map (Option.map (Ty.shift d))) = (joinHints hints).map (Ty.shift d) := by
  have hall : ∀ hints : List (Option Ty), (hints.map (Option.map (Ty.shift d))).mapM id =
      (hints.mapM id).map (List.map (Ty.shift d)) := by
    intro hints
    induction hints with
    | nil => rfl
    | cons hint rest ih =>
      rw [List.map_cons, List.mapM_cons, List.mapM_cons, ih]
      cases hint with
      | none => rfl
      | some t => cases rest.mapM id <;> rfl
  rw [joinHints, joinHints, hall]
  cases hints.mapM id <;> simp

theorem returnHints_shift (ret : Option Ty) (count : Nat) :
    returnHints (ret.map (Ty.shift d)) count =
      (returnHints ret count).map (Option.map (Ty.shift d)) := by
  rcases ret with _ | t
  · rfl
  · by_cases hone : count = 1
    · subst hone
      rfl
    · cases t with
      | tuple elems =>
        simp only [Option.map_some, Ty.shift, shiftTypes_eq, returnHints, List.length_map]
        split
        · simp
        · rfl
      | func params ret =>
        rw [Option.map_some, Ty.shift_func]
        simp [returnHints, hone]
      | _ => simp [returnHints, hone]

theorem joinTypes_shift (types : List Ty) :
    joinTypes (types.map (Ty.shift d)) = (joinTypes types).shift d := by
  rcases types with _ | ⟨t, _ | ⟨u, rest⟩⟩
  · simp [joinTypes]
  · rfl
  · simp [joinTypes]

theorem Check.indexHint_shift (t : Ty) :
    indexHint (t.shift d) = (indexHint t).map (Ty.shift d) := by
  cases t with
  | func params ret =>
    rw [Ty.shift_func]
    rfl
  | _ => rfl

theorem Check.lambdaHint_shift (hint : Option Ty) (count : Nat) :
    lambdaHint (hint.map (Ty.shift d)) count =
      ((lambdaHint hint count).1.map (Ty.shift d), (lambdaHint hint count).2) := by
  rcases hint with _ | t
  · rfl
  · cases t with
    | func params ret =>
      simp only [Option.map_some, Ty.shift_func, lambdaHint, List.length_map, Option.isNone_map]
      split <;> rfl
    | _ => rfl

/-! ### Overloads -/

namespace Overload

theorem weight_shift (param arg : Ty) :
    weight (param.shift d) (arg.shift d) = weight param arg := by
  simp only [weight, Ty.isTemplate_shift, Ty.shift_inj]

theorem scoreParams_shift (params args : List Ty) :
    scoreParams (params.map (Ty.shift d)) (args.map (Ty.shift d)) = scoreParams params args := by
  simp only [scoreParams, List.length_map, List.zipWith_map, weight_shift]

end Overload

end Frontend
