import Frontend.Tree.TypeExpr

/-!
# Refused annotations

`FailsOnly` says of a result which failures are admitted, and is closed under the ways to build one.
An annotation denotes a type, or a name in it is reported that is no name of a type.
-/

namespace Frontend

/-- A result that is a failure only if the failure is one of those that are admitted. -/
def FailsOnly {ε α : Type} (admitted : ε → Bool) (r : Except ε α) : Prop :=
  ∀ e, r = .error e → admitted e = true

namespace FailsOnly

variable {ε ε' α β : Type} {admitted : ε → Bool} {r : Except ε α}

theorem pure (a : α) : FailsOnly admitted (pure a) := nofun

theorem throw {e : ε} (h : admitted e = true) : FailsOnly admitted (throw e : Except ε α) :=
  fun _ he => Except.error.inj he ▸ h

theorem bind {f : α → Except ε β} (h : FailsOnly admitted r) (hf : ∀ a, FailsOnly admitted (f a)) :
    FailsOnly admitted (r >>= f) := by
  cases r with
  | ok a => exact hf a
  | error e => exact .throw (h e rfl)

theorem mapError {g : ε → ε'} {admitted' : ε' → Bool} (h : FailsOnly admitted r)
    (hg : ∀ e, admitted e = true → admitted' (g e) = true) :
    FailsOnly admitted' (r.mapError g) := by
  cases r with
  | ok a => exact .pure a
  | error e => exact .throw (hg e (h e rfl))

end FailsOnly

/-- The cause of a report about an annotation. -/
def Cause.isUnknownType : Cause → Bool
  | .unknownType _ => true
  | _ => false

mutual

/-- An annotation is refused only because a name in it is no name of a type. -/
theorem TypeExpr.resolve_failsOnly : ∀ t : TypeExpr, FailsOnly (·.cause.isUnknownType) t.resolve
  | .primary info name [] => by
    unfold TypeExpr.resolve
    cases BuiltinType.ofName? name with
    | none => exact .throw rfl
    | some builtin => exact .pure _
  | .primary info name [arg] => by
    unfold TypeExpr.resolve
    cases BuiltinType.ofName? name with
    | none =>
      dsimp only
      split
      · exact arg.resolve_failsOnly.bind fun _ => .pure _
      · exact .throw rfl
    | some builtin => exact .throw rfl
  | .primary info name (first :: second :: rest) => by
    unfold TypeExpr.resolve
    cases BuiltinType.ofName? name <;> exact .throw rfl
  | .array _ elem => by
    unfold TypeExpr.resolve
    exact elem.resolve_failsOnly.bind fun _ => .pure _
  | .dict _ key value => by
    unfold TypeExpr.resolve
    exact key.resolve_failsOnly.bind fun _ => value.resolve_failsOnly.bind fun _ => .pure _
  | .tuple _ elems => by
    unfold TypeExpr.resolve
    exact (resolveAll_failsOnly elems).bind fun _ => .pure _
  | .func _ .proc params _ => by
    unfold TypeExpr.resolve
    exact (resolveAll_failsOnly params).bind fun _ => .pure _
  | .func _ .func params none => by
    unfold TypeExpr.resolve
    exact (resolveAll_failsOnly params).bind fun _ => .pure _
  | .func _ .lambda params none => by
    unfold TypeExpr.resolve
    exact (resolveAll_failsOnly params).bind fun _ => .pure _
  | .func _ .func params (some ret) => by
    unfold TypeExpr.resolve
    exact (resolveAll_failsOnly params).bind fun _ => ret.resolve_failsOnly.bind fun _ => .pure _
  | .func _ .lambda params (some ret) => by
    unfold TypeExpr.resolve
    exact (resolveAll_failsOnly params).bind fun _ => ret.resolve_failsOnly.bind fun _ => .pure _
  | .qualified _ qualifier inner => by
    unfold TypeExpr.resolve
    exact inner.resolve_failsOnly.bind fun _ => .pure _

theorem resolveAll_failsOnly : ∀ ts : List TypeExpr,
    FailsOnly (·.cause.isUnknownType) (TypeExpr.resolveAll ts)
  | [] => .pure _
  | t :: rest => by
    unfold TypeExpr.resolveAll
    exact t.resolve_failsOnly.bind fun _ => (resolveAll_failsOnly rest).bind fun _ => .pure _

end

end Frontend
