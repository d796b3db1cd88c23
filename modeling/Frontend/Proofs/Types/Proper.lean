import Frontend.Analysis.Walk
import Frontend.Proofs.Tree.Regular
import Frontend.Proofs.Typing.Rule

/-!
# Proper types

The types that values have: no placeholder, no tuple of one element, no qualified type without a
qualifier, and no class with one argument but `range`, at whatever depth. Regular annotations denote
such types, and the rules that compute types and hints from proper ones give proper ones.
-/

namespace Frontend

mutual

/-- A type is proper at every depth. -/
@[simp] def Ty.Proper : Ty → Prop
  | .builtin _ => True
  | .template _ => False
  | .array elem => elem.Proper
  | .tuple elems => elems.length ≠ 1 ∧ typesProper elems
  | .dict key value => key.Proper ∧ value.Proper
  | .func params none => typesProper params
  | .func params (some ret) => typesProper params ∧ ret.Proper
  | .named name args => (args.length = 1 → name = "range") ∧ typesProper args
  | .qualified qualifier inner => qualifier.isSome ∧ inner.Proper

/-- Types are proper. -/
@[simp] def typesProper : List Ty → Prop
  | [] => True
  | t :: rest => t.Proper ∧ typesProper rest

end

/-- Where a type is expected, it is proper. -/
def HintProper (hint : Option Ty) : Prop := ∀ t ∈ hint, t.Proper

/-- Whatever types are expected, they are proper. -/
def HintsProper (hints : List (Option Ty)) : Prop := ∀ hint ∈ hints, HintProper hint

variable {t u : Ty} {ts : List Ty} {hint : Option Ty} {hints : List (Option Ty)}

theorem typesProper_iff : typesProper ts ↔ ∀ t ∈ ts, t.Proper := by
  induction ts with
  | nil => simp [typesProper]
  | cons t rest ih => simp [typesProper, ih]

theorem Ty.unit_proper : Ty.unit.Proper := by
  simp only [Ty.Proper, typesProper, and_true]
  exact nofun

theorem Ty.bool_proper : Ty.bool.Proper := by simp only [Ty.Proper]

theorem Ty.range_proper (h : t.Proper) : (Ty.range t).Proper := by
  simp only [Ty.Proper, typesProper, and_true, implies_true, true_and]
  exact h

/-- A placeholder is not proper. -/
theorem Ty.Proper.isTemplate (h : t.Proper) : t.isTemplate = false := by
  cases t with
  | template id =>
    simp only [Ty.Proper] at h
  | _ => rfl

theorem func_proper {ret : Option Ty} (hts : typesProper ts) (hret : HintProper ret) :
    (Ty.func ts ret).Proper := by
  cases ret with
  | none =>
    simp only [Ty.Proper]
    exact hts
  | some ret =>
    simp only [Ty.Proper]
    exact ⟨hts, hret ret rfl⟩

theorem Ty.Proper.ofFunc {ret : Option Ty} (h : (Ty.func ts ret).Proper) :
    typesProper ts ∧ HintProper ret := by
  cases ret with
  | none =>
    simp only [Ty.Proper] at h
    exact ⟨h, nofun⟩
  | some ret =>
    simp only [Ty.Proper] at h
    refine ⟨h.1, ?_⟩
    rintro _ ⟨⟩
    exact h.2

theorem hintProper_none : HintProper none := nofun

theorem hintProper_some (h : t.Proper) : HintProper (some t) := by
  rintro _ ⟨⟩
  exact h

theorem HintProper.getD (h : HintProper hint) : (hint.getD .unit).Proper := by
  cases hint with
  | none => exact Ty.unit_proper
  | some t => exact h t rfl

theorem HintsProper.headD (h : HintsProper hints) : HintProper (hints.headD none) := by
  cases hints with
  | nil => exact hintProper_none
  | cons hint rest => exact h hint List.mem_cons_self

theorem HintsProper.tail (h : HintsProper hints) : HintsProper hints.tail :=
  fun hint hm => h hint (List.mem_of_mem_tail hm)

theorem hintsProper_nil : HintsProper [] := nofun

theorem hintsProper_map_some (h : typesProper ts) : HintsProper (ts.map some) := by
  rw [typesProper_iff] at h
  intro hint hm
  obtain ⟨t, ht, rfl⟩ := List.mem_map.mp hm
  exact hintProper_some (h t ht)

/-! ### Rules -/

theorem Literal.type_proper (value : Literal) : value.type.Proper := by
  cases value <;> simp only [Literal.type, Ty.Proper]

theorem Ty.Proper.member? {name : String} (h : t.Proper) (hm : t.member? name = some u) :
    u.Proper := by
  have hsize : (if name = "size" then some Ty.uint else none) = some u → u.Proper := by
    intro hif
    split at hif
    · cases hif
      simp only [Ty.Proper]
    · cases hif
  unfold Ty.member? at hm
  split at hm
  · exact hsize hm
  · exact hsize hm
  · exact hsize hm
  · next elems =>
    simp only [Ty.Proper, typesProper_iff] at h
    split at hm
    · exact h.2 u (List.mem_of_mem_head? hm)
    · split at hm
      · exact h.2 u (List.mem_of_getElem? hm)
      · split at hm
        · exact h.2 u (List.mem_of_getLast? hm)
        · cases hm
  · cases hm

theorem Ty.Proper.element? (h : t.Proper) (he : t.element? = some u) : u.Proper := by
  unfold Ty.element? at he
  split at he
  · cases he
    simpa only [Ty.Proper] using h
  · cases he
    simp only [Ty.Proper]
  · cases he
    simp only [Ty.Proper] at h
    simp only [Ty.Proper, typesProper, and_true]
    exact ⟨nofun, h⟩
  · split at he
    · cases he
      simp only [Ty.Proper, typesProper, and_true] at h
      exact h.2
    · cases he
  · cases he

theorem BinaryOp.Types.proper {op : BinaryOp} (h : op.Types t u) (ht : t.Proper) : u.Proper := by
  cases h with
  | comparison => exact Ty.bool_proper
  | _ => exact ht

theorem UnaryOp.Types.proper {op : UnaryOp} (h : op.Types t u) (ht : t.Proper) : u.Proper := by
  cases h <;> exact ht

theorem joinTypes_proper (h : typesProper ts) : (joinTypes ts).Proper := by
  unfold joinTypes
  split
  · simpa only [typesProper, and_true] using h
  · next hmany =>
    simp only [Ty.Proper]
    exact ⟨fun hone => by
      obtain ⟨t, rfl⟩ := List.length_eq_one_iff.mp hone
      exact hmany t rfl, h⟩

/-! ### Hints -/

theorem tupleHints_proper (h : HintProper hint) (count : Nat) :
    HintsProper (tupleHints hint count) := by
  unfold tupleHints
  split
  · next types =>
    have htuple := h _ rfl
    simp only [Ty.Proper] at htuple
    split
    · exact hintsProper_map_some htuple.2
    · exact hintsProper_nil
  · exact hintsProper_nil

theorem elemHint_proper (h : HintProper hint) : HintProper (elemHint hint) := by
  unfold elemHint
  split
  · next elem =>
    have harray := h _ rfl
    simp only [Ty.Proper] at harray
    exact hintProper_some harray
  · exact hintProper_none

theorem dictHints_proper (h : HintProper hint) :
    HintProper (dictHints hint).1 ∧ HintProper (dictHints hint).2 := by
  unfold dictHints
  split
  · next key value =>
    have hdict := h _ rfl
    simp only [Ty.Proper] at hdict
    exact ⟨hintProper_some hdict.1, hintProper_some hdict.2⟩
  · exact ⟨hintProper_none, hintProper_none⟩

theorem mapM_id_eq_some (h : hints.mapM id = some ts) : hints = ts.map some := by
  induction hints generalizing ts with
  | nil =>
    cases h
    rfl
  | cons hint rest ih =>
    simp only [List.mapM_cons, id_eq, Option.bind_eq_bind, Option.pure_def,
      Option.bind_eq_some_iff] at h
    obtain ⟨t, rfl, rest', hrest, heq⟩ := h
    cases heq
    rw [ih hrest, List.map_cons]

/-- As many values as are taken apart are not one. -/
theorem joinHints_proper (h : HintsProper hints) (hmany : hints.length ≠ 1) :
    HintProper (joinHints hints) := by
  intro t ht
  obtain ⟨types, htypes, rfl⟩ := Option.map_eq_some_iff.mp ht
  rw [mapM_id_eq_some htypes, List.length_map] at hmany
  simp only [Ty.Proper, typesProper_iff]
  refine ⟨hmany, fun t ht => h (some t) ?_ t rfl⟩
  rw [mapM_id_eq_some htypes]
  exact List.mem_map_of_mem ht

theorem returnHints_proper (h : HintProper hint) (count : Nat) :
    HintsProper (returnHints hint count) := by
  unfold returnHints
  split
  · exact List.forall_mem_singleton.mpr h
  · have htuple := h _ rfl
    simp only [Ty.Proper] at htuple
    split
    · exact hintsProper_map_some htuple.2
    · exact hintsProper_nil
  · exact hintsProper_nil

theorem indexHint_proper (h : t.Proper) : HintProper (Check.indexHint t) := by
  unfold Check.indexHint
  split
  · simp only [Ty.Proper] at h
    exact hintProper_some h.1
  · exact hintProper_none

theorem lambdaHint_proper (h : HintProper hint) (count : Nat) :
    typesProper (Check.lambdaHint hint count).1 := by
  unfold Check.lambdaHint
  split
  · split
    · exact (h _ rfl).ofFunc.1
    · simp only [typesProper]
  · simp only [typesProper]

/-! ### Annotations -/

/-- A result is as promised, or it is an error at a place. -/
structure Answers {α : Type} (place : Position → Prop) (r : Except Error α) (good : α → Prop) :
    Prop where
  ok : ∀ a, r = .ok a → good a
  error : ∀ e, r = .error e → place e.position

namespace Answers

variable {α β : Type} {place : Position → Prop} {r : Except Error α} {good : α → Prop}

theorem pure {a : α} (h : good a) : Answers place (pure a) good := by
  refine ⟨?_, nofun⟩
  rintro _ ⟨⟩
  exact h

theorem throw {e : Error} (h : place e.position) : Answers place (throw e) good := by
  refine ⟨nofun, ?_⟩
  rintro _ ⟨⟩
  exact h

theorem bind {f : α → Except Error β} {good' : β → Prop} (h : Answers place r good)
    (hf : ∀ a, good a → Answers place (f a) good') : Answers place (r >>= f) good' := by
  cases r with
  | ok a => exact hf a (h.ok a rfl)
  | error e => exact .throw (h.error e rfl)

end Answers

variable {g : Ground}

mutual

/-- A regular annotation denotes a proper type, or what it names is reported where it stands. -/
theorem TypeExpr.Regular.resolve : ∀ {written : TypeExpr}, written.Regular g →
    Answers g.place written.resolve Ty.Proper
  | .primary info name [], h => by
    rw [TypeExpr.Regular] at h
    unfold TypeExpr.resolve
    cases BuiltinType.ofName? name with
    | none => exact .throw h.1.place
    | some builtin => exact .pure (by simp only [Ty.Proper])
  | .primary info name [arg], h => by
    simp only [TypeExpr.Regular, typesRegular, and_true] at h
    unfold TypeExpr.resolve
    cases BuiltinType.ofName? name with
    | none =>
      dsimp only
      split
      · exact .bind h.2.resolve fun elem helem => .pure (Ty.range_proper helem)
      · exact .throw h.1.place
    | some builtin => exact .throw h.1.place
  | .primary info name (_ :: _ :: _), h => by
    rw [TypeExpr.Regular] at h
    unfold TypeExpr.resolve
    cases BuiltinType.ofName? name <;> exact .throw h.1.place
  | .array _ elem, h => by
    rw [TypeExpr.Regular] at h
    rw [TypeExpr.resolve]
    exact .bind h.2.resolve fun elem helem => .pure (by simpa only [Ty.Proper] using helem)
  | .dict _ key value, h => by
    rw [TypeExpr.Regular] at h
    rw [TypeExpr.resolve]
    exact .bind h.2.1.resolve fun key hkey => .bind h.2.2.resolve fun value hvalue =>
      .pure (by simp only [Ty.Proper]; exact ⟨hkey, hvalue⟩)
  | .tuple _ elems, h => by
    rw [TypeExpr.Regular] at h
    rw [TypeExpr.resolve]
    exact .bind (typesRegular_resolve h.2.2) fun types htypes =>
      .pure (by simp only [Ty.Proper]; exact ⟨htypes.1 ▸ h.2.1, htypes.2⟩)
  | .func _ kind params none, h => by
    rw [TypeExpr.Regular] at h
    have hparams := typesRegular_resolve h.2
    cases kind with
    | proc =>
      rw [TypeExpr.resolve]
      exact .bind hparams fun params hparams => .pure (func_proper hparams.2 hintProper_none)
    | _ =>
      rw [TypeExpr.resolve] <;> first
        | exact .bind hparams fun params hparams =>
            .pure (func_proper hparams.2 (hintProper_some Ty.unit_proper))
        | nofun
  | .func _ kind params (some ret), h => by
    rw [TypeExpr.Regular] at h
    have hparams := typesRegular_resolve h.2.1
    have hret := h.2.2.resolve
    cases kind with
    | proc =>
      rw [TypeExpr.resolve]
      exact .bind hparams fun params hparams => .pure (func_proper hparams.2 hintProper_none)
    | _ =>
      rw [TypeExpr.resolve] <;> first
        | exact .bind hparams fun params hparams => .bind hret fun ret hret =>
            .pure (func_proper hparams.2 (hintProper_some hret))
        | nofun
  | .qualified _ qualifier inner, h => by
    rw [TypeExpr.Regular] at h
    rw [TypeExpr.resolve]
    exact .bind h.2.resolve fun inner hinner =>
      .pure (by simp only [Ty.Proper]; exact ⟨rfl, hinner⟩)

theorem typesRegular_resolve : ∀ {written : List TypeExpr}, typesRegular g written →
    Answers g.place (TypeExpr.resolveAll written) fun types =>
      types.length = written.length ∧ typesProper types
  | [], _ => by
    rw [TypeExpr.resolveAll]
    exact .pure ⟨rfl, by simp only [typesProper]⟩
  | t :: rest, h => by
    rw [typesRegular] at h
    rw [TypeExpr.resolveAll]
    exact .bind h.1.resolve fun type htype => .bind (typesRegular_resolve h.2) fun types htypes =>
      .pure ⟨congrArg Nat.succ htypes.1, by simp only [typesProper]; exact ⟨htype, htypes.2⟩⟩

end

end Frontend
