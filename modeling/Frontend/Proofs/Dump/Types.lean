import Frontend.Proofs.Types.Proper

/-!
# Types on one line

A type is printed within a line: the only names it can be printed with are fixed ones, none of which
has a line feed. `Ty.Inline` says so of a type. The text of a type consists of the texts of its
parts, so each rule that computes types and hints from inline ones gives inline ones, whatever the
types are otherwise.
-/

namespace Frontend

/-- A text without a line feed. -/
def WithinLine (text : String) : Prop := '\n' ∉ text.toList

theorem withinLine_append (front back : String) :
    WithinLine (front ++ back) ↔ WithinLine front ∧ WithinLine back := by
  simp [WithinLine]

/-- A number is printed within a line. -/
theorem withinLine_repr (n : Nat) : WithinLine n.repr := by
  intro h
  have hdigit := Nat.isDigit_of_mem_toDigits (by simp) (by simp) (Nat.toList_repr ▸ h)
  simp at hdigit

/-- The text of a type has no line feed. -/
def Ty.Inline (t : Ty) : Prop := WithinLine t.toText

/-- Types are inline. -/
def TypesInline (ts : List Ty) : Prop := ∀ t ∈ ts, t.Inline

/-- Where there is a type, it is inline. -/
def HintInline (hint : Option Ty) : Prop := ∀ t ∈ hint, t.Inline

/-- Whatever types there are, they are inline. -/
def HintsInline (hints : List (Option Ty)) : Prop := ∀ hint ∈ hints, HintInline hint

variable {t u : Ty} {ts : List Ty} {hint : Option Ty} {hints : List (Option Ty)}

/-! ### Parts -/

section

attribute [local simp] Ty.toText Ty.joinText

theorem joinText_inline (ts : List Ty) : WithinLine (Ty.joinText ts) ↔ TypesInline ts := by
  induction ts with
  | nil => simp [TypesInline, WithinLine]
  | cons t rest ih =>
    rw [TypesInline, List.forall_mem_cons]
    cases rest with
    | nil => simp [Ty.Inline]
    | cons u rest =>
      have hjoin : Ty.joinText (t :: u :: rest) = t.toText ++ ", " ++ Ty.joinText (u :: rest) := by
        simp
      rw [hjoin, withinLine_append, withinLine_append, ih]
      simp [WithinLine, Ty.Inline, TypesInline]

namespace Ty

theorem inline_builtin (type : BuiltinType) : (Ty.builtin type).Inline := by
  cases type <;> simp [Inline, WithinLine, BuiltinType.name]

theorem inline_template (id : Nat) : (Ty.template id).Inline := by
  rw [Inline, toText, withinLine_append]
  exact ⟨by simp [WithinLine], withinLine_repr id⟩

theorem inline_array : (Ty.array t).Inline ↔ t.Inline := by
  simp [Inline, WithinLine]

theorem inline_tuple : (Ty.tuple ts).Inline ↔ TypesInline ts := by
  rw [← joinText_inline]
  simp [Inline, WithinLine]

theorem inline_dict : (Ty.dict t u).Inline ↔ t.Inline ∧ u.Inline := by
  simp [Inline, WithinLine]

theorem inline_func {ret : Option Ty} :
    (Ty.func ts ret).Inline ↔ TypesInline ts ∧ HintInline ret := by
  rw [← joinText_inline]
  cases ret <;> simp [Inline, WithinLine, HintInline]

theorem inline_range : (Ty.range t).Inline ↔ t.Inline := by
  simp [Inline, WithinLine]

theorem inline_qualified (qualifier : Option Qualifier) :
    (Ty.qualified qualifier t).Inline ↔ t.Inline := by
  rcases qualifier with _ | _ | _ <;> simp [Inline, WithinLine]

theorem inline_unit : Ty.unit.Inline := inline_tuple.mpr (List.forall_mem_nil _)

end Ty

end

theorem hintInline_none : HintInline none := nofun

theorem hintInline_some : HintInline (some t) ↔ t.Inline := by
  simp only [HintInline, Option.mem_some_iff, forall_eq']

theorem HintInline.getD (h : HintInline hint) : (hint.getD .unit).Inline := by
  cases hint with
  | none => exact Ty.inline_unit
  | some t => exact h t rfl

theorem HintsInline.headD (h : HintsInline hints) : HintInline (hints.headD none) := by
  cases hints with
  | nil => exact hintInline_none
  | cons hint rest => exact h hint List.mem_cons_self

theorem HintsInline.tail (h : HintsInline hints) : HintsInline hints.tail :=
  fun hint hm => h hint (List.mem_of_mem_tail hm)

theorem hintsInline_nil : HintsInline [] := nofun

theorem hintsInline_map_some (h : TypesInline ts) : HintsInline (ts.map some) := by
  intro hint hm
  obtain ⟨t, ht, rfl⟩ := List.mem_map.mp hm
  exact hintInline_some.mpr (h t ht)

/-! ### Rules -/

theorem Literal.type_inline (value : Literal) : value.type.Inline := by
  cases value <;> exact Ty.inline_builtin _

theorem Ty.Inline.member? {name : String} (h : t.Inline) (hm : t.member? name = some u) :
    u.Inline := by
  have hsize : (if name = "size" then some Ty.uint else none) = some u → u.Inline := by
    intro hif
    split at hif
    · cases hif
      exact inline_builtin _
    · cases hif
  unfold Ty.member? at hm
  split at hm
  · exact hsize hm
  · exact hsize hm
  · exact hsize hm
  · next elems =>
    have helems := inline_tuple.mp h
    split at hm
    · exact helems u (List.mem_of_mem_head? hm)
    · split at hm
      · exact helems u (List.mem_of_getElem? hm)
      · split at hm
        · exact helems u (List.mem_of_getLast? hm)
        · cases hm
  · cases hm

theorem Ty.Inline.element? (h : t.Inline) (he : t.element? = some u) : u.Inline := by
  unfold Ty.element? at he
  split at he
  · cases he
    exact inline_array.mp h
  · cases he
    exact inline_builtin _
  · cases he
    refine inline_tuple.mpr (List.forall_mem_cons.mpr ⟨(inline_dict.mp h).1, ?_⟩)
    exact List.forall_mem_singleton.mpr (inline_dict.mp h).2
  · split at he
    · next hname =>
      cases he
      subst hname
      exact inline_range.mp h
    · cases he
  · cases he

theorem BinaryOp.Types.inline {op : BinaryOp} (h : op.Types t u) (ht : t.Inline) : u.Inline := by
  cases h with
  | comparison => exact Ty.inline_builtin _
  | _ => exact ht

theorem UnaryOp.Types.inline {op : UnaryOp} (h : op.Types t u) (ht : t.Inline) : u.Inline := by
  cases h <;> exact ht

theorem joinTypes_inline (h : TypesInline ts) : (joinTypes ts).Inline := by
  unfold joinTypes
  split
  · exact List.forall_mem_singleton.mp h
  · exact Ty.inline_tuple.mpr h

/-! ### Hints -/

theorem tupleHints_inline (h : HintInline hint) (count : Nat) :
    HintsInline (tupleHints hint count) := by
  unfold tupleHints
  split
  · split
    · exact hintsInline_map_some (Ty.inline_tuple.mp (h _ rfl))
    · exact hintsInline_nil
  · exact hintsInline_nil

theorem elemHint_inline (h : HintInline hint) : HintInline (elemHint hint) := by
  unfold elemHint
  split
  · exact hintInline_some.mpr (Ty.inline_array.mp (h _ rfl))
  · exact hintInline_none

theorem dictHints_inline (h : HintInline hint) :
    HintInline (dictHints hint).1 ∧ HintInline (dictHints hint).2 := by
  unfold dictHints
  split
  · have hdict := Ty.inline_dict.mp (h _ rfl)
    exact ⟨hintInline_some.mpr hdict.1, hintInline_some.mpr hdict.2⟩
  · exact ⟨hintInline_none, hintInline_none⟩

theorem joinHints_inline (h : HintsInline hints) : HintInline (joinHints hints) := by
  intro t ht
  obtain ⟨types, htypes, rfl⟩ := Option.map_eq_some_iff.mp ht
  refine Ty.inline_tuple.mpr fun t ht => h (some t) ?_ t rfl
  rw [mapM_id_eq_some htypes]
  exact List.mem_map_of_mem ht

theorem returnHints_inline (h : HintInline hint) (count : Nat) :
    HintsInline (returnHints hint count) := by
  unfold returnHints
  split
  · exact List.forall_mem_singleton.mpr h
  · split
    · exact hintsInline_map_some (Ty.inline_tuple.mp (h _ rfl))
    · exact hintsInline_nil
  · exact hintsInline_nil

theorem indexHint_inline (h : t.Inline) : HintInline (Check.indexHint t) := by
  unfold Check.indexHint
  split
  · exact hintInline_some.mpr (Ty.inline_dict.mp h).1
  · exact hintInline_none

theorem lambdaHint_inline (h : HintInline hint) (count : Nat) :
    TypesInline (Check.lambdaHint hint count).1 := by
  unfold Check.lambdaHint
  split
  · split
    · exact (Ty.inline_func.mp (h _ rfl)).1
    · exact List.forall_mem_nil _
  · exact List.forall_mem_nil _

/-! ### Annotations -/

mutual

/-- An annotation denotes an inline type, if it denotes one. -/
theorem TypeExpr.resolve_inline : ∀ written : TypeExpr,
    Answers (fun _ => True) written.resolve Ty.Inline
  | .primary info name [] => by
    unfold TypeExpr.resolve
    cases BuiltinType.ofName? name with
    | none => exact .throw trivial
    | some builtin => exact .pure (Ty.inline_builtin _)
  | .primary info name [arg] => by
    unfold TypeExpr.resolve
    cases BuiltinType.ofName? name with
    | none =>
      dsimp only
      split
      · exact .bind arg.resolve_inline fun elem helem => .pure (Ty.inline_range.mpr helem)
      · exact .throw trivial
    | some builtin => exact .throw trivial
  | .primary info name (_ :: _ :: _) => by
    unfold TypeExpr.resolve
    cases BuiltinType.ofName? name <;> exact .throw trivial
  | .array _ elem => by
    rw [TypeExpr.resolve]
    exact .bind elem.resolve_inline fun elem helem => .pure (Ty.inline_array.mpr helem)
  | .dict _ key value => by
    rw [TypeExpr.resolve]
    exact .bind key.resolve_inline fun key hkey => .bind value.resolve_inline fun value hvalue =>
      .pure (Ty.inline_dict.mpr ⟨hkey, hvalue⟩)
  | .tuple _ elems => by
    rw [TypeExpr.resolve]
    exact .bind (resolveAll_inline elems) fun types htypes => .pure (Ty.inline_tuple.mpr htypes)
  | .func _ kind params none => by
    cases kind with
    | proc =>
      rw [TypeExpr.resolve]
      exact .bind (resolveAll_inline params) fun params hparams =>
        .pure (Ty.inline_func.mpr ⟨hparams, hintInline_none⟩)
    | _ =>
      rw [TypeExpr.resolve] <;> first
        | exact .bind (resolveAll_inline params) fun params hparams =>
            .pure (Ty.inline_func.mpr ⟨hparams, hintInline_some.mpr Ty.inline_unit⟩)
        | nofun
  | .func _ kind params (some ret) => by
    cases kind with
    | proc =>
      rw [TypeExpr.resolve]
      exact .bind (resolveAll_inline params) fun params hparams =>
        .pure (Ty.inline_func.mpr ⟨hparams, hintInline_none⟩)
    | _ =>
      rw [TypeExpr.resolve] <;> first
        | exact .bind (resolveAll_inline params) fun params hparams =>
            .bind ret.resolve_inline fun ret hret =>
              .pure (Ty.inline_func.mpr ⟨hparams, hintInline_some.mpr hret⟩)
        | nofun
  | .qualified _ qualifier inner => by
    rw [TypeExpr.resolve]
    exact .bind inner.resolve_inline fun inner hinner =>
      .pure ((Ty.inline_qualified _).mpr hinner)

theorem resolveAll_inline : ∀ written : List TypeExpr,
    Answers (fun _ => True) (TypeExpr.resolveAll written) TypesInline
  | [] => by
    rw [TypeExpr.resolveAll]
    exact .pure (List.forall_mem_nil _)
  | t :: rest => by
    rw [TypeExpr.resolveAll]
    exact .bind t.resolve_inline fun type htype => .bind (resolveAll_inline rest)
      fun types htypes => .pure (List.forall_mem_cons.mpr ⟨htype, htypes⟩)

end

end Frontend
