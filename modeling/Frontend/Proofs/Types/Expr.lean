import Frontend.Proofs.Typing.Rule
import Frontend.Proofs.Types.Call

/-!
# Expressions have proper types

With a proper type as a hint, a regular expression gets a proper type, whatever is demanded on the
way. One lemma for each construct says so from its parts.
-/

namespace Frontend

/-- Runs over an expression give it a proper type, wherever it stands. -/
def Expr.KeepsTypes (p : Program) (l : Terrain) (w : Demand) (e : Expr) : Prop :=
  ∀ plays scope hint s, e.Regular ⟨l, plays⟩ → HintProper hint →
    Proceeds p ⟨l, plays⟩ scope (Check.expr w scope hint e) s fun type t =>
      type.Proper ∧ t.types[e.id]? = some type

/-- Runs over the body of a declared function that is no template keep types proper. -/
def FuncDef.KeepsTypes (p : Program) (l : Terrain) (w : Demand) (d : FuncDef) : Prop :=
  ∀ plays scope s, d.Regular ⟨l, plays⟩ → d.info.On ⟨l, plays⟩ →
    Proceeds p ⟨l, plays⟩ scope (Check.function w d) s fun _ _ => True

variable {p : Program} {l : Terrain} {g : Ground} {w : Demand} {scope : ScopeId}
  {s : AnalysisState} {hint : Option Ty} {position : Position}

theorem Expr.KeepsTypes.proper {e : Expr} (h : e.KeepsTypes p g.toTerrain w) (he : e.Regular g)
    (hh : HintProper hint) :
    Proceeds p g scope (Check.expr w scope hint e) s fun type _ => type.Proper :=
  (h _ _ _ _ he hh).imp fun _ _ _ ht => ht.1

namespace Check

theorem typing_proceeds (hw : w.KeepsTypes p g.toTerrain) {node : Nat} {act : Check Ty}
    (h : Proceeds p g scope act s fun type _ => type.Proper) :
    Proceeds p g scope (typing w node act) s fun type t =>
      type.Proper ∧ t.types[node]? = some type :=
  visiting_proceeds hw node (.bind h fun _ _ _ htype => .bind (setType_proceeds (.inl htype))
    fun _ _ _ hset => .pure ⟨htype, hset⟩) fun _ _ _ ht => .inr ⟨_, ht.2, ht.1⟩

/-! ### Lists of expressions -/

theorem exprs_proceeds {es : List Expr} (h : ∀ e ∈ es, e.KeepsTypes p g.toTerrain w)
    (he : exprsRegular g es) {hints : List (Option Ty)} (hh : HintsProper hints) :
    Proceeds p g scope (exprs w scope hints es) s fun types _ =>
      typesProper types ∧ types.length = es.length := by
  induction es generalizing s hints with
  | nil =>
    rw [exprs]
    exact .pure ⟨by simp only [typesProper], rfl⟩
  | cons e rest ih =>
    rw [List.forall_mem_cons] at h
    rw [exprsRegular] at he
    rw [exprs]
    refine .bind (h.1.proper he.1 hh.headD) fun type _ _ htype => ?_
    refine .bind (ih h.2 he.2 hh.tail) fun types _ _ htypes => ?_
    refine .pure ⟨?_, congrArg Nat.succ htypes.2⟩
    simp only [typesProper]
    exact ⟨htype, htypes.1⟩

theorem sameType_proceeds {es : List Expr} (h : ∀ e ∈ es, e.KeepsTypes p g.toTerrain w)
    (he : exprsRegular g es) {type : Ty} (ht : type.Proper) :
    Proceeds p g scope (sameType w scope type es) s fun _ _ => True := by
  induction es generalizing s with
  | nil =>
    rw [sameType]
    exact .pure trivial
  | cons e rest ih =>
    rw [List.forall_mem_cons] at h
    rw [exprsRegular] at he
    rw [sameType]
    refine .bind (h.1.proper he.1 (hintProper_some ht)) fun _ _ _ _ => ?_
    refine .check (expectType_yields he.1.position _ _) fun _ _ => ?_
    exact ih h.2 he.2

theorem sameEntries_proceeds {entries : List (Expr × Expr)}
    (h : ∀ e ∈ entries, e.1.KeepsTypes p g.toTerrain w ∧ e.2.KeepsTypes p g.toTerrain w)
    (he : entriesRegular g entries) {key value : Ty} (hk : key.Proper) (hv : value.Proper) :
    Proceeds p g scope (sameEntries w scope key value entries) s fun _ _ => True := by
  induction entries generalizing s with
  | nil =>
    rw [sameEntries]
    exact .pure trivial
  | cons e rest ih =>
    obtain ⟨k, v⟩ := e
    rw [List.forall_mem_cons] at h
    rw [entriesRegular] at he
    rw [sameEntries]
    refine .bind (h.1.1.proper he.1 (hintProper_some hk)) fun _ _ _ _ => ?_
    refine .check (expectType_yields he.1.position _ _) fun _ _ => ?_
    refine .bind (h.1.2.proper he.2.1 (hintProper_some hv)) fun _ _ _ _ => ?_
    refine .check (expectType_yields he.2.1.position _ _) fun _ _ => ?_
    exact ih h.2 he.2.2

/-- Values for some targets have proper types, also if a tuple is taken apart. -/
theorem values_proceeds {es : List Expr} (h : ∀ e ∈ es, e.KeepsTypes p g.toTerrain w)
    (he : exprsRegular g es) {hints : List (Option Ty)} (hh : HintsProper hints)
    (hp : g.place position) :
    Proceeds p g scope (values w scope hints position es) s fun types _ => typesProper types := by
  cases es with
  | nil =>
    rw [values]
    split
    · exact .pure (by simp only [typesProper])
    · exact .fail hp
  | cons e rest =>
    rw [List.forall_mem_cons] at h
    rw [exprsRegular] at he
    rw [values]
    split
    · refine .bind (h.1.proper he.1 hh.headD) fun type _ _ htype => ?_
      refine .bind (exprs_proceeds h.2 he.2 hh.tail) fun types _ _ htypes => ?_
      refine .pure ?_
      simp only [typesProper]
      exact ⟨htype, htypes.1⟩
    · next hlen =>
      split
      · next hnil =>
        rw [List.isEmpty_iff.mp hnil] at hlen
        exact .bind (h.1.proper he.1 (joinHints_proper hh (Ne.symm hlen))) fun _ _ _ htype =>
          .yields (takeApart_yields he.1.position _ htype)
      · exact .fail hp

theorem targets_proceeds {es : List Expr} (h : ∀ e ∈ es, e.KeepsTypes p g.toTerrain w)
    (he : exprsRegular g es) :
    Proceeds p g scope (targets w scope es) s fun hints _ => HintsProper hints := by
  induction es generalizing s with
  | nil =>
    rw [targets]
    exact .pure hintsProper_nil
  | cons e rest ih =>
    rw [List.forall_mem_cons] at h
    rw [exprsRegular] at he
    rw [targets]
    refine .store ?_
    have hfirst : Proceeds p g scope (if isIgnored s.store scope e = true then pure none
        else some <$> expr w scope none e) s fun hint _ => HintProper hint := by
      split
      · exact .pure hintProper_none
      · exact .map ((h.1.proper he.1 hintProper_none).imp fun _ _ _ ht => hintProper_some ht)
    refine .bind hfirst fun _ _ _ hfirst => ?_
    refine .bind (ih h.2 he.2) fun _ _ _ hrest => ?_
    exact .pure (List.forall_mem_cons.mpr ⟨hfirst, hrest⟩)

/-- The type of a lambda is proper if those of its parameters are. -/
theorem lambdaType_proceeds {params : List Ty} (hp : typesProper params) (id : FuncId)
    (wantsProc : Bool) :
    Proceeds p g scope (lambdaType params id wantsProc) s fun type _ => type.Proper := by
  refine .func fun f _ hk => .pure (func_proper hp ?_)
  split
  · exact hintProper_none
  · exact hintProper_some hk.ret.getD

/-! ### Constructs -/

variable (hw : w.KeepsTypes p l) (info : NodeInfo)
include hw

theorem literal_keepsTypes (value : Literal) : (Expr.literal info value).KeepsTypes p l w := by
  intro plays scope hint s _ _
  rw [expr_literal]
  exact typing_proceeds hw (.pure (Literal.type_proper value))

theorem array_keepsTypes {elems : List Expr} (h : ∀ e ∈ elems, e.KeepsTypes p l w) :
    (Expr.array info elems).KeepsTypes p l w := by
  intro plays scope hint s he hh
  rw [Expr.Regular] at he
  rw [expr.eq_def]
  apply typing_proceeds hw
  cases elems with
  | nil =>
    dsimp only
    split
    · next elem helem =>
      have helem' := elemHint_proper hh elem helem
      exact .pure (by simpa only [Ty.Proper] using helem')
    · exact .fail he.1.place
  | cons first rest =>
    rw [List.forall_mem_cons] at h
    rw [exprsRegular] at he
    refine .bind (h.1.proper he.2.1 (elemHint_proper hh)) fun elem _ _ helem => ?_
    refine .bind (sameType_proceeds h.2 he.2.2 helem) fun _ _ _ _ => ?_
    exact .pure (by simpa only [Ty.Proper] using helem)

theorem tuple_keepsTypes {elems : List Expr} (h : ∀ e ∈ elems, e.KeepsTypes p l w) :
    (Expr.tuple info elems).KeepsTypes p l w := by
  intro plays scope hint s he hh
  rw [Expr.Regular] at he
  rw [expr.eq_def]
  apply typing_proceeds hw
  refine .bind (exprs_proceeds h he.2.2 (tupleHints_proper hh _)) fun types _ _ htypes => ?_
  refine .pure ?_
  simp only [Ty.Proper]
  exact ⟨htypes.2 ▸ he.2.1, htypes.1⟩

theorem dict_keepsTypes {entries : List (Expr × Expr)}
    (h : ∀ e ∈ entries, e.1.KeepsTypes p l w ∧ e.2.KeepsTypes p l w) :
    (Expr.dict info entries).KeepsTypes p l w := by
  intro plays scope hint s he hh
  rw [Expr.Regular] at he
  rw [expr.eq_def]
  apply typing_proceeds hw
  cases entries with
  | nil =>
    dsimp only
    split
    · next key value hhints =>
      have hproper := dictHints_proper hh
      rw [hhints] at hproper
      refine .pure ?_
      simp only [Ty.Proper]
      exact ⟨hproper.1 key rfl, hproper.2 value rfl⟩
    · exact .fail he.1.place
  | cons first rest =>
    obtain ⟨key, value⟩ := first
    rw [List.forall_mem_cons] at h
    rw [entriesRegular] at he
    refine .bind (h.1.1.proper he.2.1 (dictHints_proper hh).1) fun key _ _ hkey => ?_
    refine .bind (h.1.2.proper he.2.2.1 (dictHints_proper hh).2) fun value _ _ hvalue => ?_
    refine .bind (sameEntries_proceeds h.2 he.2.2.2 hkey hvalue) fun _ _ _ _ => ?_
    refine .pure ?_
    simp only [Ty.Proper]
    exact ⟨hkey, hvalue⟩

theorem varRef_keepsTypes (name : String) (assigned : Bool) :
    (Expr.varRef info name assigned).KeepsTypes p l w := by
  intro plays scope hint s he _
  rw [Expr.Regular] at he
  rw [expr.eq_def]
  exact typing_proceeds hw (nameType_proceeds hw he name)

theorem member_keepsTypes {receiver : Expr} (h : receiver.KeepsTypes p l w) (name : String) :
    (Expr.member info receiver name).KeepsTypes p l w := by
  intro plays scope hint s he _
  rw [Expr.Regular] at he
  rw [expr.eq_def]
  apply typing_proceeds hw
  refine .bind (h.proper he.2 hintProper_none) fun type _ _ htype => ?_
  split
  · next member hmember => exact .pure (htype.member? hmember)
  · have hargs : typesProper [type] := by simpa only [typesProper, and_true] using htype
    refine .bind (callFunction_proceeds hw he.1.place name hargs) fun _ _ _ hcall => ?_
    refine .bind (link_proceeds _ _) fun _ _ _ _ => ?_
    exact .pure hcall.1

theorem index_keepsTypes {receiver index : Expr} (hr : receiver.KeepsTypes p l w)
    (hi : index.KeepsTypes p l w) : (Expr.index info receiver index).KeepsTypes p l w := by
  intro plays scope hint s he _
  rw [Expr.Regular] at he
  rw [expr.eq_def]
  apply typing_proceeds hw
  refine .bind (hr.proper he.2.1 hintProper_none) fun _ _ _ hreceiver => ?_
  refine .bind (hi.proper he.2.2 (indexHint_proper hreceiver)) fun type _ _ _ => ?_
  exact .yields (indexType_yields he.2.1.position he.2.2.position hreceiver type)

theorem call_keepsTypes {callee : Expr} {args : List Expr} (hc : callee.KeepsTypes p l w)
    (hr : ∀ {info receiver name}, callee = .member info receiver name → receiver.KeepsTypes p l w)
    (ha : ∀ e ∈ args, e.KeepsTypes p l w) : (Expr.call info callee args).KeepsTypes p l w := by
  intro plays scope hint s he _
  rw [Expr.Regular] at he
  obtain ⟨hinfo, hrole, hcallee, hargs⟩ := he
  rw [expr.eq_def]
  apply typing_proceeds hw
  refine .bind (exprs_proceeds ha hargs hintsProper_nil) fun types t _ htypes => ?_
  have hvalue : Proceeds p ⟨l, plays⟩ scope (expr w scope none callee >>= fun type =>
      callValue info callee type callee.label types) t fun type _ => type.Proper :=
    .bind (hc.proper hcallee hintProper_none) fun _ _ _ htype =>
      .yields (callValue_yields hinfo.place hcallee.position htype _ _)
  cases callee with
  | varRef calleeInfo name assigned =>
    refine .store ?_
    split
    · exact callByName_proceeds hw hinfo hrole name htypes.1
    · exact hvalue
  | member calleeInfo receiver name =>
    rw [Expr.Regular] at hcallee
    refine .bind ((hr rfl).proper hcallee.2 hintProper_none) fun type _ _ htype => ?_
    split
    · next member hmember =>
      split at hmember
      · exact .bind (setType_proceeds (.inl (htype.member? hmember))) fun _ _ _ _ =>
          .pure (htype.member? hmember)
      · cases hmember
    · refine callByName_proceeds hw hinfo hrole name ?_
      simp only [typesProper]
      exact ⟨htype, htypes.1⟩
  | _ => exact hvalue

theorem unary_keepsTypes (op : UnaryOp) {operand : Expr} (h : operand.KeepsTypes p l w) :
    (Expr.unary info op operand).KeepsTypes p l w := by
  intro plays scope hint s he hh
  rw [Expr.Regular] at he
  rw [expr.eq_def]
  apply typing_proceeds hw
  refine .bind (h.proper he.2 hh) fun type _ _ htype => ?_
  split
  · next result hresult =>
    exact .pure (UnaryOp.Types.proper (UnaryOp.result_eq_ok_iff.mp hresult) htype)
  · exact .fail he.2.position

theorem binary_keepsTypes (op : BinaryOp) {lhs rhs : Expr} (hl : lhs.KeepsTypes p l w)
    (hr : rhs.KeepsTypes p l w) : (Expr.binary info op lhs rhs).KeepsTypes p l w := by
  intro plays scope hint s he _
  rw [Expr.Regular] at he
  rw [expr.eq_def]
  apply typing_proceeds hw
  refine .bind (hl.proper he.2.1 hintProper_none) fun left _ _ hleft => ?_
  refine .bind (hr.proper he.2.2 (hintProper_some hleft)) fun _ _ _ _ => ?_
  refine .check (expectType_yields he.2.2.position _ _) fun _ _ => ?_
  split
  · next result hresult =>
    exact .pure (BinaryOp.Types.proper (BinaryOp.result?_eq_some_iff.mp hresult) hleft)
  · exact .fail he.2.1.position

theorem cast_keepsTypes {value : Expr} (h : value.KeepsTypes p l w) (written : TypeExpr) :
    (Expr.cast info value written).KeepsTypes p l w := by
  intro plays scope hint s he _
  rw [Expr.Regular] at he
  rw [expr.eq_def]
  apply typing_proceeds hw
  refine .bind (h.proper he.2.1 hintProper_none) fun _ _ _ _ => ?_
  exact .yields (.denoted he.2.2)

theorem typed_keepsTypes {value : Expr} (h : value.KeepsTypes p l w) (written : TypeExpr) :
    (Expr.typed info value written).KeepsTypes p l w := by
  intro plays scope hint s he _
  rw [Expr.Regular] at he
  rw [expr.eq_def]
  apply typing_proceeds hw
  refine .check (.denoted he.2.2) fun _ htype => ?_
  refine .bind (h.proper he.2.1 (hintProper_some htype)) fun _ _ _ _ => ?_
  refine .check (expectType_yields he.2.1.position _ _) fun _ _ => ?_
  exact .pure htype

theorem ifElse_keepsTypes (kind : IfKind) {condition thenValue elseValue : Expr}
    (hc : condition.KeepsTypes p l w) (ht : thenValue.KeepsTypes p l w)
    (he : elseValue.KeepsTypes p l w) :
    (Expr.ifElse info kind condition thenValue elseValue).KeepsTypes p l w := by
  intro plays scope hint s hregular hh
  rw [Expr.Regular] at hregular
  obtain ⟨-, hcondition, hthen, helse⟩ := hregular
  rw [expr.eq_def]
  apply typing_proceeds hw
  refine .bind (hc.proper hcondition (hintProper_some Ty.bool_proper)) fun _ _ _ _ => ?_
  refine .check (expectType_yields hcondition.position _ _) fun _ _ => ?_
  refine .bind (ht.proper hthen hh) fun _ _ _ htype => ?_
  refine .bind (he.proper helse (hintProper_some htype)) fun _ _ _ _ => ?_
  refine .check (expectType_yields helse.position _ _) fun _ _ => ?_
  exact .pure htype

theorem range_keepsTypes {first last : Expr} (hf : first.KeepsTypes p l w)
    (hl : last.KeepsTypes p l w) (inclusive : Bool) :
    (Expr.range info first last inclusive).KeepsTypes p l w := by
  intro plays scope hint s he _
  rw [Expr.Regular] at he
  rw [expr.eq_def]
  apply typing_proceeds hw
  refine .bind (hf.proper he.2.1 hintProper_none) fun type _ _ htype => ?_
  refine .bind (hl.proper he.2.2 (hintProper_some htype)) fun _ _ _ _ => ?_
  refine .check (expectType_yields he.2.2.position _ _) fun _ _ => ?_
  split
  · exact .pure (Ty.range_proper htype)
  · exact .fail he.2.1.position

/-- A lambda takes parameters of proper types, and so does its type as a value. -/
theorem lambda_keepsTypes {d : FuncDef} (h : d.KeepsTypes p l w) :
    (Expr.lambda info d).KeepsTypes p l w := by
  intro plays scope hint s he hh
  rw [Expr.Regular] at he
  rw [expr.eq_def]
  apply typing_proceeds hw
  refine .bind (declareLambda_proceeds he.2.2 he.2.1 (lambdaHint_proper hh _)) fun _ _ _ hr => ?_
  refine .bind (h _ _ _ he.2.2 he.2.1) fun _ _ _ _ => ?_
  exact lambdaType_proceeds hr.1 _ _

end Check

end Frontend
