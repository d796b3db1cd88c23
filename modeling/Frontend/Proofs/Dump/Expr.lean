import Frontend.Proofs.Dump.Declare
import Frontend.Proofs.Types.Expr

/-!
# Expressions keep symbols legible

With inline types as hints and demands that keep the store legible, a legible expression gets an
inline type, and the store stays legible. One lemma for each construct says so from its parts.
-/

namespace Frontend

/-- Demands that keep the store legible where they are for legible definitions. -/
structure Demand.KeepsLegible (w : Demand) : Prop where
  visit : ∀ v, StaysLegible (w.visit v) fun _ => True
  definitionOf : ∀ {name c}, w.definitionOf name = some c → (Definition.constant c).Legible
  constant : ∀ {c}, (Definition.constant c).Legible → StaysLegible (w.constant c) fun _ => True
  function : ∀ {d}, d.Legible → StaysLegible (w.function d) fun _ => True

/-- Runs over a legible expression give it an inline type. -/
def Expr.KeepsLegible (w : Demand) (e : Expr) : Prop :=
  ∀ scope hint, e.Legible → HintInline hint → StaysLegible (Check.expr w scope hint e) Ty.Inline

/-- Runs over the body of a legible function keep the store legible. -/
def FuncDef.KeepsLegible (w : Demand) (d : FuncDef) : Prop :=
  d.Legible → StaysLegible (Check.function w d) fun _ => True

theorem typesInline_nil : TypesInline [] := List.forall_mem_nil _

theorem typesInline_cons {t : Ty} {ts : List Ty} :
    TypesInline (t :: ts) ↔ t.Inline ∧ TypesInline ts := List.forall_mem_cons

variable {w : Demand} {scope : ScopeId} {hint : Option Ty} {position : Position}

namespace Check

theorem visiting_legible {α : Type} (hw : w.KeepsLegible) (node : Nat) {act : Check α}
    {good : α → Prop} (h : StaysLegible act good) : StaysLegible (visiting w node act) good :=
  .bind (hw.visit _) fun _ _ => .bind h fun _ ha => .bind (hw.visit _) fun _ _ => .pure ha

theorem typing_legible (hw : w.KeepsLegible) (node : Nat) {act : Check Ty}
    (h : StaysLegible act Ty.Inline) : StaysLegible (typing w node act) Ty.Inline :=
  visiting_legible hw node (.bind h fun _ ht => .bind (setType_legible _ _) fun _ _ => .pure ht)

/-! ### Calls -/

theorem declaration_legible {f : FuncSymbol} (hf : f.Legible) :
    StaysLegible (ofResult (f.declaration.mapError Failure.fault)) FuncDef.Legible := by
  refine .ofResult fun d hd => ?_
  unfold FuncSymbol.declaration at hd
  split at hd
  · cases hd
  · split at hd
    · next hdecl =>
      cases hd
      exact hf.decl _ hdecl
    · cases hd

theorem inferResult_legible (hw : w.KeepsLegible) {f : FuncSymbol} (hf : f.Legible) :
    StaysLegible (inferResult w f position) fun _ => True := by
  unfold inferResult
  split
  · exact .pure trivial
  · refine .bind (declaration_legible hf) fun d hd => .bind (progress?_legible _) fun _ _ => ?_
    split
    · exact .fail
    · exact .pure trivial
    · exact hw.function hd

/-- The result of a call has an inline type. -/
theorem callResult_legible (hw : w.KeepsLegible) (id : FuncId) :
    StaysLegible (callResult w id position) Ty.Inline := by
  refine .bind (func_legible id) fun f hf => ?_
  split
  · exact .pure Ty.inline_unit
  · split
    · next ret hret => exact .pure (hf.ret ret hret)
    · exact .bind (inferResult_legible hw hf) fun _ _ =>
        .bind (func_legible id) fun _ hf' => .pure hf'.ret.getD

theorem paramTypes_inline {f : FuncSymbol} (hf : f.Legible) : TypesInline f.paramTypes := by
  intro t ht
  obtain ⟨v, hv, rfl⟩ := List.mem_map.mp ht
  exact (hf.params v hv).type.getD

theorem funcValue_legible (hw : w.KeepsLegible) (id : FuncId) :
    StaysLegible (funcValue w id position) Ty.Inline := by
  refine .bind (func_legible id) fun f hf => ?_
  split
  · exact .pure (Ty.inline_func.mpr ⟨paramTypes_inline hf, hintInline_none⟩)
  · exact .bind (callResult_legible hw id) fun ret hret =>
      .pure (Ty.inline_func.mpr ⟨paramTypes_inline hf, hintInline_some.mpr hret⟩)

theorem instantiate_legible (hw : w.KeepsLegible) {f : FuncSymbol} (hf : f.Legible)
    {args : List Ty} (hargs : TypesInline args) :
    StaysLegible (instantiate w f args position) fun _ => True := by
  refine .bind (declaration_legible hf) fun d hd => .bind (hw.visit _) fun _ _ =>
    .bind .get fun s _ => ?_
  split
  · exact .pure trivial
  · dsimp only
    split
    · exact .fail
    · exact .bind (makeInstance_legible hd hargs _) fun r hr =>
        .bind (.andFinally (hw.function hr) fun _ => rfl) fun _ _ => .pure trivial

theorem callFunction_legible (hw : w.KeepsLegible) (name : String) {args : List Ty}
    (hargs : TypesInline args) :
    StaysLegible (callFunction w name args position) fun r => r.2.Inline := by
  refine .bind .store fun st hst => ?_
  dsimp only
  split
  · exact .fail
  · split
    · exact .fail
    · next id f _ hselect =>
      have hm := (Overload.select_eq_some hselect).1
      have hf := hst.func (Store.func?_of_mem_globalFuncs (List.mem_filter.mp hm).1)
      have hselected : StaysLegible (selected w id f args position) fun _ => True := by
        unfold selected
        split
        · exact instantiate_legible hw hf hargs
        · exact .pure trivial
      exact .bind hselected fun id _ => .bind (callResult_legible hw id) fun _ ht => .pure ht

theorem demandConstant_legible (hw : w.KeepsLegible) (name : String) :
    StaysLegible (demandConstant w name) fun _ => True := by
  unfold demandConstant
  split
  · exact .pure trivial
  · next c hc =>
    refine .bind (progress?_legible _) fun _ _ => ?_
    split
    · exact .pure trivial
    · exact hw.constant (hw.definitionOf hc)

theorem variableType_legible (hw : w.KeepsLegible) (handle : VarHandle) (name : String) :
    StaysLegible (variableType w handle name position) Ty.Inline := by
  have hdemand : StaysLegible (demandVariable w handle name) fun _ => True := by
    refine .bind .store fun _ _ => ?_
    split
    · exact demandConstant_legible hw name
    · exact .pure trivial
  refine .bind hdemand fun _ _ => .bind .store fun st hst => ?_
  split
  · next type htype =>
    obtain ⟨v, hv, htype⟩ := Option.bind_eq_some_iff.mp htype
    exact .pure ((hst.var? hv).type type htype)
  · exact .fail

theorem nameType_legible (hw : w.KeepsLegible) (info : NodeInfo) (name : String) :
    StaysLegible (nameType w scope info name) Ty.Inline := by
  refine .bind .store fun st hst => ?_
  split
  · exact .bind (link_legible _ _) fun _ _ => variableType_legible hw _ name
  · split
    · exact .pure Ty.inline_unit
    · split
      · exact .fail
      · split
        · exact .bind (link_legible _ _) fun _ _ => funcValue_legible hw _
        · exact .fail

theorem callByName_legible (hw : w.KeepsLegible) (site callee : NodeInfo) (name : String)
    {args : List Ty} (hargs : TypesInline args) :
    StaysLegible (callByName w site callee name args) Ty.Inline := by
  have hcallee : ∀ id, StaysLegible (typeCallee callee.id id) fun _ => True := by
    intro id
    refine .bind (func_legible id) fun _ _ => ?_
    split
    · exact setType_legible _ _
    · exact .pure trivial
  refine .bind (callFunction_legible hw name hargs) fun r hr => ?_
  refine .bind (link_legible _ _) fun _ _ => .bind (link_legible _ _) fun _ _ => ?_
  exact .bind (hcallee _) fun _ _ => .pure hr

theorem callValue_legible (site : NodeInfo) (callee : Expr) {type : Ty} (ht : type.Inline)
    (label : String) (args : List Ty) :
    StaysLegible (callValue site callee type label args) Ty.Inline := by
  unfold callValue
  split
  · split
    · exact .pure (Ty.inline_func.mp ht).2.getD
    · exact .fail
  · exact .fail

/-! ### Lists of expressions -/

theorem exprs_legible {es : List Expr} (h : ∀ e ∈ es, e.KeepsLegible w) (he : exprsLegible es)
    {hints : List (Option Ty)} (hh : HintsInline hints) :
    StaysLegible (exprs w scope hints es) TypesInline := by
  induction es generalizing hints with
  | nil =>
    rw [exprs]
    exact .pure typesInline_nil
  | cons e rest ih =>
    rw [List.forall_mem_cons] at h
    rw [exprsLegible] at he
    rw [exprs]
    refine .bind (h.1 _ _ he.1 hh.headD) fun type htype => ?_
    refine .bind (ih h.2 he.2 hh.tail) fun types htypes => ?_
    exact .pure (typesInline_cons.mpr ⟨htype, htypes⟩)

theorem sameType_legible {es : List Expr} (h : ∀ e ∈ es, e.KeepsLegible w)
    (he : exprsLegible es) {type : Ty} (ht : type.Inline) :
    StaysLegible (sameType w scope type es) fun _ => True := by
  induction es with
  | nil =>
    rw [sameType]
    exact .pure trivial
  | cons e rest ih =>
    rw [List.forall_mem_cons] at h
    rw [exprsLegible] at he
    rw [sameType]
    refine .bind (h.1 _ _ he.1 (hintInline_some.mpr ht)) fun _ _ => ?_
    exact .bind (expectType_legible _ _) fun _ _ => ih h.2 he.2

theorem sameEntries_legible {entries : List (Expr × Expr)}
    (h : ∀ e ∈ entries, e.1.KeepsLegible w ∧ e.2.KeepsLegible w) (he : entriesLegible entries)
    {key value : Ty} (hk : key.Inline) (hv : value.Inline) :
    StaysLegible (sameEntries w scope key value entries) fun _ => True := by
  induction entries with
  | nil =>
    rw [sameEntries]
    exact .pure trivial
  | cons e rest ih =>
    obtain ⟨k, v⟩ := e
    rw [List.forall_mem_cons] at h
    rw [entriesLegible] at he
    rw [sameEntries]
    refine .bind (h.1.1 _ _ he.1 (hintInline_some.mpr hk)) fun _ _ => ?_
    refine .bind (expectType_legible _ _) fun _ _ => ?_
    refine .bind (h.1.2 _ _ he.2.1 (hintInline_some.mpr hv)) fun _ _ => ?_
    exact .bind (expectType_legible _ _) fun _ _ => ih h.2 he.2.2

theorem takeApart_legible (count : Nat) {type : Ty} (ht : type.Inline) :
    StaysLegible (takeApart count type position) TypesInline := by
  unfold takeApart
  split
  · split
    · exact .pure (Ty.inline_tuple.mp ht)
    · exact .fail
  · exact .fail

theorem values_legible {es : List Expr} (h : ∀ e ∈ es, e.KeepsLegible w) (he : exprsLegible es)
    {hints : List (Option Ty)} (hh : HintsInline hints) :
    StaysLegible (values w scope hints position es) TypesInline := by
  cases es with
  | nil =>
    rw [values]
    split
    · exact .pure typesInline_nil
    · exact .fail
  | cons e rest =>
    rw [List.forall_mem_cons] at h
    rw [exprsLegible] at he
    rw [values]
    split
    · refine .bind (h.1 _ _ he.1 hh.headD) fun type htype => ?_
      refine .bind (exprs_legible h.2 he.2 hh.tail) fun types htypes => ?_
      exact .pure (typesInline_cons.mpr ⟨htype, htypes⟩)
    · split
      · exact .bind (h.1 _ _ he.1 (joinHints_inline hh)) fun _ htype => takeApart_legible _ htype
      · exact .fail

theorem targets_legible {es : List Expr} (h : ∀ e ∈ es, e.KeepsLegible w)
    (he : exprsLegible es) : StaysLegible (targets w scope es) HintsInline := by
  induction es with
  | nil =>
    rw [targets]
    exact .pure hintsInline_nil
  | cons e rest ih =>
    rw [List.forall_mem_cons] at h
    rw [exprsLegible] at he
    rw [targets]
    refine .bind .store fun st _ => ?_
    have hfirst : StaysLegible (if isIgnored st scope e = true then pure none
        else some <$> expr w scope none e) HintInline := by
      split
      · exact .pure hintInline_none
      · exact .map ((h.1 _ _ he.1 hintInline_none).imp fun _ ht => hintInline_some.mpr ht)
    refine .bind hfirst fun _ hfirst => .bind (ih h.2 he.2) fun _ hrest => ?_
    exact .pure (List.forall_mem_cons.mpr ⟨hfirst, hrest⟩)

theorem lambdaType_legible {params : List Ty} (hp : TypesInline params) (id : FuncId)
    (wantsProc : Bool) : StaysLegible (lambdaType params id wantsProc) Ty.Inline := by
  refine .bind (func_legible id) fun f hf => .pure (Ty.inline_func.mpr ⟨hp, ?_⟩)
  split
  · exact hintInline_none
  · exact hintInline_some.mpr hf.ret.getD

theorem indexType_legible (receiver index : Expr) {receiverType : Ty} (ht : receiverType.Inline)
    (type : Ty) : StaysLegible (indexType receiver index receiverType type) Ty.Inline := by
  unfold indexType
  split
  · split
    · exact .pure (Ty.inline_array.mp ht)
    · exact .fail
  · split
    · exact .pure (Ty.inline_builtin _)
    · exact .fail
  · exact .bind (expectType_legible _ _) fun _ _ => .pure (Ty.inline_dict.mp ht).2
  · split
    · next elem helem =>
      obtain ⟨i, -, helem⟩ := Option.bind_eq_some_iff.mp helem
      exact .pure (Ty.inline_tuple.mp ht elem (List.mem_of_getElem? helem))
    · exact .fail
  · exact .fail

/-! ### Constructs -/

variable (hw : w.KeepsLegible) (info : NodeInfo)
include hw

theorem literal_keepsLegible (value : Literal) : (Expr.literal info value).KeepsLegible w := by
  intro scope hint _ _
  rw [expr_literal]
  exact typing_legible hw _ (.pure (Literal.type_inline value))

theorem array_keepsLegible {elems : List Expr} (h : ∀ e ∈ elems, e.KeepsLegible w) :
    (Expr.array info elems).KeepsLegible w := by
  intro scope hint he hh
  rw [Expr.Legible] at he
  rw [expr.eq_def]
  apply typing_legible hw
  cases elems with
  | nil =>
    dsimp only
    split
    · next elem helem => exact .pure (Ty.inline_array.mpr (elemHint_inline hh elem helem))
    · exact .fail
  | cons first rest =>
    rw [List.forall_mem_cons] at h
    rw [exprsLegible] at he
    refine .bind (h.1 _ _ he.1 (elemHint_inline hh)) fun elem helem => ?_
    refine .bind (sameType_legible h.2 he.2 helem) fun _ _ => ?_
    exact .pure (Ty.inline_array.mpr helem)

theorem tuple_keepsLegible {elems : List Expr} (h : ∀ e ∈ elems, e.KeepsLegible w) :
    (Expr.tuple info elems).KeepsLegible w := by
  intro scope hint he hh
  rw [Expr.Legible] at he
  rw [expr.eq_def]
  apply typing_legible hw
  exact .bind (exprs_legible h he (tupleHints_inline hh _)) fun types htypes =>
    .pure (Ty.inline_tuple.mpr htypes)

theorem dict_keepsLegible {entries : List (Expr × Expr)}
    (h : ∀ e ∈ entries, e.1.KeepsLegible w ∧ e.2.KeepsLegible w) :
    (Expr.dict info entries).KeepsLegible w := by
  intro scope hint he hh
  rw [Expr.Legible] at he
  rw [expr.eq_def]
  apply typing_legible hw
  have hhints := dictHints_inline hh
  cases entries with
  | nil =>
    dsimp only
    split
    · next key value heq =>
      rw [heq] at hhints
      exact .pure (Ty.inline_dict.mpr ⟨hhints.1 key rfl, hhints.2 value rfl⟩)
    · exact .fail
  | cons first rest =>
    obtain ⟨key, value⟩ := first
    rw [List.forall_mem_cons] at h
    rw [entriesLegible] at he
    refine .bind (h.1.1 _ _ he.1 hhints.1) fun key hkey => ?_
    refine .bind (h.1.2 _ _ he.2.1 hhints.2) fun value hvalue => ?_
    refine .bind (sameEntries_legible h.2 he.2.2 hkey hvalue) fun _ _ => ?_
    exact .pure (Ty.inline_dict.mpr ⟨hkey, hvalue⟩)

theorem varRef_keepsLegible (name : String) (assigned : Bool) :
    (Expr.varRef info name assigned).KeepsLegible w := by
  intro scope hint _ _
  rw [expr.eq_def]
  exact typing_legible hw _ (nameType_legible hw info name)

theorem member_keepsLegible {receiver : Expr} (h : receiver.KeepsLegible w) (name : String) :
    (Expr.member info receiver name).KeepsLegible w := by
  intro scope hint he _
  rw [Expr.Legible] at he
  rw [expr.eq_def]
  apply typing_legible hw
  refine .bind (h _ _ he hintInline_none) fun type htype => ?_
  split
  · next member hmember => exact .pure (htype.member? hmember)
  · refine .bind (callFunction_legible hw name (List.forall_mem_singleton.mpr htype))
      fun _ hcall => ?_
    exact .bind (link_legible _ _) fun _ _ => .pure hcall

theorem index_keepsLegible {receiver index : Expr} (hr : receiver.KeepsLegible w)
    (hi : index.KeepsLegible w) : (Expr.index info receiver index).KeepsLegible w := by
  intro scope hint he _
  rw [Expr.Legible] at he
  rw [expr.eq_def]
  apply typing_legible hw
  refine .bind (hr _ _ he.1 hintInline_none) fun _ hreceiver => ?_
  refine .bind (hi _ _ he.2 (indexHint_inline hreceiver)) fun type _ => ?_
  exact indexType_legible _ _ hreceiver type

theorem call_keepsLegible {callee : Expr} {args : List Expr} (hc : callee.KeepsLegible w)
    (hr : ∀ {info receiver name}, callee = .member info receiver name → receiver.KeepsLegible w)
    (ha : ∀ e ∈ args, e.KeepsLegible w) : (Expr.call info callee args).KeepsLegible w := by
  intro scope hint he _
  rw [Expr.Legible] at he
  rw [expr.eq_def]
  apply typing_legible hw
  refine .bind (exprs_legible ha he.2 hintsInline_nil) fun types htypes => ?_
  have hvalue : StaysLegible (expr w scope none callee >>= fun type =>
      callValue info callee type callee.label types) Ty.Inline :=
    .bind (hc _ _ he.1 hintInline_none) fun _ htype => callValue_legible _ _ htype _ _
  cases callee with
  | varRef calleeInfo name assigned =>
    refine .bind .store fun _ _ => ?_
    split
    · exact callByName_legible hw _ _ name htypes
    · exact hvalue
  | member calleeInfo receiver name =>
    rw [Expr.Legible] at he
    refine .bind (hr rfl _ _ he.1 hintInline_none) fun type htype => ?_
    split
    · next member hmember =>
      split at hmember
      · exact .bind (setType_legible _ _) fun _ _ => .pure (htype.member? hmember)
      · cases hmember
    · exact callByName_legible hw _ _ name (typesInline_cons.mpr ⟨htype, htypes⟩)
  | _ => exact hvalue

theorem unary_keepsLegible (op : UnaryOp) {operand : Expr} (h : operand.KeepsLegible w) :
    (Expr.unary info op operand).KeepsLegible w := by
  intro scope hint he hh
  rw [Expr.Legible] at he
  rw [expr.eq_def]
  apply typing_legible hw
  refine .bind (h _ _ he hh) fun type htype => ?_
  split
  · next result hresult =>
    exact .pure (UnaryOp.Types.inline (UnaryOp.result_eq_ok_iff.mp hresult) htype)
  · exact .fail

theorem binary_keepsLegible (op : BinaryOp) {lhs rhs : Expr} (hl : lhs.KeepsLegible w)
    (hr : rhs.KeepsLegible w) : (Expr.binary info op lhs rhs).KeepsLegible w := by
  intro scope hint he _
  rw [Expr.Legible] at he
  rw [expr.eq_def]
  apply typing_legible hw
  refine .bind (hl _ _ he.1 hintInline_none) fun left hleft => ?_
  refine .bind (hr _ _ he.2 (hintInline_some.mpr hleft)) fun _ _ => ?_
  refine .bind (expectType_legible _ _) fun _ _ => ?_
  split
  · next result hresult =>
    exact .pure (BinaryOp.Types.inline (BinaryOp.result?_eq_some_iff.mp hresult) hleft)
  · exact .fail

theorem cast_keepsLegible {value : Expr} (h : value.KeepsLegible w) (written : TypeExpr) :
    (Expr.cast info value written).KeepsLegible w := by
  intro scope hint he _
  rw [Expr.Legible] at he
  rw [expr.eq_def]
  apply typing_legible hw
  exact .bind (h _ _ he hintInline_none) fun _ _ => denoted_legible written

theorem typed_keepsLegible {value : Expr} (h : value.KeepsLegible w) (written : TypeExpr) :
    (Expr.typed info value written).KeepsLegible w := by
  intro scope hint he _
  rw [Expr.Legible] at he
  rw [expr.eq_def]
  apply typing_legible hw
  refine .bind (denoted_legible written) fun _ htype => ?_
  refine .bind (h _ _ he (hintInline_some.mpr htype)) fun _ _ => ?_
  exact .bind (expectType_legible _ _) fun _ _ => .pure htype

theorem ifElse_keepsLegible (kind : IfKind) {condition thenValue elseValue : Expr}
    (hc : condition.KeepsLegible w) (ht : thenValue.KeepsLegible w)
    (he : elseValue.KeepsLegible w) :
    (Expr.ifElse info kind condition thenValue elseValue).KeepsLegible w := by
  intro scope hint hlegible hh
  rw [Expr.Legible] at hlegible
  obtain ⟨hcondition, hthen, helse⟩ := hlegible
  rw [expr.eq_def]
  apply typing_legible hw
  refine .bind (hc _ _ hcondition (hintInline_some.mpr (Ty.inline_builtin _))) fun _ _ => ?_
  refine .bind (expectType_legible _ _) fun _ _ => ?_
  refine .bind (ht _ _ hthen hh) fun _ htype => ?_
  refine .bind (he _ _ helse (hintInline_some.mpr htype)) fun _ _ => ?_
  exact .bind (expectType_legible _ _) fun _ _ => .pure htype

theorem range_keepsLegible {first last : Expr} (hf : first.KeepsLegible w)
    (hl : last.KeepsLegible w) (inclusive : Bool) :
    (Expr.range info first last inclusive).KeepsLegible w := by
  intro scope hint he _
  rw [Expr.Legible] at he
  rw [expr.eq_def]
  apply typing_legible hw
  refine .bind (hf _ _ he.1 hintInline_none) fun type htype => ?_
  refine .bind (hl _ _ he.2 (hintInline_some.mpr htype)) fun _ _ => ?_
  refine .bind (expectType_legible _ _) fun _ _ => ?_
  split
  · exact .pure (Ty.inline_range.mpr htype)
  · exact .fail

theorem lambda_keepsLegible {d : FuncDef} (h : d.KeepsLegible w) :
    (Expr.lambda info d).KeepsLegible w := by
  intro scope hint he hh
  rw [Expr.Legible] at he
  rw [expr.eq_def]
  apply typing_legible hw
  refine .bind (declareLambda_legible scope he.1 he.2 (lambdaHint_inline hh _)) fun _ hr => ?_
  exact .bind (h he.2) fun _ _ => lambdaType_legible hr _ _

end Check

end Frontend
