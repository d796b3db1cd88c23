import Mathlib.Data.List.Nodup
import Frontend.Proofs.Calls.Instance

/-!
# Ids in use

Every node of a program and of the copies of its templates has an id of its own. A copy takes the
ids that the counter gives out next, so it cannot clash with what is there. A placeholder is named
after the parameter that it stands for, so it belongs to no other parameter, as long as each
function is declared once; those of builtin functions lie below all ids of nodes.
-/

namespace Frontend

variable {p : Program} {s t : AnalysisState}

/-! ### Nodes -/

/-- The entries of a map are the one under a key, if there is one, and the others. -/
theorem toList_perm_entry {β : Type} (m : Std.TreeMap Nat β) (k : Nat) :
    m.toList.Perm ((m[k]?.map fun v => (k, v)).toList ++ m.toList.filter (¬ k == ·.1)) := by
  cases h : m[k]? with
  | none =>
    have hall : m.toList.filter (¬ k == ·.1) = m.toList := by
      refine List.filter_eq_self.mpr fun e he => ?_
      have hentry : m[e.1]? = some e.2 := Std.TreeMap.mem_toList_iff_getElem?_eq_some.mp he
      have hne : k ≠ e.1 := by
        rintro rfl
        rw [h] at hentry
        cases hentry
      simpa using hne
    rw [Option.map_none, Option.toList_none, List.nil_append, hall]
  | some v =>
    have hsame : (m.insert k v).toList = m.toList := by
      refine (Std.TreeMap.Equiv.of_forall_constGet?_eq fun a => ?_).toList_eq
      rw [Std.TreeMap.getElem?_insert]
      split
      · next heq => rw [← Std.compare_eq_iff_eq.mp heq, h]
      · rfl
    have hperm : (m.insert k v).toList.Perm ((k, v) :: m.toList.filter (¬ k == ·.1)) :=
      Std.TreeMap.toList_insert_perm
    rwa [hsame] at hperm

namespace AnalysisState

/-- The copies of all templates. -/
def allCopies (s : AnalysisState) : List FuncDef := s.copies.toList.flatMap fun e => e.2.toList

/-- The ids of all nodes of a program and of the copies of its templates. -/
def nodeIds (p : Program) (s : AnalysisState) : List Nat :=
  p.ids ++ s.allCopies.flatMap FuncDef.ids

/-- All nodes have different ids below the next free one, those of copies behind those of the
program. -/
structure Numbered (p : Program) (s : AnalysisState) : Prop where
  nodup : (s.nodeIds p).Nodup
  below : ∀ node ∈ s.nodeIds p, node < s.nextId
  behind : ∀ c ∈ s.allCopies, ∀ node ∈ c.ids, ∀ id ∈ p.ids, id < node

theorem mem_allCopies {c : FuncDef} :
    c ∈ s.allCopies ↔ ∃ template, c ∈ s.copies.getD template #[] := by
  simp only [allCopies, List.mem_flatMap, Array.mem_toList_iff, Std.TreeMap.getD_eq_getD_getElem?]
  constructor
  · rintro ⟨⟨template, copies⟩, he, hc⟩
    refine ⟨template, ?_⟩
    rw [Std.TreeMap.mem_toList_iff_getElem?_eq_some.mp he]
    exact hc
  · rintro ⟨template, hc⟩
    cases h : s.copies[template]? with
    | none =>
      rw [h] at hc
      exact absurd hc (Array.not_mem_empty c)
    | some copies =>
      rw [h] at hc
      exact ⟨(template, copies), Std.TreeMap.mem_toList_iff_getElem?_eq_some.mpr h, hc⟩

/-- One more copy. -/
theorem allCopies_copied (d copy : FuncDef) (next : Nat) :
    (Check.copied s d copy next).allCopies.Perm (s.allCopies ++ [copy]) := by
  have hinsert : (Check.copied s d copy next).copies.toList.Perm
      ((d.info.id, (s.copies.getD d.info.id #[]).push copy) ::
        s.copies.toList.filter (¬ d.info.id == ·.1)) := Std.TreeMap.toList_insert_perm
  have hbefore := (toList_perm_entry s.copies d.info.id).flatMap_right fun e => e.2.toList
  have hafter := hinsert.flatMap_right fun e => e.2.toList
  have hentry : ((s.copies[d.info.id]?.map fun v => (d.info.id, v)).toList.flatMap
      fun e => e.2.toList) = (s.copies.getD d.info.id #[]).toList := by
    rw [Std.TreeMap.getD_eq_getD_getElem?]
    cases s.copies[d.info.id]? with
    | none => rfl
    | some copies => exact List.append_nil _
  rw [List.flatMap_append, hentry] at hbefore
  rw [List.flatMap_cons, Array.toList_push, List.append_assoc] at hafter
  refine hafter.trans ?_
  refine .trans ?_ (hbefore.symm.append_right [copy])
  rw [List.append_assoc]
  exact .append_left _ List.perm_append_comm

namespace Numbered

theorem of_eq (h : s.Numbered p) (hcopies : t.copies = s.copies) (hnext : t.nextId = s.nextId) :
    t.Numbered p := by
  have hall : t.allCopies = s.allCopies := by rw [allCopies, allCopies, hcopies]
  have hids : t.nodeIds p = s.nodeIds p := by rw [nodeIds, nodeIds, hall]
  exact ⟨hids ▸ h.nodup, by rw [hids, hnext]; exact h.below, hall ▸ h.behind⟩

/-- Before there are any copies, only the nodes of the program count. -/
theorem initial {first next : Nat} (h : Fresh first next p.ids) : (initial next).Numbered p := by
  have hids : (AnalysisState.initial next).nodeIds p = p.ids := List.append_nil _
  refine ⟨hids ▸ h.nodup, fun node hm => ?_, fun c hc => absurd hc List.not_mem_nil⟩
  rw [hids] at hm
  exact (h.bounds node hm).2

/-- A copy takes the next ids of the counter. -/
theorem copied (h : s.Numbered p) (d : FuncDef) {copy : FuncDef} {next : Nat}
    (hfresh : Fresh s.nextId next copy.ids) : (Check.copied s d copy next).Numbered p := by
  have hall := allCopies_copied (s := s) d copy next
  have hids : ((Check.copied s d copy next).nodeIds p).Perm (s.nodeIds p ++ copy.ids) := by
    have hflat := hall.flatMap_right FuncDef.ids
    rw [List.flatMap_append, List.flatMap_singleton] at hflat
    rw [nodeIds, nodeIds, List.append_assoc]
    exact hflat.append_left _
  refine ⟨hids.nodup_iff.mpr (List.nodup_append.mpr ⟨h.nodup, hfresh.nodup, ?_⟩), ?_, ?_⟩
  · intro node hm node' hm'
    have hlt := h.below node hm
    have hle := (hfresh.bounds node' hm').1
    omega
  · intro node hm
    rcases List.mem_append.mp (hids.mem_iff.mp hm) with hold | hnew
    · exact Nat.lt_of_lt_of_le (h.below node hold) hfresh.le
    · exact (hfresh.bounds node hnew).2
  · intro c hc node hm id hid
    rcases List.mem_append.mp (hall.mem_iff.mp hc) with hold | hnew
    · exact h.behind c hold node hm id hid
    · obtain rfl := List.mem_singleton.mp hnew
      have hlt := h.below id (List.mem_append_left _ hid)
      have hle := (hfresh.bounds node hm).1
      omega

end Numbered

end AnalysisState

/-! ### Placeholders -/

/-- The id that a type stands for, if it is a placeholder. -/
def Ty.placeholder? : Ty → Option Nat
  | .template id => some id
  | _ => none

theorem Ty.placeholder?_eq_none {t : Ty} (h : t.isTemplate = false) : t.placeholder? = none := by
  cases t <;> first | rfl | cases h

/-- The placeholders among the parameters of a symbol, in order. -/
def FuncSymbol.placeholders (f : FuncSymbol) : List Nat :=
  f.params.filterMap fun v => v.type.bind Ty.placeholder?

/-- The ids of the parameters of a function that have no type. -/
def FuncDef.placeholders (d : FuncDef) : List Nat :=
  (d.params.filter (·.type.isNone)).map (·.info.id)

/-- The ids of the parameters that have no type, if a function is defined. -/
def Definition.placeholders : Definition → List Nat
  | .function d => d.placeholders
  | .constant _ => []

/-- The ids of all parameters without a type. -/
def Program.placeholders (p : Program) : List Nat := p.definitions.flatMap Definition.placeholders

/-- The placeholders of builtin functions. -/
def Builtin.placeholders : List Nat := all.flatMap FuncSymbol.placeholders

/-- The placeholders of all function symbols, in order of declaration. -/
def Store.placeholders (st : Store) : List Nat := st.funcs.toList.flatMap FuncSymbol.placeholders

/-- Each placeholder is that of a builtin function or of a function of the program, and none belongs
to two parameters as long as the ids of the program do not clash with those of builtin functions. -/
structure Store.Placed (p : Program) (st : Store) : Prop where
  nodup : p.placeholders.Disjoint Builtin.placeholders → st.placeholders.Nodup
  origin : ∀ id ∈ st.placeholders, id ∈ Builtin.placeholders ∨ id ∈ p.placeholders

/-- The placeholders of a function of the program, which no symbol has yet. -/
structure Store.Awaits (p : Program) (st : Store) (ids : List Nat) : Prop where
  nodup : ids.Nodup
  new : p.placeholders.Disjoint Builtin.placeholders → ids.Disjoint st.placeholders
  mem : ids ⊆ p.placeholders

/-- What awaits the functions of a list awaits the first of them, and then the others. -/
theorem Store.Awaits.append {st : Store} {ids ids' : List Nat} (h : st.Awaits p (ids ++ ids')) :
    st.Awaits p ids ∧ st.Awaits p ids' ∧ ids.Disjoint ids' := by
  obtain ⟨hnodup, hnodup', hdisjoint⟩ := List.nodup_append'.mp h.nodup
  obtain ⟨hmem, hmem'⟩ := List.append_subset.mp h.mem
  exact ⟨⟨hnodup, fun hp => (List.disjoint_append_left.mp (h.new hp)).1, hmem⟩,
    ⟨hnodup', fun hp => (List.disjoint_append_left.mp (h.new hp)).2, hmem'⟩, hdisjoint⟩

theorem FuncSymbol.placeholders_eq_nil {f : FuncSymbol} (h : f.isTemplate = false) :
    f.placeholders = [] := by
  refine List.filterMap_eq_nil_iff.mpr fun v hv => ?_
  have hv' : v.isTemplate = false := Bool.eq_false_iff.mpr (List.any_eq_false.mp h v hv)
  cases htype : v.type with
  | none => rfl
  | some type =>
    rw [VarSymbol.isTemplate, htype, Option.any_some] at hv'
    exact Ty.placeholder?_eq_none hv'

/-- A parameter that has no type is a node. -/
theorem FuncDef.placeholders_sublist (d : FuncDef) : d.placeholders.Sublist d.ids := by
  obtain ⟨info, kind, name, params, returnType, body, ensureBody⟩ := d
  have hheads := heads_sublist Param.head_sublist params
  have hparams : ((params.filter (·.type.isNone)).map (·.info.id)).Sublist
      (params.flatMap Param.ids) := (List.filter_sublist.map _).trans hheads
  rw [FuncDef.ids, List.append_assoc, List.append_assoc]
  exact (hparams.trans (List.sublist_append_left _ _)).cons info.id

theorem flatMap_sublist {α β : Type} {f g : α → List β} (h : ∀ a, (f a).Sublist (g a))
    (as : List α) : (as.flatMap f).Sublist (as.flatMap g) := by
  induction as with
  | nil => exact .slnil
  | cons a rest ih =>
    rw [List.flatMap_cons, List.flatMap_cons]
    exact (h a).append ih

theorem Program.placeholders_sublist (p : Program) : p.placeholders.Sublist p.ids := by
  refine .cons _ (flatMap_sublist (fun d => ?_) p.definitions)
  cases d with
  | function d => exact d.placeholders_sublist
  | constant d => exact List.nil_sublist _

/-- A function that is declared without given types has its own placeholders. -/
theorem paramSymbols_placeholders {params : List Param} {used : List String}
    {symbols : List VarSymbol} (h : paramSymbols used none params = .ok symbols) :
    symbols.filterMap (fun v => v.type.bind Ty.placeholder?) =
      (params.filter (·.type.isNone)).map (·.info.id) := by
  induction params generalizing used symbols with
  | nil =>
    cases h
    rfl
  | cons q rest ih =>
    obtain ⟨type, symbols', ht, hs, rfl⟩ := paramSymbols_cons h
    have hrest := ih hs
    cases hwritten : q.type with
    | none =>
      unfold paramType at ht
      rw [hwritten] at ht
      cases ht
      rw [List.filter_cons_of_pos (by rw [hwritten]; rfl), List.map_cons, ← hrest]
      rfl
    | some written =>
      unfold paramType at ht
      rw [hwritten] at ht
      change (written.resolve.mapError Failure.error) = .ok type at ht
      have hnone : type.placeholder? = none := by
        cases hresolve : written.resolve with
        | error e =>
          rw [hresolve] at ht
          cases ht
        | ok type' =>
          rw [hresolve] at ht
          cases ht
          exact Ty.placeholder?_eq_none (TypeExpr.not_isTemplate_of_resolve hresolve)
      rw [List.filter_cons_of_neg (by rw [hwritten]; exact Bool.false_ne_true), ← hrest]
      exact List.filterMap_cons_none hnone

namespace Store

variable {st st' : Store}

theorem placeholders_addFunc (st : Store) (f : FuncSymbol) :
    (st.addFunc f).2.placeholders = st.placeholders ++ f.placeholders := by
  rw [placeholders, addFunc, Array.toList_push, List.flatMap_append, List.flatMap_singleton]
  rfl

/-- A symbol that keeps its parameters keeps its placeholders. -/
theorem placeholders_setFunc {id : FuncId} {f g : FuncSymbol} (hf : st.func? id = some f)
    (hparams : g.params = f.params) :
    placeholders { st with funcs := st.funcs.setIfInBounds id g } = st.placeholders := by
  have hsame : g.placeholders = f.placeholders := by
    rw [FuncSymbol.placeholders, FuncSymbol.placeholders, hparams]
  rw [placeholders, placeholders, List.flatMap_def, List.flatMap_def, Array.toList_setIfInBounds]
  congr 1
  refine List.ext_getElem? fun i => ?_
  rw [List.getElem?_map, List.getElem?_map, List.getElem?_set]
  split
  · next heq =>
    subst heq
    rw [Array.getElem?_toList, show st.funcs[id]? = some f from hf]
    split
    · rw [Option.map_some, Option.map_some, hsame]
    · next hlt =>
      have hlt' := (Array.getElem?_eq_some_iff.mp hf).1
      exact absurd (by simpa using hlt') hlt
  · rfl

namespace Placed

theorem of_eq (h : st.Placed p) (heq : st'.placeholders = st.placeholders) : st'.Placed p :=
  ⟨heq ▸ h.nodup, heq ▸ h.origin⟩

theorem of_funcs (h : st.Placed p) (hfuncs : st'.funcs = st.funcs) : st'.Placed p :=
  h.of_eq (by rw [placeholders, placeholders, hfuncs])

/-- The symbol of a function of the program that has not been declared yet. -/
theorem add (h : st.Placed p) {f : FuncSymbol} (hf : st.Awaits p f.placeholders) :
    (st.addFunc f).2.Placed p := by
  constructor
  · intro hp
    rw [placeholders_addFunc]
    exact List.nodup_append'.mpr ⟨h.nodup hp, hf.nodup, fun id hid hid' => hf.new hp hid' hid⟩
  · intro id hid
    rw [placeholders_addFunc] at hid
    rcases List.mem_append.mp hid with hid | hid
    · exact h.origin id hid
    · exact .inr (hf.mem hid)

/-- A symbol without placeholders. -/
theorem addConcrete (h : st.Placed p) {f : FuncSymbol} (hf : f.isTemplate = false) :
    (st.addFunc f).2.Placed p :=
  h.of_eq (by rw [placeholders_addFunc, FuncSymbol.placeholders_eq_nil hf, List.append_nil])

end Placed

end Store

end Frontend
