import Mathlib.Data.List.Perm.Subperm
import Frontend.Proofs.Analysis.Invariant

/-!
# Nested analyses

The definitions under analysis form a stack. None is on it twice, since what has been begun is not
begun again, and a template has no more copies on it than the limit allows; so the stack is no
longer than `Program.demandBound`.
-/

namespace Frontend

open Check

/-- The state with a mark of progress. -/
def AnalysisState.mark (s : AnalysisState) (node : Nat) (progress : Progress) : AnalysisState :=
  { s with progress := s.progress.insert node progress }

/-- The copies of a template that are under analysis. -/
def AnalysisState.unfinished (s : AnalysisState) (template : Nat) : List FuncDef :=
  (s.copies.getD template #[]).toList.filter fun c =>
    decide (s.progress[c.info.id]? = some .inProgress)

/-- A node is that of a copy of a template. -/
def AnalysisState.isCopy (s : AnalysisState) (template node : Nat) : Bool :=
  (s.copies.getD template #[]).any fun c => c.info.id == node

/-- How many definitions of a stack are instances of a template. -/
def AnalysisState.instancesOn (s : AnalysisState) (stack : List Nat) (template : Nat) : Nat :=
  stack.countP (s.isCopy template)

/-- Where the definitions of a stack are under analysis: they are different, the copies under
analysis are counted, whether they are told by their marks or by the stack, and kept within the
limit, and every copy has been begun. -/
structure Nested (p : Program) (stack : List Nat) (s : AnalysisState) : Prop where
  nodup : stack.Nodup
  running : ∀ id ∈ stack, ∃ d, Defined p s d ∧ d.info.id = id ∧
    s.progress[id]? = some .inProgress
  counted : ∀ template, s.active.getD template 0 = (s.unfinished template).length
  stacked : ∀ template, s.active.getD template 0 = s.instancesOn stack template
  limited : ∀ template, s.active.getD template 0 ≤ instantiationLimit
  begun : ∀ {template c}, c ∈ s.copies.getD template #[] → s.progress[c.info.id]? ≠ none

/-- A node is that of a constant definition, or of a function whose result is known. -/
inductive AnalysisState.Answered (p : Program) (s : AnalysisState) (node : Nat) : Prop
  | constant {d : ConstDef} (hd : .constant d ∈ p.definitions) (hid : d.info.id = node)
  | function {scope : ScopeId} {id : FuncId} {f : FuncSymbol} (hscope : s.scopes[node]? = some scope)
    (hid : s.store.scopeFuncId? scope = some id) (hf : s.store.func? id = some f)
    (hresult : (f.result?).isSome)

/-- What can be seen at each moment of a run: no definition is under analysis twice, no more
definitions than the bound and no more copies of a template than the limit, the instances on the
stack are counted within the limit, no definition is begun again, a function is finished only with
a result, and instances are asked for of templates of the program. -/
structure Orderly (p : Program) (stack : List Nat) (visit : Visit) (s : AnalysisState) :
    Prop where
  nodup : stack.Nodup
  bounded : stack.length ≤ p.demandBound
  limited : ∀ template, (s.unfinished template).length ≤ instantiationLimit
  stacked : ∀ template, s.active.getD template 0 = s.instancesOn stack template
  allowed : ∀ template, s.active.getD template 0 ≤ instantiationLimit
  fresh : ∀ {node}, visit = .begin node → s.progress[node]? = none
  answered : ∀ {node}, visit = .finish node → s.Answered p node
  asked : ∀ {template name args position}, visit = .request template name args position →
    ∃ d, .function d ∈ p.definitions ∧ d.isTemplate = true ∧ d.info.id = template ∧ d.name = name

variable {p : Program} {stack : List Nat} {s t : AnalysisState} {node : Nat}

/-! ### Marks -/

namespace AnalysisState

theorem slots_mark {n : Nat} {progress : Progress} (hn : n ≠ node) :
    (s.mark node progress).slots n = s.slots n := by
  simp only [slots, mark, Std.TreeMap.getElem?_insert, Std.compare_eq_iff_eq, if_neg (Ne.symm hn)]

theorem progress_mark {n : Nat} {progress : Progress} (hn : n ≠ node) :
    (s.mark node progress).progress[n]? = s.progress[n]? :=
  congrArg Slots.progress (slots_mark hn)

theorem progress_mark_self {progress : Progress} :
    (s.mark node progress).progress[node]? = some progress := by
  simp only [mark, Std.TreeMap.getElem?_insert, Std.compare_eq_iff_eq, if_true]

/-- The same copies are under analysis if there are the same copies, marked in the same way. -/
theorem unfinished_eq (hcopies : t.copies = s.copies)
    (h : ∀ {template c}, c ∈ s.copies.getD template #[] →
      (t.progress[c.info.id]? = some .inProgress ↔ s.progress[c.info.id]? = some .inProgress))
    (template : Nat) : t.unfinished template = s.unfinished template := by
  unfold unfinished
  rw [hcopies]
  exact List.filter_congr fun c hc => decide_eq_decide.mpr (h (Array.mem_toList_iff.mp hc))

/-- No copy is under analysis any more once fewer are marked so. -/
theorem length_unfinished_le (hcopies : t.copies = s.copies)
    (h : ∀ {n : Nat}, s.progress[n]? = some .inProgress → t.progress[n]? = some .inProgress)
    (template : Nat) : (s.unfinished template).length ≤ (t.unfinished template).length := by
  unfold unfinished
  rw [hcopies]
  refine (List.monotone_filter_right _ fun c hc => ?_).length_le
  exact decide_eq_true (h (of_decide_eq_true hc))

/-- A definition that is marked as done is not under analysis any more. -/
theorem unfinished_mark {progress : Progress} (h : progress ≠ .inProgress) (template : Nat) :
    (s.mark node progress).unfinished template =
      (s.unfinished template).filter fun c => c.info.id != node := by
  unfold unfinished
  rw [List.filter_filter]
  refine List.filter_congr fun c _ => ?_
  by_cases hc : c.info.id = node
  · rw [hc, progress_mark_self]
    simp [h]
  · rw [progress_mark hc]
    simp [hc]

/-- A mark does not concern other copies. -/
theorem unfinished_mark_filter {progress : Progress} (template : Nat) :
    (((s.mark node progress).unfinished template).filter fun c => c.info.id != node) =
      (s.unfinished template).filter fun c => c.info.id != node := by
  unfold unfinished
  rw [List.filter_filter, List.filter_filter]
  refine List.filter_congr fun c _ => ?_
  by_cases hc : c.info.id = node
  · simp [hc]
  · rw [progress_mark hc]

/-- A definition that is not under analysis is not among those that are. -/
theorem unfinished_filter_self (h : s.progress[node]? ≠ some .inProgress) (template : Nat) :
    ((s.unfinished template).filter fun c => c.info.id != node) = s.unfinished template := by
  refine List.filter_eq_self.mpr fun c hc => ?_
  have hin := of_decide_eq_true (List.mem_filter.mp hc).2
  rw [bne_iff_ne]
  rintro rfl
  exact h hin

/-! ### Instances on a stack -/

theorem isCopy_iff {template : Nat} :
    s.isCopy template node = true ↔ ∃ c ∈ s.copies.getD template #[], c.info.id = node := by
  simp only [isCopy, Array.any_eq_true', beq_iff_eq]

/-- The same definitions of a stack are instances if the same of them are copies. -/
theorem instancesOn_eq {template : Nat}
    (h : ∀ node ∈ stack, (∃ c ∈ t.copies.getD template #[], c.info.id = node) ↔
      ∃ c ∈ s.copies.getD template #[], c.info.id = node) :
    t.instancesOn stack template = s.instancesOn stack template :=
  List.countP_congr fun node hm => by rw [isCopy_iff, isCopy_iff, h node hm]

end AnalysisState

/-! ### The bound -/

theorem Program.mem_constants {d : ConstDef} : d ∈ p.constants ↔ .constant d ∈ p.definitions := by
  refine ⟨fun h => ?_, fun h => List.mem_filterMap.mpr ⟨_, h, rfl⟩⟩
  obtain ⟨e, hm, he⟩ := List.mem_filterMap.mp h
  cases e <;> cases he
  exact hm

theorem Program.mem_functions {d : FuncDef} : d ∈ p.functions ↔ .function d ∈ p.definitions := by
  refine ⟨fun h => ?_, fun h => List.mem_filterMap.mpr ⟨_, h, rfl⟩⟩
  obtain ⟨e, hm, he⟩ := List.mem_filterMap.mp h
  cases e <;> cases he
  exact hm

private theorem length_flatMap_le {α β : Type} {f : α → List β} {n : Nat} {as : List α}
    (h : ∀ a ∈ as, (f a).length ≤ n) : (as.flatMap f).length ≤ n * as.length := by
  induction as with
  | nil => exact Nat.zero_le _
  | cons a rest ih =>
    rw [List.forall_mem_cons] at h
    rw [List.flatMap_cons, List.length_append, List.length_cons, Nat.mul_succ]
    have hrest := ih h.2
    omega

/-- A definition under analysis is a constant definition or a function of the program, or a copy
under analysis of one of its templates. -/
theorem Inv.mem_of_inProgress (hi : Inv p s) {d : Definition} (hd : Defined p s d)
    (hin : s.progress[d.info.id]? = some .inProgress) :
    d.info.id ∈ p.constants.map (·.info.id) ++ (p.functions.map (·.info.id) ++
      (p.functions.filter FuncDef.isTemplate).flatMap fun t =>
        (s.unfinished t.info.id).map (·.info.id)) := by
  cases hd with
  | program h =>
    cases d with
    | constant d =>
      exact List.mem_append_left _ (List.mem_map_of_mem (Program.mem_constants.mpr h))
    | function d =>
      refine List.mem_append_right _ (List.mem_append_left _ ?_)
      exact List.mem_map_of_mem (Program.mem_functions.mpr h)
  | @copy k c h =>
    refine List.mem_append_right _ (List.mem_append_right _ ?_)
    obtain ⟨i, -, f, template, rfl, hinst⟩ := hi.copied h
    refine List.mem_flatMap.mpr ⟨template, ?_, List.mem_map_of_mem ?_⟩
    · exact List.mem_filter.mpr ⟨Program.mem_functions.mpr hinst.source, hinst.isTemplate⟩
    · rw [← hinst.key]
      exact List.mem_filter.mpr ⟨Array.mem_toList_iff.mpr h, decide_eq_true hin⟩

namespace Nested

/-- No more definitions are under analysis than the bound says. -/
theorem length_le (hn : Nested p stack s) (hi : Inv p s) : stack.length ≤ p.demandBound := by
  have hsub : stack ⊆ p.constants.map (·.info.id) ++ (p.functions.map (·.info.id) ++
      (p.functions.filter FuncDef.isTemplate).flatMap fun t =>
        (s.unfinished t.info.id).map (·.info.id)) := by
    intro id hm
    obtain ⟨d, hd, rfl, hin⟩ := hn.running id hm
    exact hi.mem_of_inProgress hd hin
  have hcopies : ((p.functions.filter FuncDef.isTemplate).flatMap fun t =>
      (s.unfinished t.info.id).map (·.info.id)).length ≤
        instantiationLimit * (p.functions.filter FuncDef.isTemplate).length := by
    refine length_flatMap_le fun t _ => ?_
    rw [List.length_map, ← hn.counted]
    exact hn.limited t.info.id
  have hlen := (hn.nodup.subperm hsub).length_le
  simp only [List.length_append, List.length_map] at hlen
  unfold Program.demandBound
  omega

theorem unfinished_le (hn : Nested p stack s) (template : Nat) :
    (s.unfinished template).length ≤ instantiationLimit := by
  rw [← hn.counted]
  exact hn.limited template

theorem orderly (hn : Nested p stack s) (hi : Inv p s) {visit : Visit}
    (hfresh : ∀ {node}, visit = .begin node → s.progress[node]? = none)
    (hanswered : ∀ {node}, visit = .finish node → s.Answered p node)
    (hasked : ∀ {template name args position}, visit = .request template name args position →
      ∃ d, .function d ∈ p.definitions ∧ d.isTemplate = true ∧ d.info.id = template ∧
        d.name = name) : Orderly p stack visit s where
  nodup := hn.nodup
  bounded := hn.length_le hi
  limited := hn.unfinished_le
  stacked := hn.stacked
  allowed := hn.limited
  fresh := hfresh
  answered := hanswered
  asked := hasked

/-- The moment before a mark that says what has been begun. -/
theorem beginning (hn : Nested p stack (s.mark node .inProgress))
    (hi : Inv p (s.mark node .inProgress)) (hnone : s.progress[node]? = none) :
    Orderly p stack (.begin node) s where
  nodup := hn.nodup
  bounded := hn.length_le hi
  limited template := by
    have hle : (s.unfinished template).length ≤
        ((s.mark node .inProgress).unfinished template).length := by
      refine AnalysisState.length_unfinished_le (s := s) (t := s.mark node .inProgress) rfl
        (fun {n} hin => ?_) template
      have hne : n ≠ node := by
        rintro rfl
        rw [hnone] at hin
        cases hin
      exact (AnalysisState.progress_mark hne).trans hin
    exact Nat.le_trans hle (hn.unfinished_le template)
  stacked := hn.stacked
  allowed := hn.limited
  fresh h := by
    cases h
    exact hnone
  answered := nofun
  asked := nofun

/-- The moment behind a mark that says what is done. -/
theorem finishing (hn : Nested p stack s) (hi : Inv p s)
    (hanswered : (s.mark node .done).Answered p node) :
    Orderly p stack (.finish node) (s.mark node .done) where
  nodup := hn.nodup
  bounded := hn.length_le hi
  limited template := by
    have hle : ((s.mark node .done).unfinished template).length ≤
        (s.unfinished template).length := by
      refine AnalysisState.length_unfinished_le (s := s.mark node .done) (t := s) rfl
        (fun {n} hin => ?_) template
      have hne : n ≠ node := by
        rintro rfl
        rw [AnalysisState.progress_mark_self] at hin
        cases hin
      exact (AnalysisState.progress_mark hne).symm.trans hin
    exact Nat.le_trans hle (hn.unfinished_le template)
  stacked := hn.stacked
  allowed := hn.limited
  fresh := nofun
  answered h := by
    cases h
    exact hanswered
  asked := nofun

/-- A definition of the program is begun inside the others. -/
theorem begin (hn : Nested p stack s) (hi : Inv p s) {d : Definition} (hd : d ∈ p.definitions)
    (hnone : s.progress[d.info.id]? = none) :
    Nested p (d.info.id :: stack) (s.mark d.info.id .inProgress) := by
  have hcopy : ∀ {k c}, c ∈ s.copies.getD k #[] → c.info.id ≠ d.info.id := by
    intro k c hc heq
    have hcd : Definition.function c = d := hi.disjoint (.copy hc) (.program hd)
      (Definition.function c).info_mem_ids (heq ▸ d.info_mem_ids)
    obtain ⟨i, -, f, template, -, hinst⟩ := hi.copied hc
    exact hinst.foreign (hcd ▸ hd)
  have hunfinished : ∀ k, (s.mark d.info.id .inProgress).unfinished k = s.unfinished k :=
    AnalysisState.unfinished_eq rfl fun hc => by rw [AnalysisState.progress_mark (hcopy hc)]
  refine ⟨List.nodup_cons.mpr ⟨fun hm => ?_, hn.nodup⟩, fun id hm => ?_, fun k => ?_, fun k => ?_,
    hn.limited, fun hc => ?_⟩
  · obtain ⟨-, -, -, hin⟩ := hn.running _ hm
    rw [hnone] at hin
    cases hin
  · rcases List.mem_cons.mp hm with rfl | hm
    · exact ⟨d, .program hd, rfl, AnalysisState.progress_mark_self⟩
    · obtain ⟨e, he, rfl, hin⟩ := hn.running id hm
      have hne : e.info.id ≠ d.info.id := by
        intro heq
        rw [heq, hnone] at hin
        cases hin
      refine ⟨e, ?_, rfl, (AnalysisState.progress_mark hne).trans hin⟩
      cases he with
      | program h => exact .program h
      | copy h => exact .copy h
  · rw [hunfinished]
    exact hn.counted k
  · -- What is begun is no instance.
    have hplain : ¬ (s.isCopy k d.info.id = true) := fun h => by
      obtain ⟨c, hc, heq⟩ := AnalysisState.isCopy_iff.mp h
      exact hcopy hc heq
    exact (hn.stacked k).trans (List.countP_cons_of_neg hplain).symm
  · rw [AnalysisState.progress_mark (hcopy hc)]
    exact hn.begun hc

end Nested

end Frontend
