import Frontend.Proofs.Analysis.Step

/-!
# What single operations do

Each operation that writes a slot or a type is a step, and none of them writes a slot a second
time.
-/

namespace Frontend

variable {p : Program} {s t : AnalysisState}

theorem getElem?_insert {α : Type} (m : Std.TreeMap Nat α) (k a : Nat) (v : α) :
    (m.insert k v)[a]? = if k = a then some v else m[a]? := by
  rw [Std.TreeMap.getElem?_insert]
  simp only [Std.compare_eq_iff_eq]

theorem getElem?_insert_of_some {α : Type} {m : Std.TreeMap Nat α} {k a : Nat} {v b : α}
    (hk : m[k]? = none) (ha : m[a]? = some b) : (m.insert k v)[a]? = some b := by
  have hne : k ≠ a := by
    rintro rfl
    rw [hk] at ha
    cases ha
  rw [getElem?_insert, if_neg hne]
  exact ha

namespace Check

theorem expectType_ensures (hi : Inv p s) {expected received : Ty} {position : Position}
    {post : Unit → AnalysisState → Prop} (h : expected = received → post () s) :
    Ensures (Rejected p) (expectType expected received position) s post := by
  unfold expectType
  split
  · next heq => exact .pure (h heq)
  · exact .fail (hi.rejected _ (by rintro ⟨⟩))

/-- An expression without a type gets one, unless it stands for a function without a type. -/
theorem setType_ensures (hi : Inv p s) {node : Nat} (ho : Owned p s node)
    (he : s.types[node]? = none) (hu : s.Understood node) (type : Ty) :
    Ensures (Rejected p) (setType node type) s fun _ t =>
      Step p none [node] s t ∧ t.types[node]? = some type ∧ t.links = s.links := by
  have hcontains : s.types.contains node = false := by
    rw [Std.TreeMap.contains_eq_isSome_getElem?, he]
    rfl
  refine .bind (.get ?_)
  simp only [Resolution.setType, hcontains, Bool.false_eq_true, if_false]
  refine .set ⟨?_, ?_, rfl⟩
  · refine Step.of_store_eq hi ?_ ?_ rfl rfl rfl rfl rfl rfl ?_ hi.settled
      fun n hn _ => List.mem_singleton.mp hn ▸ hu
    · exact { AnalysisState.Grows.refl s with type := getElem?_insert_of_some he }
    · intro n hn
      rw [List.mem_singleton.mp hn]
      exact ho
    · intro n hn
      rw [List.mem_singleton] at hn
      simp only [AnalysisState.slots, getElem?_insert, if_neg (Ne.symm hn)]
  · simp only [getElem?_insert, if_true]

/-- A node without a link and without a type gets a link. -/
theorem link_ensures (hi : Inv p s) {node : Nat} (ho : Owned p s node)
    (he : s.links[node]? = none) (ht : s.types[node]? = none) (target : Link) :
    Ensures (Rejected p) (link node target) s fun _ t =>
      Step p none [node] s t ∧ t.links[node]? = some target ∧ t.types = s.types := by
  have hcontains : s.links.contains node = false := by
    rw [Std.TreeMap.contains_eq_isSome_getElem?, he]
    rfl
  refine .modify ?_
  simp only [Resolution.link, hcontains, Bool.false_eq_true, if_false]
  refine ⟨?_, ?_, trivial⟩
  · refine Step.of_store_eq hi ?_ ?_ rfl rfl rfl rfl rfl rfl ?_ hi.settled fun n hn htype => ?_
    · exact { AnalysisState.Grows.refl s with link := getElem?_insert_of_some he }
    · intro n hn
      rw [List.mem_singleton.mp hn]
      exact ho
    · intro n hn
      rw [List.mem_singleton] at hn
      simp only [AnalysisState.slots, getElem?_insert, if_neg (Ne.symm hn)]
    · rw [List.mem_singleton.mp hn, ht] at htype
      cases htype
  · simp only [getElem?_insert, if_true]

end Check

/-! ### Types that become known -/

namespace Store

theorem func?_set (s : Store) (id a : FuncId) (g : FuncSymbol) (h : (s.func? id).isSome) :
    ({ s with funcs := s.funcs.setIfInBounds id g } : Store).func? a =
      if id = a then some g else s.func? a := by
  unfold func? at h ⊢
  rw [Array.getElem?_setIfInBounds]
  split
  · have hlt : id < s.funcs.size := by
      obtain ⟨f, hf⟩ := Option.isSome_iff_exists.mp h
      exact (Array.getElem?_eq_some_iff.mp hf).1
    rw [if_pos hlt]
  · rfl

theorem grows_setFunc {s : Store} {id : FuncId} {f g : FuncSymbol} (hf : s.func? id = some f)
    (hfg : f.Grows g) : s.Grows { s with funcs := s.funcs.setIfInBounds id g } where
  func {a f'} hf' := by
    rw [func?_set s id a g (by rw [hf]; rfl)]
    split
    · next heq =>
      rw [← heq, hf] at hf'
      cases hf'
      exact ⟨g, rfl, hfg⟩
    · exact ⟨f', hf', .refl f'⟩
  scope ha := ⟨_, ha, .refl _⟩
  constant hv := ⟨_, hv, .refl _⟩

theorem setRet?_eq_some {s t : Store} {id : FuncId} {type : Ty} (h : s.setRet? id type = some t) :
    ∃ f, s.func? id = some f ∧ f.ret = none ∧
      t = { s with funcs := s.funcs.setIfInBounds id { f with ret := some type } } := by
  unfold setRet? at h
  obtain ⟨f, hf, hfg⟩ := Option.bind_eq_some_iff.mp h
  obtain ⟨g, hfg, ht⟩ := Option.bind_eq_some_iff.mp hfg
  unfold FuncSymbol.withRet? at hfg
  split at hfg
  · cases hfg
  · next hn =>
    cases hfg
    cases ht
    exact ⟨f, hf, by simpa using hn, rfl⟩

theorem setRet?_eq_none {s : Store} {id : FuncId} {type : Ty} {f : FuncSymbol}
    (h : s.setRet? id type = none) (hf : s.func? id = some f) : f.ret.isSome := by
  by_contra hn
  unfold setRet? at h
  rw [hf] at h
  simp only [Option.bind_eq_bind, Option.bind_some, FuncSymbol.withRet?, if_neg hn] at h
  cases h

theorem setConstantType?_eq_some {s t : Store} {index : Nat} {type : Ty}
    (h : s.setConstantType? index type = some t) :
    ∃ v, s.constants[index]? = some v ∧ v.type = none ∧
      t = { s with constants := s.constants.setIfInBounds index { v with type := some type } } := by
  unfold setConstantType? at h
  obtain ⟨v, hv, hw⟩ := Option.bind_eq_some_iff.mp h
  obtain ⟨w, hw, ht⟩ := Option.bind_eq_some_iff.mp hw
  unfold VarSymbol.withType? at hw
  split at hw
  · cases hw
  · next hn =>
    cases hw
    cases ht
    exact ⟨v, hv, by simpa using hn, rfl⟩

theorem grows_setConstant {s : Store} {index : Nat} {v w : VarSymbol}
    (hv : s.constants[index]? = some v) (hvw : v.Grows w) :
    s.Grows { s with constants := s.constants.setIfInBounds index w } where
  func hf := ⟨_, hf, .refl _⟩
  scope ha := ⟨_, ha, .refl _⟩
  constant {i v'} hv' := by
    have hlt : index < s.constants.size := (Array.getElem?_eq_some_iff.mp hv).1
    rw [Array.getElem?_setIfInBounds]
    split
    · next heq =>
      rw [← heq, hv] at hv'
      cases hv'
      exact ⟨w, rfl, hvw⟩
    · exact ⟨v', hv', .refl v'⟩

end Store

namespace Check

/-- A function whose result type is unknown gets one. -/
theorem setRet_ensures (hi : Inv p s) {id : FuncId} {f : FuncSymbol}
    (hf : s.store.func? id = some f) (type : Ty) :
    Ensures (Rejected p) (setRet id type) s fun _ t =>
      Step p none [] s t ∧ ∃ g, t.store.func? id = some g ∧ f.Grows g ∧ g.ret.isSome := by
  refine .bind (.store ?_)
  split
  · next st hst =>
    obtain ⟨f', hf', hnone, rfl⟩ := Store.setRet?_eq_some hst
    rw [hf] at hf'
    cases hf'
    have hset := fun a => s.store.func?_set id a { f with ret := some type } (by rw [hf]; rfl)
    have hfg : f.Grows { f with ret := some type } := ⟨rfl, fun h => by rw [hnone] at h; cases h⟩
    refine .setStore ⟨?_, _, ?_, hfg, rfl⟩
    · refine Step.owned hi ?_ nofun rfl rfl rfl rfl rfl rfl rfl (fun _ => rfl) ?_ ?_ ?_ nofun ?_ ?_
      · exact { AnalysisState.Grows.refl s with store := Store.grows_setFunc hf hfg }
      · intro scope a hs
        rw [hset]
        split
        · rfl
        · exact hi.linked hs
      · intro a g d hg _ hnone'
        rw [hset] at hg
        split at hg
        · next heq =>
          rw [← heq, hf] at hnone'
          cases hnone'
        · rw [hnone'] at hg
          cases hg
      · intro a g d hdef hg hd hdone hret
        rw [hset] at hg
        split at hg
        · cases hg
          rfl
        · exact hi.settled hdef hg hd hdone hret
      · exact hi.outer
      · intro a b c hb hc _
        rw [hb] at hc
        cases hc
        rfl
    · rw [hset, if_pos rfl]
  · next hst =>
    exact .pure ⟨.refl hi, f, hf, .refl f, Store.setRet?_eq_none hst hf⟩

/-- A constant gets the type of its value or has it already. -/
theorem assignConstant_ensures (hi : Inv p s) (handle : VarHandle) (type : Ty)
    (position : Position) :
    Ensures (Rejected p) (assignConstant handle type position) s fun _ t => Step p none [] s t := by
  refine .bind (.bind (.store (.pure ?_)))
  split
  · exact expectType_ensures hi fun _ => .refl hi
  · refine .modify ?_
    next index _ =>
    cases hst : s.store.setConstantType? index type with
    | none => exact .refl hi
    | some st =>
      obtain ⟨v, hv, hnone, rfl⟩ := Store.setConstantType?_eq_some hst
      have hvw : v.Grows { v with type := some type } :=
        ⟨rfl, fun h => by rw [hnone] at h; cases h⟩
      rw [Option.getD_some]
      refine Step.owned hi ?_ nofun rfl rfl rfl rfl rfl rfl ?_ (fun _ => rfl) hi.linked ?_
        hi.settled nofun hi.outer ?_
      · exact { AnalysisState.Grows.refl s with store := Store.grows_setConstant hv hvw }
      · exact Array.size_setIfInBounds
      · intro id g d hg _ hnone'
        exact absurd (hnone'.symm.trans hg) nofun
      · intro a b c hb hc _
        rw [hb] at hc
        cases hc
        rfl
  · exact .pure (.refl hi)

end Check

end Frontend
