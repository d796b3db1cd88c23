import Mathlib.Algebra.Group.Nat.Defs
import Mathlib.Data.List.Induction
import Frontend.Proofs.Calls.Overload

/-!
# How candidates are ranked

A candidate that takes the arguments scores two to the power of the number of parameters whose type
is exactly that of the argument, cut off at the largest score. What is selected is the earliest of
the best candidates, whatever else is in the list (`select_earliest_best`). So a candidate that is
exact at more places wins over one that is exact at fewer of them, unless the latter reaches the
largest score already and comes first (`select_ne_of_moreExact`).
-/

namespace Frontend

namespace Overload

/-- A parameter that is no placeholder has exactly the type of the argument. -/
def exact (param arg : Ty) : Bool := !param.isTemplate && decide (param = arg)

/-- The number of parameters that have exactly the type of their argument. -/
def exactCount (params args : List Ty) : Nat := (List.zipWith exact params args).count true

/-- The `i`-th parameter of a function has exactly the type of the argument. -/
def ExactAt (f : FuncSymbol) (args : List Ty) (i : Nat) : Prop :=
  (List.zipWith exact f.paramTypes args)[i]? = some true

instance (f : FuncSymbol) (args : List Ty) (i : Nat) : Decidable (ExactAt f args i) :=
  inferInstanceAs (Decidable (_ = _))

/-- A function is exact wherever another one is, and at some place more. -/
structure MoreExact (f g : FuncSymbol) (args : List Ty) : Prop where
  includes : ∀ i, ExactAt g args i → ExactAt f args i
  strictly : ∃ i, ExactAt f args i ∧ ¬ ExactAt g args i

/-- Between the candidates before it and after it, this one is the earliest of the best. -/
structure Wins {κ : Type} (name : String) (args : List Ty) (before : List (κ × FuncSymbol))
    (c : κ × FuncSymbol) (after : List (κ × FuncSymbol)) : Prop where
  called : c.2.name = name
  applicable : 0 < score c.2 args
  best : ∀ d ∈ before ++ after, d.2.name = name → score d.2 args ≤ score c.2 args
  earliest : ∀ d ∈ before, d.2.name = name → score d.2 args < score c.2 args

variable {κ : Type} {name : String} {args : List Ty} {f g : FuncSymbol}

/-! ### Scores -/

theorem weight_eq_of_accepts {param arg : Ty} (h : param.Accepts arg) :
    weight param arg = 2 ^ (exact param arg).toNat := by
  unfold weight exact
  cases ht : param.isTemplate with
  | true => rfl
  | false =>
    have heq : param = arg := h.resolve_left (by rw [ht]; decide)
    simp only [heq, Bool.false_eq_true, if_false, if_true, decide_true]
    decide

theorem weights_prod {params args : List Ty} (h : List.Forall₂ Ty.Accepts params args) :
    (List.zipWith weight params args).prod = 2 ^ exactCount params args := by
  unfold exactCount
  induction h with
  | nil => rfl
  | cons hhead _ ih =>
    rw [List.zipWith_cons_cons, List.zipWith_cons_cons, List.prod_cons, ih,
      weight_eq_of_accepts hhead, List.count_cons, Nat.pow_add, Nat.mul_comm]
    cases exact _ _ <;> rfl

/-- Cutting off after each factor is cutting off the product, as no factor is zero. -/
theorem foldl_cutoff {ws : List Nat} (h : ∀ w ∈ ws, 0 < w) (score : Nat) :
    ws.foldl (fun score w => min (score * w) maxScore) (min score maxScore) =
      min (score * ws.prod) maxScore := by
  induction ws generalizing score with
  | nil => rw [List.foldl_nil, List.prod_nil, Nat.mul_one]
  | cons w rest ih =>
    rw [List.forall_mem_cons] at h
    have hstep : min (min score maxScore * w) maxScore = min (score * w) maxScore := by
      rw [← Nat.mul_min_mul_right, Nat.min_assoc,
        Nat.min_eq_right (Nat.le_mul_of_pos_right maxScore h.1)]
    rw [List.foldl_cons, hstep, ih h.2, List.prod_cons, Nat.mul_assoc]

theorem scoreParams_eq {params args : List Ty} (h : List.Forall₂ Ty.Accepts params args) :
    scoreParams params args = min (2 ^ exactCount params args) maxScore := by
  have hpos := (zipWith_weight_pos_iff params args h.length_eq).mpr h
  have hone : (1 : Nat) = min 1 maxScore := by decide
  rw [scoreParams, if_neg (not_not.mpr h.length_eq), hone, foldl_cutoff hpos, weights_prod h,
    Nat.one_mul]

/-- A function does not apply just if it takes another number of arguments, or one of its
parameters, which is no placeholder, has another type than the argument. -/
theorem score_eq_zero_iff (f : FuncSymbol) (args : List Ty) : score f args = 0 ↔
    f.params.length ≠ args.length ∨ ∃ (i : Nat) (param arg : Ty), f.paramTypes[i]? = some param ∧
      args[i]? = some arg ∧ param.isTemplate = false ∧ param ≠ arg := by
  have hlength : f.paramTypes.length = f.params.length := List.length_map _
  rw [score, ← Nat.le_zero, ← Nat.not_lt, scoreParams_pos_iff, List.forall₂_iff_get, not_and_or,
    ← hlength]
  apply or_congr Iff.rfl
  constructor
  · intro h
    push Not at h
    obtain ⟨i, hi, hi', haccepts⟩ := h
    obtain ⟨hconcrete, hne⟩ := not_or.mp haccepts
    exact ⟨i, _, _, List.getElem?_eq_getElem hi, List.getElem?_eq_getElem hi',
      Bool.eq_false_iff.mpr hconcrete, hne⟩
  · rintro ⟨i, param, arg, hparam, harg, hconcrete, hne⟩ h
    obtain ⟨hi, rfl⟩ := List.getElem?_eq_some_iff.mp hparam
    obtain ⟨hi', rfl⟩ := List.getElem?_eq_some_iff.mp harg
    rcases h i hi hi' with htemplate | heq
    · exact absurd htemplate (by simpa using hconcrete)
    · exact hne heq

/-- A function that applies scores two to the power of the number of its exact parameters, cut off
at the largest score. -/
theorem score_eq_of_ne_zero (h : score f args ≠ 0) :
    score f args = min (2 ^ exactCount f.paramTypes args) (2 ^ 32 - 1) :=
  scoreParams_eq ((scoreParams_pos_iff _ _).mp (Nat.pos_of_ne_zero h))

/-! ### Selection, candidate by candidate -/

/-- One more candidate behind the others. -/
theorem select_concat (candidates : List (κ × FuncSymbol)) (d : κ × FuncSymbol) :
    select (candidates ++ [d]) name args =
      if d.2.name = name ∧ ((select candidates name args).map (·.2)).getD 0 < score d.2 args
        then some (d, score d.2 args) else select candidates name args := by
  unfold select
  rw [List.filter_append, List.foldl_append]
  by_cases hname : d.2.name = name
  · simp only [List.filter_cons, hname, beq_self_eq_true, if_true, List.filter_nil,
      List.foldl_cons, List.foldl_nil, better, true_and]
  · simp only [List.filter_cons, beq_eq_false_iff_ne.mpr hname, List.filter_nil,
      Bool.false_eq_true, if_false, List.foldl_nil, hname, false_and]

/-- Nothing is selected just if no candidate of the name applies. -/
theorem select_eq_none_iff (candidates : List (κ × FuncSymbol)) :
    select candidates name args = none ↔
      ∀ c ∈ candidates, c.2.name = name → score c.2 args = 0 := by
  induction candidates using List.reverseRecOn with
  | nil => exact ⟨fun _ => nofun, fun _ => rfl⟩
  | append_singleton rest d ih =>
    rw [select_concat, List.forall_mem_append, List.forall_mem_singleton, ← ih]
    split
    · next h =>
      constructor
      · intro hsome
        cases hsome
      · rintro ⟨-, hd⟩
        have hzero := hd h.1
        omega
    · next h =>
      constructor
      · intro hnone
        refine ⟨hnone, fun hname => ?_⟩
        rw [hnone] at h
        simpa [hname] using h
      · exact fun hboth => hboth.1

namespace Wins

variable {before after : List (κ × FuncSymbol)} {c d : κ × FuncSymbol}

/-- A candidate that is no better does not matter behind the winner. -/
theorem concat_iff : Wins name args before c (after ++ [d]) ↔
    Wins name args before c after ∧ (d.2.name = name → score d.2 args ≤ score c.2 args) := by
  constructor
  · intro h
    refine ⟨⟨h.called, h.applicable, fun e he => h.best e ?_, h.earliest⟩, h.best d (by simp)⟩
    rw [← List.append_assoc]
    exact List.mem_append_left _ he
  · rintro ⟨h, hd⟩
    refine ⟨h.called, h.applicable, fun e he => ?_, h.earliest⟩
    rw [← List.append_assoc] at he
    rcases List.mem_append.mp he with he | he
    · exact h.best e he
    · rw [List.mem_singleton.mp he]
      exact hd

end Wins

/-- The winner so far scores at least as much as any candidate of the name. -/
theorem score_le_of_select (candidates : List (κ × FuncSymbol)) :
    ∀ d ∈ candidates, d.2.name = name →
      score d.2 args ≤ ((select candidates name args).map (·.2)).getD 0 := by
  induction candidates using List.reverseRecOn with
  | nil => exact nofun
  | append_singleton rest d ih =>
    rw [select_concat, List.forall_mem_append, List.forall_mem_singleton]
    split
    · next h => exact ⟨fun e he hname => Nat.le_of_lt (Nat.lt_of_le_of_lt (ih e he hname) h.2),
        fun _ => Nat.le_refl _⟩
    · next h => exact ⟨ih, fun hname => Nat.not_lt.mp fun hlt => h ⟨hname, hlt⟩⟩

/-- What is selected has won. -/
theorem wins_of_select {candidates : List (κ × FuncSymbol)} {c : κ × FuncSymbol} {found : Nat}
    (h : select candidates name args = some (c, found)) : found = score c.2 args ∧
      ∃ before after, candidates = before ++ c :: after ∧ Wins name args before c after := by
  induction candidates using List.reverseRecOn with
  | nil => cases h
  | append_singleton rest d ih =>
    have hle : ∀ e ∈ rest, e.2.name = name → score e.2 args ≤
        ((select rest name args).map (·.2)).getD 0 := score_le_of_select rest
    rw [select_concat] at h
    split at h
    · next hd =>
      obtain ⟨rfl, rfl⟩ : d = c ∧ score d.2 args = found := by simpa using h
      have hlt : ∀ e ∈ rest, e.2.name = name → score e.2 args < score d.2 args :=
        fun e he hname => Nat.lt_of_le_of_lt (hle e he hname) hd.2
      refine ⟨rfl, rest, [], rfl, hd.1, Nat.zero_lt_of_lt hd.2, fun e he hname => ?_, hlt⟩
      exact Nat.le_of_lt (hlt e (by simpa using he) hname)
    · next hd =>
      obtain ⟨rfl, before, after, rfl, hwins⟩ := ih h
      refine ⟨rfl, before, after ++ [d], by simp, Wins.concat_iff.mpr ⟨hwins, fun hname => ?_⟩⟩
      rw [h] at hd
      exact Nat.not_lt.mp fun hlt => hd ⟨hname, hlt⟩

/-- A candidate that has won is selected. -/
theorem Wins.select {before after : List (κ × FuncSymbol)} {c : κ × FuncSymbol}
    (h : Wins name args before c after) :
    select (before ++ c :: after) name args = some (c, score c.2 args) := by
  induction after using List.reverseRecOn with
  | nil =>
    have hleads : ((Overload.select before name args).map (·.2)).getD 0 < score c.2 args := by
      cases hselect : Overload.select before name args with
      | none => exact h.applicable
      | some chosen =>
        obtain ⟨d, found⟩ := chosen
        obtain ⟨rfl, hd, tl, rfl, hwins⟩ := wins_of_select hselect
        exact h.earliest d (by simp) hwins.called
    rw [select_concat, if_pos ⟨h.called, hleads⟩]
  | append_singleton rest d ih =>
    obtain ⟨hrest, hle⟩ := concat_iff.mp h
    have hselect := ih hrest
    rw [← List.cons_append, ← List.append_assoc, select_concat, hselect]
    refine if_neg fun hd => ?_
    exact absurd hd.2 (Nat.not_lt.mpr (hle hd.1))

/-- What is selected is the earliest of the best candidates that apply. -/
theorem select_eq_some_iff {candidates : List (κ × FuncSymbol)} {c : κ × FuncSymbol}
    {found : Nat} : select candidates name args = some (c, found) ↔ found = score c.2 args ∧
      ∃ before after, candidates = before ++ c :: after ∧ Wins name args before c after := by
  refine ⟨wins_of_select, ?_⟩
  rintro ⟨rfl, before, after, rfl, hwins⟩
  exact hwins.select

/-! ### Candidates that do not matter -/

/-- A candidate of another name, or one that does not apply, does not matter. -/
theorem select_skip (before after : List (κ × FuncSymbol)) {d : κ × FuncSymbol}
    (h : d.2.name ≠ name ∨ score d.2 args = 0) :
    select (before ++ d :: after) name args = select (before ++ after) name args := by
  induction after using List.reverseRecOn with
  | nil =>
    rw [select_concat, List.append_nil]
    refine if_neg fun hd => ?_
    rcases h with hname | hzero
    · exact hname hd.1
    · omega
  | append_singleton rest e ih =>
    rw [← List.cons_append, ← List.append_assoc, ← List.append_assoc, select_concat,
      select_concat, ih]

/-- With and without a candidate that does not lead with a score of `found` or more, the selection
is the same, or both times it scores less. -/
theorem select_agree (before after : List (κ × FuncSymbol)) {d : κ × FuncSymbol} {found : Nat}
    (h : d.2.name = name → ((select before name args).map (·.2)).getD 0 < score d.2 args →
      score d.2 args < found) :
    select (before ++ d :: after) name args = select (before ++ after) name args ∨
      ((select (before ++ d :: after) name args).map (·.2)).getD 0 < found ∧
        ((select (before ++ after) name args).map (·.2)).getD 0 < found := by
  induction after using List.reverseRecOn with
  | nil =>
    rw [select_concat, List.append_nil]
    split
    · next hd =>
      have hlt := h hd.1 hd.2
      exact .inr ⟨hlt, Nat.lt_trans hd.2 hlt⟩
    · exact .inl rfl
  | append_singleton rest e ih =>
    rw [← List.cons_append, ← List.append_assoc, ← List.append_assoc, select_concat,
      select_concat]
    rcases ih with heq | ⟨hlt, hlt'⟩
    · exact .inl (by rw [heq])
    · by_cases hleads : e.2.name = name ∧ found ≤ score e.2 args
      · rw [if_pos ⟨hleads.1, by omega⟩, if_pos ⟨hleads.1, by omega⟩]
        exact .inl rfl
      · refine .inr ⟨?_, ?_⟩
        · split
          · next he => exact Nat.not_le.mp fun hle => hleads ⟨he.1, hle⟩
          · exact hlt
        · split
          · next he => exact Nat.not_le.mp fun hle => hleads ⟨he.1, hle⟩
          · exact hlt'

/-- A candidate that scores less than the winner, or as much and stands behind it, does not
matter. -/
theorem select_eq_some_skip {before after : List (κ × FuncSymbol)} {c d : κ × FuncSymbol}
    {found : Nat} (h : score d.2 args < found ∨ score d.2 args = found ∧ c ∈ before) :
    select (before ++ d :: after) name args = some (c, found) ↔
      select (before ++ after) name args = some (c, found) := by
  by_cases hc : c.2.name = name ∧ found = score c.2 args
  · have hless : d.2.name = name →
        ((select before name args).map (·.2)).getD 0 < score d.2 args → score d.2 args < found := by
      intro _ hleads
      rcases h with hless | ⟨hequal, hmem⟩
      · exact hless
      · have hle : score c.2 args ≤ ((select before name args).map (·.2)).getD 0 :=
          score_le_of_select before c hmem hc.1
        omega
    rcases select_agree before after hless with heq | ⟨hlt, hlt'⟩
    · rw [heq]
    · refine iff_of_false (fun hselect => ?_) fun hselect => ?_
      · rw [hselect] at hlt
        exact Nat.lt_irrefl _ hlt
      · rw [hselect] at hlt'
        exact Nat.lt_irrefl _ hlt'
  · refine iff_of_false (fun hselect => ?_) fun hselect => ?_ <;>
    · obtain ⟨hfound, _, _, _, hwins⟩ := wins_of_select hselect
      exact hc ⟨hwins.called, hfound⟩

/-- What a call stands for among all global functions is what is selected among those of the
name. -/
theorem resolveFunc_eq (s : Store) (name : String) (args : List Ty) :
    s.resolveFunc name args = (select (s.lookupFunctions name) name args).map (·.1) := by
  rw [Store.resolveFunc, Store.lookupFunctions, select_filter]

/-! ### The earliest of the best -/

/-- A user function that has parameters of the given types. -/
def ofTypes (name : String) (types : List Ty) : FuncSymbol :=
  { name, params := types.map fun type => ⟨"value", some type, false⟩, ret := none, kind := .func
    isBuiltin := false, decl := none }

/-- Scores tell how exact a function is, and the selection gives the earliest of the best candidates
that apply. It does not change with candidates of other names, candidates that do not apply or score
less, and candidates behind the selected one that score as much. -/
theorem select_earliest_best (name : String) (args : List Ty) :
    (∀ f, score f args = 0 ↔ f.params.length ≠ args.length ∨
      ∃ (i : Nat) (param arg : Ty), f.paramTypes[i]? = some param ∧ args[i]? = some arg ∧
        param.isTemplate = false ∧ param ≠ arg) ∧
    (∀ f, score f args ≠ 0 →
      score f args = min (2 ^ exactCount f.paramTypes args) (2 ^ 32 - 1)) ∧
    (∀ candidates : List (κ × FuncSymbol), select candidates name args = none ↔
      ¬ ∃ c ∈ candidates, c.2.name = name ∧ 0 < score c.2 args) ∧
    (∀ (candidates : List (κ × FuncSymbol)) c found,
      select candidates name args = some (c, found) ↔ found = score c.2 args ∧
        ∃ before after, candidates = before ++ c :: after ∧ Wins name args before c after) ∧
    (∀ (before after : List (κ × FuncSymbol)) d, d.2.name ≠ name ∨ score d.2 args = 0 →
      select (before ++ d :: after) name args = select (before ++ after) name args) ∧
    (∀ (before after : List (κ × FuncSymbol)) c d found,
      score d.2 args < found ∨ score d.2 args = found ∧ c ∈ before →
        (select (before ++ d :: after) name args = some (c, found) ↔
          select (before ++ after) name args = some (c, found))) ∧
    ∀ s : Store, s.resolveFunc name args =
      (select (s.lookupFunctions name) name args).map (·.1) := by
  refine ⟨fun f => score_eq_zero_iff f args, fun f => score_eq_of_ne_zero, fun candidates => ?_,
    fun _ _ _ => select_eq_some_iff, fun before after _ => select_skip before after,
    fun _ _ _ _ _ => select_eq_some_skip, fun s => resolveFunc_eq s name args⟩
  simp only [select_eq_none_iff, not_exists, not_and, Nat.not_lt, Nat.le_zero]

/-- A function for numbers wins over a template, wherever that stands. -/
theorem select_earliest_best_number :
    (score (ofTypes "g" [.int]) [.int] ≠ 0 ∧
      score (ofTypes "g" [.int]) [.int] = min (2 ^ exactCount [.int] [.int]) (2 ^ 32 - 1)) ∧
    (score (ofTypes "g" [.string]) [.int] = 0 ∧
      select ([] ++ (0, ofTypes "g" [.string]) :: [(1, ofTypes "g" [.int])]) "g" [.int] =
        select ([] ++ [(1, ofTypes "g" [.int])]) "g" [.int]) ∧
    (score (ofTypes "g" [.template 7]) [.int] < 2 ∧
      (select ([] ++ (0, ofTypes "g" [.template 7]) :: [(1, ofTypes "g" [.int])]) "g" [.int] =
          some ((1, ofTypes "g" [.int]), 2) ↔
        select ([] ++ [(1, ofTypes "g" [.int])]) "g" [.int] =
          some ((1, ofTypes "g" [.int]), 2))) := by
  obtain ⟨-, hscore, -, -, hskip, hless, -⟩ := select_earliest_best (κ := Nat) "g" [.int]
  have hexact : score (ofTypes "g" [.int]) [.int] ≠ 0 := by decide
  have hother : score (ofTypes "g" [.string]) [.int] = 0 := by decide
  have htemplate : score (ofTypes "g" [.template 7]) [.int] < 2 := by decide
  exact ⟨⟨hexact, hscore _ hexact⟩, ⟨hother, hskip _ _ _ (.inr hother)⟩, htemplate,
    hless _ _ _ _ _ (.inl htemplate)⟩

/-! ### More exact candidates -/

theorem count_true_le {as bs : List Bool} (h : ∀ i : Nat, bs[i]? = some true → as[i]? = some true) :
    bs.count true ≤ as.count true := by
  induction bs generalizing as with
  | nil => exact Nat.zero_le _
  | cons b bs ih =>
    cases as with
    | nil =>
      have hnone : true ∉ b :: bs := fun hm => by
        obtain ⟨i, hi⟩ := List.mem_iff_getElem?.mp hm
        exact absurd (h i hi) (by simp)
      rw [List.count_eq_zero.mpr hnone]
      exact Nat.zero_le _
    | cons a as =>
      have htail := ih fun i hi => h (i + 1) hi
      have hhead : b = true → a = true := fun hb => by simpa [hb] using h 0
      rw [List.count_cons, List.count_cons]
      cases b with
      | false => exact Nat.le_trans htail (Nat.le_add_right _ _)
      | true =>
        rw [hhead rfl]
        exact Nat.add_le_add_right htail _

theorem count_true_lt {as bs : List Bool} (h : ∀ i : Nat, bs[i]? = some true → as[i]? = some true)
    {i : Nat} (ha : as[i]? = some true) (hb : bs[i]? ≠ some true) :
    bs.count true < as.count true := by
  induction as generalizing bs i with
  | nil => cases ha
  | cons a as ih =>
    cases bs with
    | nil =>
      rw [List.count_nil, List.count_pos_iff]
      exact List.mem_of_getElem? ha
    | cons b bs =>
      have htail : ∀ i : Nat, bs[i]? = some true → as[i]? = some true := fun i hi => h (i + 1) hi
      rw [List.count_cons, List.count_cons]
      cases i with
      | zero =>
        obtain rfl : a = true := by simpa using ha
        obtain rfl : b = false := by simpa using hb
        have hle := count_true_le htail
        simp only [beq_self_eq_true, if_true, Bool.false_beq, Bool.not_true, Bool.false_eq_true,
          if_false]
        omega
      | succ i =>
        have hhead : b = true → a = true := fun hb => by simpa [hb] using h 0
        have hlt := ih htail ha hb
        cases b with
        | false => exact Nat.lt_of_lt_of_le hlt (Nat.le_add_right _ _)
        | true =>
          rw [hhead rfl]
          exact Nat.add_lt_add_right hlt _

theorem MoreExact.exactCount_lt (h : MoreExact f g args) :
    exactCount g.paramTypes args < exactCount f.paramTypes args := by
  obtain ⟨i, hf, hg⟩ := h.strictly
  exact count_true_lt h.includes hf hg

/-- A more exact function scores no less, and it scores more as long as the scores are not cut
off. -/
theorem MoreExact.score_le (h : MoreExact f g args) (hf : 0 < score f args)
    (hg : 0 < score g args) : score g args ≤ score f args ∧
      (exactCount g.paramTypes args < 32 → score g args < score f args) := by
  have hlt := h.exactCount_lt
  rw [score_eq_of_ne_zero (Nat.ne_of_gt hf), score_eq_of_ne_zero (Nat.ne_of_gt hg)]
  have hpow : 2 ^ exactCount g.paramTypes args < 2 ^ exactCount f.paramTypes args :=
    Nat.pow_lt_pow_right (by decide) hlt
  refine ⟨by omega, fun hsmall => ?_⟩
  have hbound : 2 ^ exactCount g.paramTypes args ≤ 2 ^ 31 :=
    Nat.pow_le_pow_right (by decide) (by omega)
  omega

theorem isTemplate_eq_any (f : FuncSymbol) : f.isTemplate = f.paramTypes.any Ty.isTemplate := by
  rw [FuncSymbol.isTemplate, FuncSymbol.paramTypes, List.any_map]
  congr 1
  funext v
  rw [Function.comp_apply, VarSymbol.isTemplate]
  cases v.type <;> rfl

/-- A function without placeholders is exact at all places where it applies, a template is not. -/
theorem moreExact_of_isTemplate (hf : f.isTemplate = false) (hg : g.isTemplate = true)
    (happlies : 0 < score f args) (happlies' : 0 < score g args) : MoreExact f g args := by
  rw [isTemplate_eq_any] at hf hg
  have hall := (scoreParams_pos_iff _ _).mp happlies
  have hlength := ((scoreParams_pos_iff _ _).mp happlies').length_eq
  have hexact : ∀ i < args.length, ExactAt f args i := by
    intro i hi
    have hi' : i < f.paramTypes.length := by rwa [hall.length_eq]
    have hconcrete : f.paramTypes[i].isTemplate = false := by
      simpa using List.any_eq_false.mp hf _ (List.getElem_mem hi')
    have heq : f.paramTypes[i] = args[i] :=
      (hall.get hi' hi).resolve_left (by simpa using hconcrete)
    rw [heq] at hconcrete
    simp only [ExactAt, List.getElem?_zipWith, List.getElem?_eq_getElem hi',
      List.getElem?_eq_getElem hi, exact, hconcrete, heq, decide_true, Bool.not_false, Bool.and_true]
  refine ⟨fun i hi => hexact i ?_, ?_⟩
  · have hlt := (List.getElem?_eq_some_iff.mp hi).1
    rw [List.length_zipWith] at hlt
    omega
  · obtain ⟨param, hparam, htemplate⟩ := List.any_eq_true.mp hg
    obtain ⟨i, hi, rfl⟩ := List.mem_iff_getElem.mp hparam
    have hi' : i < args.length := by rwa [← hlength]
    refine ⟨i, hexact i hi', ?_⟩
    simp [ExactAt, List.getElem?_zipWith, List.getElem?_eq_getElem hi,
      List.getElem?_eq_getElem hi', exact, htemplate]

/-- A candidate is not selected if another one that applies is more exact, or has no placeholders
where it has some; unless it reaches the largest score and stands before the other one. -/
theorem select_ne_of_moreExact {candidates : List (κ × FuncSymbol)} {first second : κ × FuncSymbol}
    (hfirst : first ∈ candidates) (hname : first.2.name = name)
    (happlies : 0 < score first.2 args) (happlies' : 0 < score second.2 args)
    (hexact : MoreExact first.2 second.2 args ∨
      first.2.isTemplate = false ∧ second.2.isTemplate = true)
    (hcutoff : exactCount second.2.paramTypes args < 32 ∨
      ∃ before after, candidates = before ++ first :: after ∧ second ∉ before) :
    ∀ found, select candidates name args ≠ some (second, found) := by
  intro found hselect
  have hmore : MoreExact first.2 second.2 args := hexact.elim id fun ⟨hf, hg⟩ =>
    moreExact_of_isTemplate hf hg happlies happlies'
  obtain ⟨hle, hlt⟩ := hmore.score_le happlies happlies'
  obtain ⟨-, before', after', rfl, hwins⟩ := wins_of_select hselect
  have hne : second ≠ first := by
    rintro rfl
    exact Nat.lt_irrefl _ hmore.exactCount_lt
  have hat : first ∈ before' ++ after' := by simpa [hne.symm] using hfirst
  rcases hcutoff with hsmall | ⟨before, after, heq, hnot⟩
  · exact absurd (hlt hsmall) (Nat.not_lt.mpr (hwins.best first hat hname))
  · -- All that stands before the second one misses it, so the first one is among them.
    have hbefore : first ∈ before' := by
      rcases List.append_eq_append_iff.mp heq with ⟨m, hbefore, hrest⟩ | ⟨m, hbefore, hrest⟩
      · cases m with
        | nil => exact absurd (List.cons.inj hrest).1 hne
        | cons d m =>
          obtain ⟨rfl, -⟩ := List.cons.inj hrest
          exact absurd (by simp [hbefore]) hnot
      · cases m with
        | nil => exact absurd (List.cons.inj hrest).1.symm hne
        | cons d m =>
          obtain ⟨rfl, -⟩ := List.cons.inj hrest
          simp [hbefore]
    exact absurd (hwins.earliest first hbefore hname) (Nat.not_lt.mpr hle)

/-- A function for numbers wins over a template that comes first. -/
theorem select_ne_of_moreExact_number :
    ((1, ofTypes "g" [.int]) ∈ [(0, ofTypes "g" [.template 7]), (1, ofTypes "g" [.int])] ∧
      0 < score (ofTypes "g" [.int]) [.int] ∧ 0 < score (ofTypes "g" [.template 7]) [.int] ∧
      (ofTypes "g" [.int]).isTemplate = false ∧ (ofTypes "g" [.template 7]).isTemplate = true ∧
      exactCount [.template 7] [.int] < 32) ∧
    ∀ found, select [(0, ofTypes "g" [.template 7]), (1, ofTypes "g" [.int])] "g" [.int] ≠
      some ((0, ofTypes "g" [.template 7]), found) := by
  have hmem : (1, ofTypes "g" [.int]) ∈
      [(0, ofTypes "g" [.template 7]), (1, ofTypes "g" [.int])] := by simp
  have happlies : 0 < score (ofTypes "g" [.int]) [.int] := by decide
  have happlies' : 0 < score (ofTypes "g" [.template 7]) [.int] := by decide
  have hsmall : exactCount [.template 7] [.int] < 32 := by decide
  exact ⟨⟨hmem, happlies, happlies', rfl, rfl, hsmall⟩,
    select_ne_of_moreExact hmem rfl happlies happlies' (.inr ⟨rfl, rfl⟩) (.inl hsmall)⟩

/-- A template that reaches the largest score keeps its place before a function that is exact at
one place more. -/
theorem not_select_ne_of_moreExact :
    ¬ ∀ (candidates : List (Nat × FuncSymbol)) (name : String) (args : List Ty)
      (first second : Nat × FuncSymbol), first ∈ candidates → second ∈ candidates →
        first.2.name = name → second.2.name = name → 0 < score first.2 args →
        0 < score second.2 args → MoreExact first.2 second.2 args →
          ∀ found, select candidates name args ≠ some (second, found) := by
  intro h
  have hfull : score (ofTypes "f" (List.replicate 33 .int)) (List.replicate 33 .int) =
      maxScore := by decide +kernel
  have hcut : score (ofTypes "f" (.template 7 :: List.replicate 32 .int))
      (List.replicate 33 .int) = maxScore := by decide +kernel
  have hmax : 0 < maxScore := by decide
  have hmore : MoreExact (ofTypes "f" (List.replicate 33 .int))
      (ofTypes "f" (.template 7 :: List.replicate 32 .int)) (List.replicate 33 .int) :=
    moreExact_of_isTemplate (by decide +kernel) (by decide +kernel) (by rwa [hfull])
      (by rwa [hcut])
  have hwins : Wins "f" (List.replicate 33 .int) []
      (0, ofTypes "f" (.template 7 :: List.replicate 32 .int))
      [(1, ofTypes "f" (List.replicate 33 .int))] := by
    refine ⟨rfl, by rwa [hcut], fun d hd _ => ?_, fun d hd => absurd hd List.not_mem_nil⟩
    obtain rfl := List.mem_singleton.mp hd
    exact Nat.le_of_eq (hfull.trans hcut.symm)
  exact h _ "f" _ (1, ofTypes "f" (List.replicate 33 .int)) _ (by simp) (by simp) rfl rfl
    (by rwa [hfull]) (by rwa [hcut]) hmore _ hwins.select

end Overload

end Frontend
