import Mathlib.Data.List.Forall2
import Frontend.Proofs.Analysis.Growth

/-!
# What overload selection gives

The selected function is a candidate of the name that accepts the arguments, and the selection
only looks at names and parameter types, so it gives the same function at any later moment.
-/

namespace Frontend

/-- A parameter of some type takes arguments of a type: it is a placeholder or the types agree. -/
def Ty.Accepts (param arg : Ty) : Prop := param.isTemplate = true ∨ param = arg

namespace Overload

theorem weight_pos_iff (param arg : Ty) : 0 < weight param arg ↔ param.Accepts arg := by
  unfold weight Ty.Accepts
  split
  · simp [*]
  · split <;> simp [*]

private theorem foldl_score_pos_iff (ws : List Nat) (score : Nat) :
    0 < ws.foldl (fun score w => min (score * w) maxScore) score ↔
      0 < score ∧ ∀ w ∈ ws, 0 < w := by
  induction ws generalizing score with
  | nil => simp
  | cons w rest ih =>
    have hmax : 0 < maxScore := by decide
    have hmul : 0 < score * w ↔ 0 < score ∧ 0 < w := by
      rw [Nat.pos_iff_ne_zero, Nat.pos_iff_ne_zero, Nat.pos_iff_ne_zero, Ne, Nat.mul_eq_zero,
        not_or]
    rw [List.foldl_cons, ih, Nat.lt_min, hmul]
    simp only [hmax, and_true, List.mem_cons, forall_eq_or_imp]
    tauto

theorem zipWith_weight_pos_iff (params args : List Ty) (h : params.length = args.length) :
    (∀ w ∈ List.zipWith weight params args, 0 < w) ↔ List.Forall₂ Ty.Accepts params args := by
  induction params generalizing args with
  | nil =>
    cases args with
    | nil => simp
    | cons arg args => cases h
  | cons param params ih =>
    cases args with
    | nil => cases h
    | cons arg args =>
      rw [List.zipWith_cons_cons, List.forall₂_cons]
      simp only [List.mem_cons, forall_eq_or_imp, weight_pos_iff]
      rw [ih args (Nat.succ.inj h)]

/-- A parameter list has a score just if it takes the arguments one by one. -/
theorem scoreParams_pos_iff (params args : List Ty) :
    0 < scoreParams params args ↔ List.Forall₂ Ty.Accepts params args := by
  unfold scoreParams
  split
  · next hlen =>
    simp only [Nat.lt_irrefl, false_iff]
    exact fun h => hlen h.length_eq
  · next hlen =>
    rw [foldl_score_pos_iff, zipWith_weight_pos_iff params args (by omega)]
    simp

variable {κ : Type} {name : String} {args : List Ty}

private theorem better_eq (best : Option ((κ × FuncSymbol) × Nat)) (candidate : κ × FuncSymbol) :
    better args best candidate =
      if (best.map (·.2)).getD 0 < score candidate.2 args
        then some (candidate, score candidate.2 args) else best := rfl

private theorem foldl_better_some (candidates : List (κ × FuncSymbol))
    (best : Option ((κ × FuncSymbol) × Nat)) {chosen : κ × FuncSymbol} {found : Nat}
    (h : candidates.foldl (better args) best = some (chosen, found)) :
    best = some (chosen, found) ∨ chosen ∈ candidates ∧ 0 < score chosen.2 args := by
  induction candidates generalizing best with
  | nil => exact .inl h
  | cons candidate rest ih =>
    rw [List.foldl_cons] at h
    rcases ih _ h with hbest | ⟨hm, hscore⟩
    · rw [better_eq] at hbest
      split at hbest
      · next hlt =>
        simp only [Option.some.injEq, Prod.mk.injEq] at hbest
        obtain ⟨rfl, -⟩ := hbest
        exact .inr ⟨List.mem_cons_self, by omega⟩
      · exact .inl hbest
    · exact .inr ⟨List.mem_cons_of_mem _ hm, hscore⟩

/-- What is selected is a candidate of the name and accepts the arguments. -/
theorem select_eq_some {candidates : List (κ × FuncSymbol)} {chosen : κ × FuncSymbol}
    {found : Nat} (h : select candidates name args = some (chosen, found)) :
    chosen ∈ candidates ∧ chosen.2.name = name ∧
      List.Forall₂ Ty.Accepts chosen.2.paramTypes args := by
  rcases foldl_better_some _ _ h with hnone | ⟨hm, hscore⟩
  · cases hnone
  · rw [List.mem_filter] at hm
    exact ⟨hm.1, by simpa using hm.2, (scoreParams_pos_iff _ _).mp hscore⟩

/-- Candidates of other names do not matter. -/
theorem select_filter (candidates : List (κ × FuncSymbol)) :
    select (candidates.filter fun c => c.2.name == name) name args =
      select candidates name args := by
  simp only [select, List.filter_filter, Bool.and_self]

/-- Candidates that the selection cannot tell apart. -/
def Interchangeable {κ' : Type} (c : κ × FuncSymbol) (d : κ' × FuncSymbol) : Prop :=
  d.2.name = c.2.name ∧ d.2.paramTypes = c.2.paramTypes

private theorem foldl_better_related {κ' : Type} {R : κ × FuncSymbol → κ' × FuncSymbol → Prop}
    (hR : ∀ c d, R c d → Interchangeable c d) {cs : List (κ × FuncSymbol)}
    {ds : List (κ' × FuncSymbol)} (h : List.Forall₂ R cs ds)
    {best : Option ((κ × FuncSymbol) × Nat)} {best' : Option ((κ' × FuncSymbol) × Nat)}
    (hb : Option.Rel (fun a b => R a.1 b.1 ∧ b.2 = a.2) best best') :
    Option.Rel (fun a b => R a.1 b.1 ∧ b.2 = a.2)
      (cs.foldl (better args) best) (ds.foldl (better args) best') := by
  induction h generalizing best best' with
  | nil => exact hb
  | @cons c d cs ds hcd _ ih =>
    rw [List.foldl_cons, List.foldl_cons]
    refine ih ?_
    have hscore : score d.2 args = score c.2 args := by simp only [score, (hR c d hcd).2]
    have hbest : (best'.map (·.2)).getD 0 = (best.map (·.2)).getD 0 := by
      cases hb with
      | none => rfl
      | some hab => simp only [Option.map_some, Option.getD_some, hab.2]
    rw [better_eq, better_eq, hscore, hbest]
    split
    · exact .some ⟨hcd, rfl⟩
    · exact hb

/-- Among candidates that cannot be told apart the same one is selected. -/
theorem select_related {κ' : Type} {R : κ × FuncSymbol → κ' × FuncSymbol → Prop}
    (hR : ∀ c d, R c d → Interchangeable c d) {cs : List (κ × FuncSymbol)}
    {ds : List (κ' × FuncSymbol)} (h : List.Forall₂ R cs ds) :
    Option.Rel (fun a b => R a.1 b.1 ∧ b.2 = a.2) (select cs name args) (select ds name args) := by
  have hfilter : List.Forall₂ R (cs.filter fun c => c.2.name == name)
      (ds.filter fun c => c.2.name == name) :=
    List.rel_filter (fun c d hcd => by simp only [(hR c d hcd).1]) h
  exact foldl_better_related hR hfilter .none

/-- A candidate at two moments. -/
def Later (c d : κ × FuncSymbol) : Prop := d.1 = c.1 ∧ c.2.Grows d.2

/-- The selection gives the same function at a later moment. -/
theorem select_later {cs ds : List (κ × FuncSymbol)} (h : List.Forall₂ Later cs ds)
    {id : κ} {f : FuncSymbol} {found : Nat} (hs : select cs name args = some ((id, f), found)) :
    ∃ g, f.Grows g ∧ select ds name args = some ((id, g), found) := by
  have hrel : Option.Rel (fun a b => Later a.1 b.1 ∧ b.2 = a.2) (select cs name args)
      (select ds name args) :=
    select_related (fun c d h => ⟨h.2.name, h.2.paramTypes⟩) h
  rw [hs] at hrel
  generalize select ds name args = selected at hrel
  cases hrel with
  | @some _ b hab =>
    obtain ⟨⟨id', g⟩, found'⟩ := b
    obtain ⟨⟨hid, hgrows⟩, hfound⟩ := hab
    cases hid
    cases hfound
    exact ⟨g, hgrows, rfl⟩

end Overload

end Frontend
