import Frontend.Proofs.Ensures

/-!
# Twin runs

Two actions run from two states side by side. A `Twin` says which states belong together and which
failures do; `Alongside` says of two actions that they keep to it: from states that belong together
both give results, related as wanted, and end in states that belong together, or both fail. There is
a rule for each way to build an action.
-/

namespace Frontend

variable {ε σ α β γ δ : Type}

/-- Which states and which failures of two runs belong together. -/
structure Twin (ε σ : Type) where
  states : σ → σ → Prop
  failures : ε → ε → Prop

/-- From two states, two actions give related results and end in states that belong together, or
they fail with failures that do. -/
def Twin.Follows (T : Twin ε σ) (good : α → β → Prop) (act : EStateM ε σ α) (act' : EStateM ε σ β)
    (s s' : σ) : Prop :=
  Ensures (fun e _ => ∃ e' t', act' s' = .error e' t' ∧ T.failures e e') act s
    fun a t => ∃ a' t', act' s' = .ok a' t' ∧ good a a' ∧ T.states t t'

/-- One action follows another one from all states that belong together. -/
def Alongside (T : Twin ε σ) (good : α → β → Prop) (act : EStateM ε σ α) (act' : EStateM ε σ β) :
    Prop :=
  ∀ ⦃s s' : σ⦄, T.states s s' → T.Follows good act act' s s'

/-- Two actions of which the second one gives the image of what the first one gives. -/
abbrev Carries (T : Twin ε σ) (g : α → β) (act : EStateM ε σ α) (act' : EStateM ε σ β) : Prop :=
  Alongside T (fun a a' => a' = g a) act act'

/-- Two actions that give the same. -/
abbrev Agree (T : Twin ε σ) (act act' : EStateM ε σ α) : Prop := Alongside T Eq act act'

namespace Alongside

variable {T : Twin ε σ} {good : α → β → Prop} {good' : γ → δ → Prop} {act : EStateM ε σ α}
  {act' : EStateM ε σ β}

theorem pure {a : α} {a' : β} (h : good a a') : Alongside T good (pure a) (pure a') :=
  fun _ s' hs => Ensures.pure ⟨a', s', rfl, h, hs⟩

theorem throw {e e' : ε} (h : T.failures e e') :
    Alongside T good (throw e : EStateM ε σ α) (throw e' : EStateM ε σ β) :=
  fun _ s' _ => Ensures.throw ⟨e', s', rfl, h⟩

/-- What the first action ensures by itself is at hand when the two go on. -/
theorem bind_of {f : α → EStateM ε σ γ} {f' : β → EStateM ε σ δ} {post : α → σ → Prop}
    (h : Alongside T good act act') (hpost : ∀ s, Ensures (fun _ _ => True) act s post)
    (hf : ∀ ⦃a a' t t'⦄, good a a' → T.states t t' → post a t →
      T.Follows good' (f a) (f' a') t t') :
    Alongside T good' (act >>= f) (act' >>= f') := by
  intro s s' hs
  refine .bind (((h hs).and (hpost s)).imp_both ?_ ?_)
  · rintro e t ⟨e', t', hrun, he⟩
    refine ⟨e', t', ?_, he⟩
    change EStateM.bind act' f' s' = _
    rw [EStateM.bind, hrun]
  · rintro a t ⟨⟨a', t', hrun, ha, ht⟩, hpost⟩
    have hbind : (act' >>= f') s' = f' a' t' := by
      change EStateM.bind act' f' s' = _
      rw [EStateM.bind, hrun]
    simp only [hbind]
    exact hf ha ht hpost

theorem bind {f : α → EStateM ε σ γ} {f' : β → EStateM ε σ δ} (h : Alongside T good act act')
    (hf : ∀ a a', good a a' → Alongside T good' (f a) (f' a')) :
    Alongside T good' (act >>= f) (act' >>= f') :=
  h.bind_of (Ensures.any act) fun a a' _ _ ha ht _ => hf a a' ha ht

/-- Two actions, the second of which gives an image, and two that go on from it. -/
theorem carry {g : α → β} {f : α → EStateM ε σ γ} {f' : β → EStateM ε σ δ}
    (h : Carries T g act act') (hf : ∀ a, Alongside T good' (f a) (f' (g a))) :
    Alongside T good' (act >>= f) (act' >>= f') := h.bind fun a _ ha => ha ▸ hf a

/-- Two actions that give the same, and two that go on from it. -/
theorem next {act act' : EStateM ε σ α} {f : α → EStateM ε σ γ} {f' : α → EStateM ε σ δ}
    (h : Agree T act act') (hf : ∀ a, Alongside T good' (f a) (f' a)) :
    Alongside T good' (act >>= f) (act' >>= f') := h.bind fun a _ ha => ha ▸ hf a

theorem get : Alongside T T.states (MonadState.get : EStateM ε σ σ) MonadState.get :=
  fun _ s' hs => Ensures.get ⟨s', s', rfl, hs, hs⟩

theorem set {s s' : σ} (h : T.states s s') :
    Agree T (MonadStateOf.set s : EStateM ε σ PUnit) (MonadStateOf.set s') :=
  fun _ _ _ => Ensures.set ⟨.unit, s', rfl, rfl, h⟩

theorem modify {f f' : σ → σ} (h : ∀ {s s'}, T.states s s' → T.states (f s) (f' s')) :
    Agree T (modify f : EStateM ε σ PUnit) (modify f') :=
  fun _ s' hs => Ensures.modify ⟨.unit, f' s', rfl, rfl, h hs⟩

theorem modifyGet {f : σ → α × σ} {f' : σ → β × σ}
    (h : ∀ {s s'}, T.states s s' → good (f s).1 (f' s').1 ∧ T.states (f s).2 (f' s').2) :
    Alongside T good (modifyGet f : EStateM ε σ α) (modifyGet f') :=
  fun _ s' hs => Ensures.modifyGet ⟨(f' s').1, (f' s').2, rfl, h hs⟩

theorem andFinally {T : Twin Failure AnalysisState} {act : Check α} {act' : Check β}
    {after after' : AnalysisState → AnalysisState} (h : Alongside T good act act')
    (hafter : ∀ {s s'}, T.states s s' → T.states (after s) (after' s')) :
    Alongside T good (Check.andFinally act after) (Check.andFinally act' after') := by
  intro s s' hs
  refine .andFinally ((h hs).imp_both ?_ ?_)
  · rintro e t ⟨e', t', hrun, he⟩
    exact ⟨e', after' t', by rw [Check.andFinally, hrun], he⟩
  · rintro a t ⟨a', t', hrun, ha, ht⟩
    exact ⟨a', after' t', by rw [Check.andFinally, hrun], ha, hafter ht⟩

/-- Actions for the members of a list, one after another, and actions for their images. -/
theorem mapM {g : γ → δ} {i : α → β} {f : α → EStateM ε σ γ} {f' : β → EStateM ε σ δ}
    {as : List α} (h : ∀ a ∈ as, Carries T g (f a) (f' (i a))) :
    Carries T (List.map g) (as.mapM f) ((as.map i).mapM f') := by
  induction as with
  | nil =>
    rw [List.mapM_nil, List.map_nil, List.mapM_nil]
    exact .pure rfl
  | cons a rest ih =>
    rw [List.forall_mem_cons] at h
    rw [List.mapM_cons, List.map_cons, List.mapM_cons]
    exact h.1.carry fun _ => (ih h.2).carry fun _ => .pure rfl

theorem forM {i : α → β} {f : α → EStateM ε σ PUnit} {f' : β → EStateM ε σ PUnit} {as : List α}
    (h : ∀ a ∈ as, Agree T (f a) (f' (i a))) :
    Agree T (as.forM f) ((as.map i).forM f') := by
  induction as with
  | nil => exact .pure rfl
  | cons a rest ih =>
    rw [List.forall_mem_cons] at h
    exact h.1.next fun _ => ih h.2

end Alongside

end Frontend
