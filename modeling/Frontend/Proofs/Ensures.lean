import Frontend.Analysis.State

/-!
# Runs of actions

`Ensures` speaks about both outcomes of an action with a state: what holds of a result and the state
behind it, and which failures are admitted in which state. There is a rule for each way to build an
action, so a statement about a run is taken apart along the text of the action.
-/

namespace Frontend

variable {ε σ α β : Type} {refuse : ε → σ → Prop} {s t : σ}

/-- Two results one after the other are one just if both are. -/
theorem bind_eq_ok {r : Except ε α} {f : α → Except ε β} {b : β} :
    (r >>= f) = .ok b ↔ ∃ a, r = .ok a ∧ f a = .ok b := by
  cases r with
  | ok a => exact ⟨fun h => ⟨a, rfl, h⟩, fun ⟨_, ha, h⟩ => by cases ha; exact h⟩
  | error e => exact ⟨nofun, nofun⟩

/-- A run of one action after another gives a result just if both do. -/
theorem run_bind_eq_ok {act : EStateM ε σ α} {f : α → EStateM ε σ β} {b : β} :
    (act >>= f) s = .ok b t ↔ ∃ a u, act s = .ok a u ∧ f a u = .ok b t := by
  change EStateM.bind act f s = .ok b t ↔ _
  unfold EStateM.bind
  cases hrun : act s with
  | ok a u =>
    constructor
    · exact fun h => ⟨a, u, rfl, h⟩
    · rintro ⟨_, _, ⟨⟩, h⟩
      exact h
  | error e u => exact ⟨nofun, nofun⟩

/-- A result that can be looked at is one that did not fail. -/
theorem eq_ok_of_toOption {r : Except ε α} {a : α} (h : r.toOption = some a) : r = .ok a := by
  cases r with
  | ok b => exact congrArg Except.ok (Option.some.inj h)
  | error e => cases h

/-- A run whose result can be looked at leaves a state behind. -/
theorem exists_state_of_run' {act : EStateM ε σ α} {a : α} (h : act.run' s = some a) :
    ∃ t, act s = .ok a t := by
  unfold EStateM.run' EStateM.run at h
  cases hrun : act s with
  | ok b t =>
    rw [hrun] at h
    obtain rfl := Option.some.inj h
    exact ⟨t, rfl⟩
  | error e t =>
    rw [hrun] at h
    cases h

/-- From the state `s` an action either gives a result with `post`, or it fails as `refuse`
admits. -/
def Ensures (refuse : ε → σ → Prop) (act : EStateM ε σ α) (s : σ) (post : α → σ → Prop) : Prop :=
  match act s with
  | .ok a t => post a t
  | .error e t => refuse e t

namespace Ensures

variable {act : EStateM ε σ α} {post post' : α → σ → Prop}

/-- What is ensured holds of a run that gave a result. -/
theorem of_ok (h : Ensures refuse act s post) {a : α} (hr : act s = .ok a t) : post a t := by
  rw [Ensures, hr] at h
  exact h

/-- A failure is one that is admitted. -/
theorem of_error (h : Ensures refuse act s post) {e : ε} (hr : act s = .error e t) :
    refuse e t := by
  rw [Ensures, hr] at h
  exact h

/-- What is ensured may be weakened, with the run itself at hand. -/
theorem imp (h : Ensures refuse act s post)
    (hp : ∀ a t, act s = .ok a t → post a t → post' a t) : Ensures refuse act s post' := by
  unfold Ensures at h ⊢
  split at h
  · exact hp _ _ ‹_› h
  · exact h

/-- Both outcomes may be weakened. -/
theorem imp_both {refuse' : ε → σ → Prop} (h : Ensures refuse act s post)
    (he : ∀ e t, refuse e t → refuse' e t) (hp : ∀ a t, post a t → post' a t) :
    Ensures refuse' act s post' := by
  unfold Ensures at h ⊢
  split at h
  · exact hp _ _ h
  · exact he _ _ h

/-- Every run ensures what always holds. -/
theorem any (act : EStateM ε σ α) (s : σ) : Ensures (fun _ _ => True) act s fun _ _ => True := by
  unfold Ensures
  split <;> trivial

/-- What is ensured in two ways is ensured together. -/
theorem and {refuse' : ε → σ → Prop} (h : Ensures refuse act s post)
    (h' : Ensures refuse' act s post') : Ensures refuse act s fun a t => post a t ∧ post' a t :=
  h.imp fun _ _ hr hpost => ⟨hpost, h'.of_ok hr⟩

/-- What is ensured in several ways is ensured together. -/
theorem all {ι : Type} [Inhabited ι] {post : ι → α → σ → Prop}
    (h : ∀ i, Ensures refuse act s (post i)) : Ensures refuse act s fun a t => ∀ i, post i a t := by
  unfold Ensures at h ⊢
  cases hr : act s with
  | ok a t =>
    intro i
    have hi := h i
    rw [hr] at hi
    exact hi
  | error e t =>
    have hi := h default
    rw [hr] at hi
    exact hi

theorem pure {a : α} (h : post a s) : Ensures refuse (pure a) s post := h

theorem bind {f : α → EStateM ε σ β} {post : β → σ → Prop}
    (h : Ensures refuse act s fun a t => Ensures refuse (f a) t post) :
    Ensures refuse (act >>= f) s post := by
  unfold Ensures at h
  change match EStateM.bind act f s with
    | .ok a t => post a t
    | .error e t => refuse e t
  unfold EStateM.bind
  cases hr : act s <;> rw [hr] at h <;> exact h

theorem map {f : α → β} {post : β → σ → Prop}
    (h : Ensures refuse act s fun a t => post (f a) t) : Ensures refuse (f <$> act) s post := by
  unfold Ensures at h
  change match EStateM.map f act s with
    | .ok a t => post a t
    | .error e t => refuse e t
  unfold EStateM.map
  cases hr : act s <;> rw [hr] at h <;> exact h

theorem get {post : σ → σ → Prop} (h : post s s) :
    Ensures refuse (MonadState.get : EStateM ε σ σ) s post := h

theorem set {u : σ} {post : PUnit → σ → Prop} (h : post .unit u) :
    Ensures refuse (MonadStateOf.set u : EStateM ε σ PUnit) s post := h

theorem modify {f : σ → σ} {post : PUnit → σ → Prop} (h : post .unit (f s)) :
    Ensures refuse (modify f : EStateM ε σ PUnit) s post := h

theorem modifyGet {f : σ → α × σ} (h : post (f s).1 (f s).2) :
    Ensures refuse (modifyGet f : EStateM ε σ α) s post := h

theorem throw {e : ε} (h : refuse e s) : Ensures refuse (throw e : EStateM ε σ α) s post := h

/-- Actions that leave the state alone, one after another. -/
theorem mapM {f : α → EStateM ε σ β} {as : List α}
    (h : ∀ a ∈ as, Ensures refuse (f a) s fun _ t => t = s) :
    Ensures refuse (as.mapM f) s fun bs t => t = s ∧ bs.length = as.length := by
  induction as with
  | nil =>
    rw [List.mapM_nil]
    exact .pure ⟨rfl, rfl⟩
  | cons a rest ih =>
    rw [List.forall_mem_cons] at h
    rw [List.mapM_cons]
    refine .bind (h.1.imp fun b t _ heq => ?_)
    subst heq
    refine .bind ((ih h.2).imp fun bs u _ hbs => .pure ?_)
    exact ⟨hbs.1, congrArg Nat.succ hbs.2⟩

end Ensures

/-! ### Actions of the analysis -/

namespace Ensures

variable {refuse : Failure → AnalysisState → Prop} {s : AnalysisState}
  {post : α → AnalysisState → Prop}

theorem store {post : Store → AnalysisState → Prop} (h : post s.store s) :
    Ensures refuse Check.store s post := h

theorem setStore {st : Store} {post : Unit → AnalysisState → Prop}
    (h : post () { s with store := st }) : Ensures refuse (Check.setStore st) s post := h

theorem fail {cause : Cause} {position : Position} (h : refuse (.error ⟨cause, position⟩) s) :
    Ensures refuse (Check.fail cause position : Check α) s post := h

theorem fault {f : Fault} (h : refuse (.fault f) s) :
    Ensures refuse (Check.fault f : Check α) s post := h

theorem ofResult {r : Except Failure α} (h : ∀ e, r = .error e → refuse e s)
    (hp : ∀ a, r = .ok a → post a s) : Ensures refuse (Check.ofResult r) s post := by
  cases r with
  | ok a => exact hp a rfl
  | error e => exact h e rfl

theorem andFinally {act : Check α} {f : AnalysisState → AnalysisState}
    (h : Ensures (fun e t => refuse e (f t)) act s fun a t => post a (f t)) :
    Ensures refuse (Check.andFinally act f) s post := by
  unfold Ensures at h
  unfold Ensures Check.andFinally
  cases hr : act s <;> rw [hr] at h <;> exact h

end Ensures

end Frontend
