import Frontend.Proofs.Analysis.Stateless
import Frontend.Proofs.Types.Kept

/-!
# Actions that keep types proper

`Proceeds` says of an action that it goes on to a state with all that the analysis keeps, or gives
up at a place of the source text. It is closed under the ways to build an action; checks that look
at types and positions only are covered by `Yields`.
-/

namespace Frontend

/-- The analysis may give up with an error at a place. It never asks for the definition of a builtin
function. -/
def Failure.Admitted (place : Position → Prop) : Failure → Prop
  | .error e => place e.position
  | .fault f => ∀ name, f ≠ .builtinDeclaration name

/-- The analysis gives up, and what it keeps is still there. -/
structure Refused (p : Program) (l : Terrain) (e : Failure) (t : AnalysisState) : Prop where
  cause : e.Admitted l.place
  kept : t.Kept p l

/-- A state in which code is analysed in a scope that does not lie in a template. -/
structure Standing (p : Program) (g : Ground) (scope : ScopeId) (s : AnalysisState) : Prop where
  kept : s.Kept p g.toTerrain
  roster : s.Roster
  scope : s.store.Concrete scope
  plays : ∀ role node, g.plays role node → Plays p s role node

/-- In such a state, an action leads to another one with what is promised of its result, or the
analysis gives up. -/
def Proceeds {α : Type} (p : Program) (g : Ground) (scope : ScopeId) (act : Check α)
    (s : AnalysisState) (post : α → AnalysisState → Prop) : Prop :=
  Standing p g scope s → Ensures (Refused p g.toTerrain) act s fun a t =>
    s.Extends t ∧ Standing p g scope t ∧ post a t

/-- A result is as promised, or it is a failure at a place. -/
structure Results {α : Type} (place : Position → Prop) (r : Except Failure α) (good : α → Prop) :
    Prop where
  ok : ∀ a, r = .ok a → good a
  error : ∀ e, r = .error e → e.Admitted place

/-- A check that knows nothing of the state gives what is as promised, or fails at a place. -/
def Yields {α : Type} (place : Position → Prop) (act : Check α) (good : α → Prop) : Prop :=
  ∃ r, act = Check.ofResult r ∧ Results place r good

variable {p : Program} {g : Ground} {scope : ScopeId} {s t : AnalysisState} {α β : Type}

/-- Whatever changes the state as it should leads to another state of the kind. -/
theorem Standing.extend (h : Standing p g scope s) (he : s.Extends t)
    (hk : t.Kept p g.toTerrain) (hr : t.Roster) : Standing p g scope t :=
  ⟨hk, hr, h.scope.grows he.store, fun role node hn =>
    (h.plays role node hn).extends he⟩

theorem Standing.inner {inner : ScopeId} (h : Standing p g scope s)
    (hi : s.store.Concrete inner) : Standing p g inner s := ⟨h.kept, h.roster, hi, h.plays⟩

namespace Results

variable {place : Position → Prop} {r : Except Failure α} {good : α → Prop}

theorem pure {a : α} (h : good a) : Results place (pure a) good := by
  refine ⟨?_, nofun⟩
  rintro _ ⟨⟩
  exact h

theorem throw {e : Failure} (h : e.Admitted place) : Results place (throw e) good := by
  refine ⟨nofun, ?_⟩
  rintro _ ⟨⟩
  exact h

theorem bind {f : α → Except Failure β} {good' : β → Prop} (h : Results place r good)
    (hf : ∀ a, good a → Results place (f a) good') : Results place (r >>= f) good' := by
  cases r with
  | ok a => exact hf a (h.ok a rfl)
  | error e => exact .throw (h.error e rfl)

theorem of_answers {r : Except Error α} (h : Answers place r good) :
    Results place (r.mapError Failure.error) good := by
  cases r with
  | ok a => exact .pure (h.ok a rfl)
  | error e => exact .throw (h.error e rfl)

end Results

namespace Yields

variable {place : Position → Prop} {act : Check α} {good good' : α → Prop}

theorem pure {a : α} (h : good a) : Yields place (pure a) good := ⟨.ok a, rfl, .pure h⟩

theorem fail {cause : Cause} {position : Position} (h : place position) :
    Yields place (Check.fail cause position : Check α) good :=
  ⟨.error (.error ⟨cause, position⟩), rfl, .throw h⟩

theorem imp (h : Yields place act good) (hg : ∀ a, good a → good' a) :
    Yields place act good' := by
  obtain ⟨r, rfl, hr⟩ := h
  exact ⟨r, rfl, fun a ha => hg a (hr.ok a ha), hr.error⟩

theorem bind {f : α → Check β} {good' : β → Prop} (h : Yields place act good)
    (hf : ∀ a, good a → Yields place (f a) good') : Yields place (act >>= f) good' := by
  obtain ⟨r, rfl, hr⟩ := h
  cases r with
  | ok a =>
    obtain ⟨r', heq, hr'⟩ := hf a (hr.ok a rfl)
    exact ⟨r', heq, hr'⟩
  | error e => exact ⟨.error e, rfl, .throw (hr.error e rfl)⟩

/-- The type that an annotation denotes is proper. -/
theorem denoted {written : TypeExpr} (h : written.Regular g) :
    Yields g.place (Check.denoted written) Ty.Proper := ⟨_, rfl, .of_answers h.resolve⟩

theorem denoted? {written : Option TypeExpr} (h : ∀ t ∈ written, t.Regular g) :
    Yields g.place (Check.denoted? written) HintProper := by
  cases written with
  | none => exact .pure hintProper_none
  | some written => exact .bind (denoted (h written rfl)) fun _ ht => .pure (hintProper_some ht)

/-- A check leaves what is kept as it is. -/
theorem ensures {l : Terrain} (h : Yields l.place act good) (hk : s.Kept p l) :
    Ensures (Refused p l) act s fun a t => t = s ∧ good a := by
  obtain ⟨r, rfl, hr⟩ := h
  exact .ofResult (fun e he => ⟨hr.error e he, hk⟩) fun a ha => ⟨rfl, hr.ok a ha⟩

end Yields

/-! ### Ways to build an action -/

namespace Proceeds

variable {act : Check α} {post post' : α → AnalysisState → Prop}

theorem standing (h : Standing p g scope s → Proceeds p g scope act s post) :
    Proceeds p g scope act s post := fun hs => h hs hs

theorem imp (h : Proceeds p g scope act s post)
    (hp : ∀ a t, s.Extends t → post a t → post' a t) : Proceeds p g scope act s post' :=
  fun hs => (h hs).imp fun a t _ ht => ⟨ht.1, ht.2.1, hp a t ht.1 ht.2.2⟩

theorem pure {a : α} (h : post a s) : Proceeds p g scope (pure a) s post :=
  fun hs => .pure ⟨.refl s, hs, h⟩

theorem bind {f : α → Check β} {post' : β → AnalysisState → Prop}
    (h : Proceeds p g scope act s post)
    (hf : ∀ a t, s.Extends t → post a t → Proceeds p g scope (f a) t post') :
    Proceeds p g scope (act >>= f) s post' :=
  fun hs => .bind ((h hs).imp fun a t _ ht => (hf a t ht.1 ht.2.2 ht.2.1).imp
    fun _ _ _ hu => ⟨ht.1.trans hu.1, hu.2⟩)

theorem map {f : α → β} {post : β → AnalysisState → Prop}
    (h : Proceeds p g scope act s fun a t => post (f a) t) :
    Proceeds p g scope (f <$> act) s post := fun hs => .map (h hs)

theorem fail {cause : Cause} {position : Position} (h : g.place position) :
    Proceeds p g scope (Check.fail cause position : Check α) s post :=
  fun hs => .fail ⟨h, hs.kept⟩

theorem fault {f : Fault} (h : ∀ name, f ≠ .builtinDeclaration name) :
    Proceeds p g scope (Check.fault f : Check α) s post := fun hs => .fault ⟨h, hs.kept⟩

theorem yields {good : α → Prop} (h : Yields g.place act good) :
    Proceeds p g scope act s fun a _ => good a := by
  obtain ⟨r, rfl, hr⟩ := h
  exact fun hs => .ofResult (fun e he => ⟨hr.error e he, hs.kept⟩)
    fun a ha => ⟨.refl s, hs, hr.ok a ha⟩

/-- A check comes first. -/
theorem check {good : α → Prop} {f : α → Check β} {post' : β → AnalysisState → Prop}
    (h : Yields g.place act good) (hf : ∀ a, good a → Proceeds p g scope (f a) s post') :
    Proceeds p g scope (act >>= f) s post' := by
  obtain ⟨r, rfl, hr⟩ := h
  cases r with
  | ok a => exact hf a (hr.ok a rfl)
  | error e => exact fun hs => .bind (.throw ⟨hr.error e rfl, hs.kept⟩)

/-- A look at the state comes first. -/
theorem get {f : AnalysisState → Check β} {post : β → AnalysisState → Prop}
    (h : Proceeds p g scope (f s) s post) :
    Proceeds p g scope (MonadState.get >>= f) s post := fun hs => .bind (.get (h hs))

theorem store {f : Store → Check β} {post : β → AnalysisState → Prop}
    (h : Proceeds p g scope (f s.store) s post) :
    Proceeds p g scope (Check.store >>= f) s post := fun hs => .bind (.store (h hs))

/-- A look at the symbol of a function comes first. -/
theorem func {id : FuncId} {f : FuncSymbol → Check β} {post : β → AnalysisState → Prop}
    (h : ∀ symbol, s.store.func? id = some symbol → symbol.Kept p g.toTerrain s →
      Proceeds p g scope (f symbol) s post) :
    Proceeds p g scope (Check.func id >>= f) s post := by
  refine fun hs => .bind (.bind (.store ?_))
  split
  · next symbol hf => exact .pure (h symbol hf (hs.kept.func hf) hs)
  · exact .fault ⟨nofun, hs.kept⟩

theorem progress? {node : Nat} {f : Option Progress → Check β}
    {post : β → AnalysisState → Prop} (h : ∀ progress, Proceeds p g scope (f progress) s post) :
    Proceeds p g scope (Check.progress? node >>= f) s post :=
  fun hs => .bind (.bind (.get (.pure (h _ hs))))

/-- A change of the state that keeps what is to be kept. -/
theorem change {f : AnalysisState → AnalysisState}
    (h : Standing p g scope s → s.Extends (f s) ∧ (f s).Kept p g.toTerrain ∧ (f s).Roster) :
    Proceeds p g scope (modify f) s fun _ _ => True :=
  fun hs => .modify ⟨(h hs).1, hs.extend (h hs).1 (h hs).2.1 (h hs).2.2, trivial⟩

/-- Such a change, with something to say of the state behind it. -/
theorem modify {f : AnalysisState → AnalysisState} {post : PUnit → AnalysisState → Prop}
    (h : Standing p g scope s → s.Extends (f s) ∧ (f s).Kept p g.toTerrain ∧ (f s).Roster)
    (hp : post .unit (f s)) : Proceeds p g scope (modify f) s post :=
  fun hs => .modify ⟨(h hs).1, hs.extend (h hs).1 (h hs).2.1 (h hs).2.2, hp⟩

/-- What is done in another scope. -/
theorem inner {inner : ScopeId} (hi : s.store.Concrete inner)
    (h : Proceeds p g inner act s post) : Proceeds p g scope act s post :=
  fun hs => (h (hs.inner hi)).imp fun _ _ _ ht =>
    ⟨ht.1, ht.2.1.inner (hs.scope.grows ht.1.store), ht.2.2⟩

end Proceeds

/-! ### Checks -/

namespace Check

variable {place : Position → Prop} {position : Position}

theorem expectType_yields (hp : place position) (expected received : Ty) :
    Yields place (expectType expected received position) fun _ => expected = received := by
  unfold expectType
  split
  · next heq => exact .pure heq
  · exact .fail hp

theorem expectTypeIf_yields (hp : place position) (expected : Option Ty) (received : Ty) :
    Yields place (expectTypeIf expected received position) fun _ => True := by
  cases expected with
  | none => exact .pure trivial
  | some type => exact (expectType_yields hp type received).imp fun _ _ => trivial

theorem expectOperand_yields (hp : place position) (op : BinaryOp) (type : Ty) :
    Yields place (expectOperand op type position) fun _ => True := by
  unfold expectOperand
  split
  · exact .fail hp
  · exact .pure trivial

theorem takeApart_yields (hp : place position) (count : Nat) {type : Ty} (ht : type.Proper) :
    Yields place (takeApart count type position) typesProper := by
  unfold takeApart
  split
  · simp only [Ty.Proper] at ht
    split
    · exact .pure ht.2
    · exact .fail hp
  · exact .fail hp

theorem loopTypes_yields (hp : place position) (count : Nat) {type : Ty} (ht : type.Proper) :
    Yields place (loopTypes count type position) typesProper := by
  unfold loopTypes
  split
  · exact .pure (by simpa only [typesProper, and_true] using ht)
  · exact takeApart_yields hp count ht

theorem indexType_yields {receiver index : Expr} (hr : place receiver.position)
    (hi : place index.position) {receiverType : Ty} (ht : receiverType.Proper) (type : Ty) :
    Yields place (indexType receiver index receiverType type) Ty.Proper := by
  unfold indexType
  split
  · simp only [Ty.Proper] at ht
    split
    · exact .pure ht
    · exact .fail hi
  · split
    · exact .pure (by simp only [Ty.Proper])
    · exact .fail hi
  · simp only [Ty.Proper] at ht
    exact .bind (expectType_yields hi _ _) fun _ _ => .pure ht.2
  · simp only [Ty.Proper, typesProper_iff] at ht
    split
    · next elem helem =>
      obtain ⟨i, -, helem⟩ := Option.bind_eq_some_iff.mp helem
      exact .pure (ht.2 elem (List.mem_of_getElem? helem))
    · exact .fail hi
  · exact .fail hr

theorem callValue_yields {site : NodeInfo} {callee : Expr} (hs : place site.span.start)
    (hc : place callee.position) {type : Ty} (ht : type.Proper) (label : String)
    (args : List Ty) : Yields place (callValue site callee type label args) Ty.Proper := by
  unfold callValue
  split
  · split
    · exact .pure ht.ofFunc.2.getD
    · exact .fail hs
  · exact .fail hc

theorem declaredTypes_yields {decls : List VarDecl} (hd : ∀ d ∈ decls, place d.info.span.start)
    {explicit : List (Option Ty)} (he : HintsProper explicit) :
    Yields place (declaredTypes decls explicit) typesProper := by
  induction decls generalizing explicit with
  | nil => exact .pure (by simp only [typesProper])
  | cons d rest ih =>
    rw [List.forall_mem_cons] at hd
    match explicit, he with
    | [], _ => exact .pure (by simp only [typesProper])
    | none :: types, _ => exact .fail hd.1
    | some type :: types, he =>
      refine .bind (ih hd.2 he.tail) fun types htypes => .pure ?_
      simp only [typesProper]
      exact ⟨he.headD type rfl, htypes⟩

theorem lambdaParam_yields {q : Param} (hq : q.Regular g) {hints : List Ty}
    (hh : typesProper hints) : Yields g.place (lambdaParam q hints) Ty.Proper := by
  unfold lambdaParam
  split
  · next written hwritten => exact .denoted (hq.type written hwritten)
  · rw [typesProper] at hh
    split
    · exact .fail hq.info.place
    · exact .pure hh.1
  · exact .fail hq.info.place

theorem lambdaParams_yields {params : List Param} (hp : ∀ q ∈ params, q.Regular g)
    {hints : List Ty} (hh : typesProper hints) :
    Yields g.place (lambdaParams params hints) fun types =>
      typesProper types ∧ types.length = params.length := by
  induction params generalizing hints with
  | nil => exact .pure ⟨by simp only [typesProper], rfl⟩
  | cons q rest ih =>
    rw [List.forall_mem_cons] at hp
    have htail : typesProper hints.tail := by
      rw [typesProper_iff] at hh ⊢
      exact fun t ht => hh t (List.mem_of_mem_tail ht)
    refine .bind (lambdaParam_yields hp.1 hh) fun type htype => ?_
    refine .bind (ih hp.2 htail) fun types htypes => ?_
    refine .pure ⟨?_, congrArg Nat.succ htypes.2⟩
    simp only [typesProper]
    exact ⟨htype, htypes.1⟩

end Check

end Frontend
