import Frontend.Parser.TypeExpr
import Frontend.Proofs.Ensures
import Frontend.Proofs.Tree.Fresh
import Frontend.Proofs.Tree.Written

/-!
# What parsers consume and give out

`Mints s act k ids good` says of a parser at the stream `s` that the nodes of whatever it reads have
fresh ids, given out between the two ends of the run, that it consumes at least `k` tokens, and that
what it reads is as promised. No token that ends a file is consumed, whatever comes of the run.
Where the tokens end with an end-of-file token, a parser fails with an error and with nothing else:
a recursion bounded by the number of tokens left has enough room, and the error is that of the token
at which the cursor has stopped. Each way to combine parsers has its lemma; a node takes its own id
behind its parts.
-/

namespace Frontend

/-- The text of the token that does not fit, as an error about tokens quotes it. -/
def Cause.token? : Cause → Option String
  | .unrecognisedToken token | .unexpectedToken token | .unexpectedTokenDetailed token _
  | .numberParse token => some token
  | _ => none

namespace Parse

/-- A run passes tokens, none of which ends a file. -/
structure Passed (s t : TokenStream) : Prop where
  final : t.final = s.final
  passed : ∃ used, s.rest = used ++ t.rest ∧ ∀ token ∈ used, token.kind ≠ .eof

/-- What a run does to the stream: it gives out ids and consumes at least `k` tokens. -/
structure Took (s t : TokenStream) (k : Nat) (ids : List Nat) : Prop where
  fresh : Fresh s.nextId t.nextId ids
  final : t.final = s.final
  shorter : s.final.kind = .eof → t.rest.length + k ≤ s.rest.length

/-- A failure that reports an error about the current token, where the tokens have an end. -/
def Reported (e : Failure) (s : TokenStream) : Prop :=
  s.final.kind = .eof →
    ∃ cause, e = .error ⟨cause, s.position⟩ ∧ cause.token? = some s.current.value

/-- From the stream `s` a parser gives a result with `post`, or it fails with a report. Neither
passes the end of a file. -/
def Reads {α : Type} (act : Parse α) (s : TokenStream) (post : α → TokenStream → Prop) : Prop :=
  Ensures (fun e t => Passed s t ∧ Reported e t) act s fun a t => Passed s t ∧ post a t

/-- There are fewer than `m` tokens left, where the tokens have an end. -/
def Fits (m : Nat) (s : TokenStream) : Prop := s.final.kind = .eof → s.rest.length < m

/-- From the stream `s` a parser reads what has fresh ids and is as promised, and consumes at least
`k` tokens. -/
def Mints {α : Type} (s : TokenStream) (act : Parse α) (k : Nat) (ids : α → List Nat)
    (good : α → Prop) : Prop :=
  Reads act s fun a t => Took s t k (ids a) ∧ good a

/-- A node that takes its id behind its parts. -/
structure Numbered (info : NodeInfo) (s t : TokenStream) : Prop where
  id : info.id = s.nextId
  next : t.nextId = s.nextId + 1
  rest : t.rest = s.rest
  final : t.final = s.final

variable {α β : Type} {s t u : TokenStream} {k l m : Nat} {ids ids' : List Nat}

namespace Passed

theorem refl (s : TokenStream) : Passed s s := ⟨rfl, [], rfl, nofun⟩

theorem trans (h : Passed s t) (h' : Passed t u) : Passed s u := by
  obtain ⟨used, hs, hused⟩ := h.passed
  obtain ⟨used', ht, hused'⟩ := h'.passed
  refine ⟨h'.final.trans h.final, used ++ used', by rw [hs, ht, List.append_assoc], ?_⟩
  exact List.forall_mem_append.mpr ⟨hused, hused'⟩

/-- A token that does not end a file may be passed. -/
theorem advance (h : s.kind ≠ .eof) : Passed s s.advance := by
  refine ⟨rfl, ?_⟩
  cases hrest : s.rest with
  | nil => exact ⟨[], by simp [TokenStream.advance, hrest], nofun⟩
  | cons token rest =>
    have hcurrent : s.current = token := by simp [TokenStream.current, hrest]
    refine ⟨[token], by simp [TokenStream.advance, hrest], ?_⟩
    rintro _ (_ | ⟨_, ⟨⟩⟩)
    exact hcurrent ▸ h

end Passed

namespace Reads

variable {act : Parse α} {post post' : α → TokenStream → Prop}

theorem imp (h : Reads act s post) (hp : ∀ a t, act s = .ok a t → post a t → post' a t) :
    Reads act s post' :=
  Ensures.imp h fun a t hrun ht => ⟨ht.1, hp a t hrun ht.2⟩

theorem pure {a : α} (h : post a s) : Reads (pure a) s post := Ensures.pure ⟨.refl s, h⟩

theorem bind {f : α → Parse β} {post : β → TokenStream → Prop}
    (h : Reads act s fun a t => Reads (f a) t post) : Reads (act >>= f) s post := by
  refine Ensures.bind (Ensures.imp h fun a t _ ht => ?_)
  refine Ensures.imp_both ht.2 (fun e u hu => ?_) fun b u hu => ?_
  · exact ⟨ht.1.trans hu.1, hu.2⟩
  · exact ⟨ht.1.trans hu.1, hu.2⟩

theorem get {post : TokenStream → TokenStream → Prop} (h : post s s) :
    Reads (MonadState.get : Parse TokenStream) s post := Ensures.get ⟨.refl s, h⟩

theorem set {post : PUnit → TokenStream → Prop} (hpassed : Passed s u) (h : post .unit u) :
    Reads (MonadStateOf.set u : Parse PUnit) s post := Ensures.set ⟨hpassed, h⟩

theorem mint {post : Nat → TokenStream → Prop}
    (h : post s.nextId { s with nextId := s.nextId + 1 }) : Reads mint s post :=
  Ensures.modifyGet ⟨⟨rfl, [], rfl, nofun⟩, h⟩

theorem throw {e : Failure} (h : Reported e s) : Reads (throw e : Parse α) s post :=
  Ensures.throw ⟨.refl s, h⟩

end Reads

namespace Took

theorem nil (s : TokenStream) : Took s s 0 [] := ⟨.nil _, rfl, fun _ => Nat.le_refl _⟩

/-- Two runs, of which the first consumes enough. -/
theorem append (h : Took s t k ids) (h' : Took t u l ids') : Took s u k (ids ++ ids') := by
  refine ⟨h.fresh.append h'.fresh, h'.final.trans h.final, fun heof => ?_⟩
  have hle := h.shorter heof
  have hle' := h'.shorter (by rw [h.final]; exact heof)
  omega

/-- Two runs, of which the second consumes enough. -/
theorem andThen (h : Took s t k ids) (h' : Took t u l ids') : Took s u l (ids ++ ids') := by
  refine ⟨h.fresh.append h'.fresh, h'.final.trans h.final, fun heof => ?_⟩
  have hle := h.shorter heof
  have hle' := h'.shorter (by rw [h.final]; exact heof)
  omega

/-- A run that gives out no ids, such as that of a token, leaves those of a run before. -/
theorem token (h : Took s t k ids) (h' : Took t u l []) : Took s u k ids := by
  have happ := h.append h'
  rw [List.append_nil] at happ
  exact happ

theorem loose (h : Took s t k ids) : Took s t 0 ids :=
  ⟨h.fresh, h.final, fun heof => by have := h.shorter heof; omega⟩

theorem fits (h : Took s t k ids) (hs : Fits m s) : Fits m t := by
  intro heof
  rw [h.final] at heof
  have hle := h.shorter heof
  have hlt := hs heof
  omega

/-- A consumed token makes room for one level of nesting. -/
theorem fits_pred (h : Took s t 1 ids) (hs : Fits (m + 1) s) : Fits m t := by
  intro heof
  rw [h.final] at heof
  have hle := h.shorter heof
  have hlt := hs heof
  omega

end Took

theorem Numbered.node {info : NodeInfo} (h : Numbered info t u) (hf : Took s t k ids) :
    Took s u k (info.id :: ids) := by
  refine ⟨?_, h.final.trans hf.final, fun heof => ?_⟩
  · rw [h.id, h.next]
    exact hf.fresh.behind
  · rw [h.rest]
    exact hf.shorter heof

theorem Fits.mono (h : Fits l s) (hlm : l ≤ m) : Fits m s := fun heof =>
  Nat.lt_of_lt_of_le (h heof) hlm

theorem fits_bound (s : TokenStream) : Fits s.bound s := fun _ => by
  rw [s.bound_eq]
  exact Nat.lt_succ_self _

/-! ### Tokens -/

theorem kind_reads {post : TokenKind → TokenStream → Prop} (h : post s.kind s) :
    Reads kind s post :=
  .bind (.get (.pure h))

theorem position_reads {post : Position → TokenStream → Prop} (h : post s.position s) :
    Reads position s post :=
  .bind (.get (.pure h))

theorem ne_eof {kind : TokenKind} (h : s.kind = kind) (hk : kind ≠ .eof) :
    s.kind ≠ .eof := h ▸ hk

/-- Where the tokens have an end, something is left in front of it. -/
theorem rest_ne_nil (h : s.kind ≠ .eof) (heof : s.final.kind = .eof) : s.rest ≠ [] := by
  intro hnil
  simp only [TokenStream.kind, TokenStream.current, hnil, List.headD_nil] at h
  exact h heof

theorem advance_took (h : s.kind ≠ .eof) : Took s s.advance 1 [] := by
  refine ⟨.nil _, rfl, fun heof => ?_⟩
  have hpos := List.length_pos_iff.mpr (rest_ne_nil h heof)
  simp only [TokenStream.advance, List.length_tail]
  omega

theorem advance_reads (h : s.kind ≠ .eof) :
    Reads advance s fun token t => token = s.current ∧ Took s t 1 [] :=
  .bind (.get (.bind (.set (.advance h) (.pure ⟨rfl, advance_took h⟩))))

theorem fail_reads {post : α → TokenStream → Prop} (message : String) :
    Reads (fail message : Parse α) s post :=
  .bind (.get (.throw fun _ => ⟨_, rfl, rfl⟩))

theorem outOfFuel_reads {post : α → TokenStream → Prop} (h : Fits 0 s) :
    Reads (outOfFuel : Parse α) s post :=
  .throw fun heof => absurd (h heof) (Nat.not_lt_zero _)

theorem expectOr_reads {expected : TokenKind} (he : expected ≠ .eof) (message : String)
    (s : TokenStream) :
    Reads (expectOr expected message) s fun _ t => Took s t 1 [] := by
  refine .bind (kind_reads ?_)
  split
  · rename_i hk
    exact (advance_reads (hk ▸ he)).imp fun _ _ _ h => h.2
  · exact fail_reads message

theorem expect_reads {expected : TokenKind} (he : expected ≠ .eof) (s : TokenStream) :
    Reads (expect expected) s fun _ t => Took s t 1 [] :=
  expectOr_reads he _ s

theorem name_reads (message : String) (s : TokenStream) :
    Reads (name message) s fun _ t => Took s t 1 [] :=
  .bind ((expectOr_reads (by decide) message s).imp fun _ _ _ h => .pure h)

theorem eat_reads {wanted : TokenKind} (hw : wanted ≠ .eof) (s : TokenStream) :
    Reads (eat wanted) s fun eaten t => Took s t eaten.toNat [] := by
  refine .bind (kind_reads ?_)
  split
  · rename_i hk
    exact .bind ((advance_reads (hk ▸ hw)).imp fun _ _ _ h => .pure h.2)
  · exact .pure (.nil s)

theorem infoFrom_reads (start : Position) (s : TokenStream) :
    Reads (infoFrom start) s fun info t => Numbered info s t :=
  .bind (.get (.bind (.mint (.pure ⟨rfl, rfl, rfl, rfl⟩))))

/-! ### Combinations -/

section

variable {item : Parse α} {ids : α → List Nat} {good : α → Prop}

theorem bounded_mints {p : Nat → Parse α} (h : ∀ n, Fits n s → Mints s (p n) k ids good) :
    Mints s (bounded p) k ids good := .bind (.get (h s.bound (fits_bound s)))

/-- One item in front of others. -/
private theorem cons_good {first : α} {rest : List α}
    (hf : Took s t k (ids first) ∧ good first)
    (hr : Took t u l (rest.flatMap ids) ∧ ∀ x ∈ rest, good x) :
    Took s u k ((first :: rest).flatMap ids) ∧ ∀ x ∈ first :: rest, good x := by
  rw [List.flatMap_cons]
  exact ⟨hf.1.append hr.1, List.forall_mem_cons.mpr ⟨hf.2, hr.2⟩⟩

/-- One item alone. -/
private theorem single_good {first : α} (hf : Took s t k (ids first) ∧ good first) :
    Took s t k ([first].flatMap ids) ∧ ∀ x ∈ [first], good x :=
  cons_good hf ⟨.nil t, nofun⟩

section

variable (h : ∀ s, Fits m s → Mints s item 1 ids good)
include h

theorem commaList_mints (n : Nat) (hm : Fits m s) (hn : Fits n s) :
    Mints s (commaList item n) 1 (List.flatMap ids) fun as => as ≠ [] ∧ ∀ a ∈ as, good a := by
  induction n generalizing s with
  | zero => exact outOfFuel_reads hn
  | succ n ih =>
    rw [commaList]
    refine .bind ((h s hm).imp fun first t _ hf => ?_)
    refine .bind ((eat_reads (by decide) t).imp fun more u _ ht => ?_)
    have hf' : Took s u 1 (ids first) ∧ good first := ⟨hf.1.token ht, hf.2⟩
    split
    · refine .bind ((ih (hf'.1.fits hm) (hf'.1.fits_pred hn)).imp fun rest v _ hr => .pure ?_)
      have hall := cons_good hf' ⟨hr.1, hr.2.2⟩
      exact ⟨hall.1, List.cons_ne_nil _ _, hall.2⟩
    · have hall := single_good hf'
      exact .pure ⟨hall.1, List.cons_ne_nil _ _, hall.2⟩

theorem listUntil_mints (stops : TokenKind → Bool) (n : Nat) (hm : Fits m s) (hn : Fits n s) :
    Mints s (listUntil stops item n) 0 (List.flatMap ids) fun as => ∀ a ∈ as, good a := by
  induction n generalizing s with
  | zero => exact outOfFuel_reads hn
  | succ n ih =>
    rw [listUntil]
    refine .bind (kind_reads ?_)
    split
    · exact .pure ⟨.nil s, nofun⟩
    · refine .bind ((h s hm).imp fun first t _ hf => ?_)
      refine .bind ((eat_reads (by decide) t).imp fun more u _ ht => ?_)
      have hf' : Took s u 1 (ids first) ∧ good first := ⟨hf.1.token ht, hf.2⟩
      split
      · refine .bind ((ih (hf'.1.fits hm) (hf'.1.fits_pred hn)).imp fun rest v _ hr => .pure ?_)
        have hall := cons_good hf' hr
        exact ⟨hall.1.loose, hall.2⟩
      · have hall := single_good hf'
        exact .pure ⟨hall.1.loose, hall.2⟩

theorem introduced_mints {keyword : TokenKind} (hw : keyword ≠ .eof) (n : Nat)
    (hm : Fits (m + 1) s) (hn : Fits n s) :
    Mints s (introduced keyword item n) 0 (List.flatMap ids) fun as => ∀ a ∈ as, good a := by
  induction n generalizing s with
  | zero => exact outOfFuel_reads hn
  | succ n ih =>
    rw [introduced]
    refine .bind ((eat_reads hw s).imp fun more t _ ht => ?_)
    split
    · rename_i hmore
      subst hmore
      refine .bind ((h t (ht.fits_pred hm)).imp fun first u _ hf => ?_)
      have hf' : Took s u 1 (ids first) ∧ good first := ⟨ht.append hf.1, hf.2⟩
      refine .bind ((ih (hf'.1.fits hm) (hf'.1.fits_pred hn)).imp fun rest v _ hr => .pure ?_)
      have hall := cons_good hf' hr
      exact ⟨hall.1.loose, hall.2⟩
    · exact .pure ⟨ht.loose, nofun⟩

theorem optional_mints {keyword : TokenKind} (hw : keyword ≠ .eof) (hm : Fits (m + 1) s) :
    Mints s (optional keyword item) 0 (fun a => (a.map ids).getD []) fun o => ∀ a ∈ o, good a := by
  refine .bind ((eat_reads hw s).imp fun more t _ ht => ?_)
  split
  · rename_i hmore
    subst hmore
    refine .bind ((h t (ht.fits_pred hm)).imp fun a u _ ha => .pure ⟨(ht.append ha.1).loose, ?_⟩)
    rintro _ ⟨⟩
    exact ha.2
  · exact .pure ⟨ht.loose, nofun⟩

end

end

/-! ### Type annotations -/

/-- Annotations with fresh ids that can be written down. -/
abbrev MintsType (s : TokenStream) (act : Parse TypeExpr) : Prop :=
  Mints s act 1 TypeExpr.ids TypeExpr.Written

section

variable {nested : Power → Parse TypeExpr} (h : ∀ power s, Fits m s → MintsType s (nested power))
include h

theorem typeList_mints (close : TokenKind) (hm : Fits m s) :
    Mints s (typeList nested close) 0 TypeExpr.idsAll typesWritten := by
  refine (bounded_mints fun n hn => listUntil_mints (h .default) _ n hm hn).imp
    fun ts t _ hts => ?_
  rw [TypeExpr.idsAll_eq, typesWritten_iff]
  exact hts

theorem primaryType_mints (hm : Fits (m + 1) s) : MintsType s (primaryType nested) := by
  refine .bind ((expect_reads (by decide) s).imp fun token t _ ht => ?_)
  refine .bind ((eat_reads (by decide) t).imp fun more u _ hu => ?_)
  have hopen := ht.token hu
  have htail : ∀ {args : List TypeExpr} {v : TokenStream},
      Took s v 1 (TypeExpr.idsAll args) → typesWritten args →
      Reads (do
        return TypeExpr.primary (← infoFrom token.span.start) token.value args : Parse TypeExpr)
        v fun (a : TypeExpr) x => Took s x 1 a.ids ∧ a.Written := by
    intro args v hargs hgood
    refine .bind ((infoFrom_reads _ v).imp fun info x _ hinfo => .pure ?_)
    simp only [TypeExpr.ids, TypeExpr.Written]
    exact ⟨hinfo.node hargs, hgood⟩
  dsimp only
  split
  · refine .bind ((typeList_mints h .closeParen (hopen.fits_pred hm)).imp fun args v _ hv => ?_)
    refine .bind ((expect_reads (by decide) v).imp fun _ x _ hx => .bind (.pure ?_))
    exact htail (hopen.append (hv.1.token hx)) hv.2
  · refine .bind (.pure (htail ?_ ?_))
    · simp only [TypeExpr.idsAll]
      exact hopen
    · simp only [typesWritten]

theorem arrayType_mints (hk : s.kind ≠ .eof) (hm : Fits (m + 1) s) :
    MintsType s (arrayType nested) := by
  refine .bind ((advance_reads hk).imp fun token t _ ht => ?_)
  refine .bind ((h .default t (ht.2.fits_pred hm)).imp fun elem u _ hu => ?_)
  refine .bind ((expect_reads (by decide) u).imp fun _ v _ hv => ?_)
  refine .bind ((infoFrom_reads _ v).imp fun info x _ hinfo => .pure ?_)
  simp only [TypeExpr.ids, TypeExpr.Written]
  exact ⟨hinfo.node (ht.2.append (hu.1.token hv)), hu.2⟩

theorem dictType_mints (hk : s.kind ≠ .eof) (hm : Fits (m + 1) s) :
    MintsType s (dictType nested) := by
  refine .bind ((advance_reads hk).imp fun token t _ ht => ?_)
  have hroom := ht.2.fits_pred hm
  refine .bind ((h .default t hroom).imp fun key u _ hu => ?_)
  refine .bind ((expect_reads (by decide) u).imp fun _ v _ hv => ?_)
  have hkey := hu.1.token hv
  refine .bind ((h .default v (hkey.fits hroom)).imp fun value x _ hx => ?_)
  refine .bind ((expect_reads (by decide) x).imp fun _ y _ hy => ?_)
  refine .bind ((infoFrom_reads _ y).imp fun info z _ hinfo => .pure ?_)
  simp only [TypeExpr.ids, TypeExpr.Written]
  exact ⟨hinfo.node (ht.2.append (hkey.append (hx.1.token hy))), hu.2, hx.2⟩

theorem tupleType_mints (hk : s.kind ≠ .eof) (hm : Fits (m + 1) s) :
    MintsType s (tupleType nested) := by
  refine .bind ((advance_reads hk).imp fun token t _ ht => ?_)
  refine .bind ((typeList_mints h .closeParen (ht.2.fits_pred hm)).imp fun elems u _ hu => ?_)
  refine .bind ((expect_reads (by decide) u).imp fun _ v _ hv => ?_)
  have hall := ht.2.append (hu.1.token hv)
  split
  · simp only [TypeExpr.idsAll, List.append_nil] at hall
    exact .pure ⟨hall, ((typesWritten_iff _).mp hu.2) _ (List.mem_singleton_self _)⟩
  · rename_i hmany
    refine .bind ((infoFrom_reads _ v).imp fun info x _ hinfo => .pure ?_)
    simp only [TypeExpr.ids, TypeExpr.Written, ne_eq, List.length_eq_one_iff, not_exists]
    exact ⟨hinfo.node hall, hmany, hu.2⟩

theorem funcType_mints (hk : s.kind ≠ .eof) (hm : Fits (m + 1) s) :
    MintsType s (funcType nested) := by
  refine .bind ((advance_reads hk).imp fun keyword t _ ht => ?_)
  have hroom := ht.2.fits_pred hm
  refine .bind ((expect_reads (by decide) t).imp fun _ u _ hu => ?_)
  refine .bind ((typeList_mints h .closeParen (hu.fits hroom)).imp fun params v _ hv => ?_)
  refine .bind ((expect_reads (by decide) v).imp fun _ x _ hx => ?_)
  have hparams : Took s x 1 (TypeExpr.idsAll params) := ht.2.append (hu.append (hv.1.token hx))
  have hroom' : Fits (m + 1) x := hparams.fits hm
  have htail : ∀ {kind : FuncKind} {ret : Option TypeExpr} {y : TokenStream},
      Took x y 0 (TypeExpr.idsOption ret) → (∀ t ∈ ret, t.Written) →
      kind ≠ .lambda → (kind = .proc → ret = none) →
      Reads (do
        return TypeExpr.func (← infoFrom keyword.span.start) kind params ret : Parse TypeExpr)
        y fun (a : TypeExpr) z => Took s z 1 a.ids ∧ a.Written := by
    intro kind ret y hret hgood hkind hproc
    refine .bind ((infoFrom_reads _ y).imp fun info z _ hinfo => .pure ?_)
    have hall := hparams.append hret
    cases ret with
    | none =>
      simp only [TypeExpr.idsOption, Option.map_none, Option.getD_none, List.append_nil] at hall
      simp only [TypeExpr.ids, TypeExpr.Written]
      exact ⟨hinfo.node hall, hkind, hv.2⟩
    | some ret =>
      simp only [TypeExpr.ids, TypeExpr.Written]
      have hfunc : kind = .func := by cases kind <;> simp_all
      exact ⟨hinfo.node hall, hfunc, hv.2, hgood ret rfl⟩
  dsimp only
  split
  · split
    · rename_i hfunc
      cases hfunc
    · exact htail (.nil x) nofun nofun fun _ => rfl
  · split
    · refine .bind ((optional_mints (h .default) (by decide) hroom').imp fun ret _ _ ho => ?_)
      exact htail ho.1 ho.2 nofun nofun
    · rename_i hfunc
      exact absurd rfl hfunc

theorem refType_mints (hk : s.kind ≠ .eof) (hm : Fits (m + 1) s) :
    MintsType s (refType nested) := by
  refine .bind ((advance_reads hk).imp fun token t _ ht => ?_)
  refine .bind ((h .member t (ht.2.fits_pred hm)).imp fun inner u _ hu => ?_)
  refine .bind ((infoFrom_reads _ u).imp fun info v _ hinfo => .pure ?_)
  simp only [TypeExpr.ids, TypeExpr.Written]
  exact ⟨hinfo.node (ht.2.append hu.1), hu.2⟩

theorem typeOperand_mints (hm : Fits (m + 1) s) : MintsType s (typeOperand nested) := by
  refine .bind (kind_reads ?_)
  split
  · exact primaryType_mints h hm
  · next hk => exact arrayType_mints h (ne_eof hk (by decide)) hm
  · next hk => exact dictType_mints h (ne_eof hk (by decide)) hm
  · next hk => exact tupleType_mints h (ne_eof hk (by decide)) hm
  · next hk => exact funcType_mints h (ne_eof hk (by decide)) hm
  · next hk => exact funcType_mints h (ne_eof hk (by decide)) hm
  · next hk => exact refType_mints h (ne_eof hk (by decide)) hm
  · exact fail_reads _

end

/-- The question marks behind an annotation number the nodes around it. -/
theorem typeSuffixes_mints (power : Power) {left : TypeExpr} (n : Nat) (hn : Fits n t)
    (hleft : Took s t 1 left.ids ∧ left.Written) :
    Reads (typeSuffixes power left n) t fun a u => Took s u 1 a.ids ∧ a.Written := by
  induction n generalizing left t with
  | zero => exact outOfFuel_reads hn
  | succ n ih =>
    rw [typeSuffixes]
    split
    · exact .pure hleft
    · refine .bind ((eat_reads (by decide) t).imp fun more u _ hu => ?_)
      split
      · rename_i hmore
        subst hmore
        refine .bind ((infoFrom_reads _ u).imp fun info v _ hinfo => ih ?_ ?_)
        · intro heof
          rw [hinfo.final] at heof
          rw [hinfo.rest]
          exact hu.fits_pred hn heof
        · simp only [TypeExpr.ids, TypeExpr.Written]
          exact ⟨hinfo.node (hleft.1.token hu), hleft.2⟩
      · exact .pure ⟨hleft.1.token hu, hleft.2⟩

theorem typeExprAt_mints (n : Nat) (power : Power) (hn : Fits n s) :
    MintsType s (typeExprAt n power) := by
  induction n generalizing power s with
  | zero => exact outOfFuel_reads hn
  | succ n ih =>
    refine .bind ((typeOperand_mints (fun power _ => ih power) hn).imp fun left t _ hleft => ?_)
    exact .bind (.get (typeSuffixes_mints power t.bound (fits_bound t) hleft))

theorem typeExpr_mints (power : Power) (s : TokenStream) : MintsType s (typeExpr power) :=
  bounded_mints fun n hn => typeExprAt_mints n power hn

theorem optionalType_mints (s : TokenStream) :
    Mints s optionalType 0 TypeExpr.idsOption fun o => ∀ t ∈ o, t.Written :=
  optional_mints (fun s _ => typeExpr_mints .default s) (by decide)
    ((fits_bound s).mono (Nat.le_succ _))

end Parse

end Frontend
