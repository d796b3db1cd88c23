import Frontend.Parser.TypeExpr
import Frontend.Proofs.Ensures
import Frontend.Proofs.Rendering.Shown
import Frontend.Proofs.Tree.Erase

/-!
# Reading what has been rendered

`Recovers act text stop good` says of a parser that it reads `text` wherever it stands in front of a
token of a kind with `stop`, reads no further, and gives a result with `good`. Each way to combine
parsers has its lemma, so a production is shown to recover what it reads by following its text.
-/

namespace Frontend

/-- What the grammar sees of the tokens that are left. -/
def TokenStream.ahead (s : TokenStream) : List Lexeme := s.rest.map Token.lexeme

namespace Parse

/-- From the stream `s` a parser gives a result with `post`. -/
abbrev Yields {α : Type} (act : Parse α) (s : TokenStream) (post : α → TokenStream → Prop) : Prop :=
  Ensures (fun _ _ => False) act s post

/-- A parser reads a text in front of a token that stops it, and gives a good result. -/
def Recovers {α : Type} (act : Parse α) (text : List Lexeme) (stop : TokenKind → Prop)
    (good : α → Prop) : Prop :=
  ∀ ⦃s : TokenStream⦄ ⦃k : TokenKind⦄ ⦃v : String⦄ ⦃more : List Lexeme⦄, stop k →
    s.ahead = text ++ (k, v) :: more →
    Yields act s fun a t => t.ahead = (k, v) :: more ∧ good a

/-- The first token of a text is of a kind with `ok`. -/
def Begins (ok : TokenKind → Prop) (text : List Lexeme) : Prop :=
  ∃ k v rest, text = (k, v) :: rest ∧ ok k

variable {α β : Type} {s : TokenStream} {k : TokenKind} {v : String} {more text : List Lexeme}

/-! ### Tokens -/

theorem current_lexeme (h : s.ahead = (k, v) :: more) :
    s.current.lexeme = (k, v) ∧ s.advance.ahead = more := by
  unfold TokenStream.ahead at h ⊢
  cases hrest : s.rest with
  | nil =>
    rw [hrest] at h
    cases h
  | cons token rest =>
    rw [hrest, List.map_cons, List.cons.injEq] at h
    simp only [TokenStream.current, TokenStream.advance, hrest, List.headD_cons, List.tail_cons]
    exact h

theorem kind_eq (h : s.ahead = (k, v) :: more) : s.kind = k :=
  congrArg Prod.fst (current_lexeme h).1

/-- The text of a token shows where tokens of its kind differ. -/
theorem value_eq {token : Token} (h : token.lexeme = (k, v)) (hk : k.hasText = true) :
    token.value = v := by
  obtain ⟨hkind, hvalue⟩ := Prod.mk.inj h
  rw [hkind, if_pos hk] at hvalue
  exact hvalue

theorem kind_yields {post : TokenKind → TokenStream → Prop} (h : s.ahead = (k, v) :: more)
    (hp : post k s) : Yields kind s post :=
  .bind (.get (.pure (by rw [kind_eq h]; exact hp)))

theorem position_yields {post : Position → TokenStream → Prop} (hp : post s.position s) :
    Yields position s post :=
  .bind (.get (.pure hp))

theorem advance_yields {post : Token → TokenStream → Prop} (h : s.ahead = (k, v) :: more)
    (hp : ∀ token t, token.lexeme = (k, v) → t.ahead = more → post token t) :
    Yields advance s post :=
  .bind (.get (.bind (.set (.pure (hp _ _ (current_lexeme h).1 (current_lexeme h).2)))))

theorem expectOr_yields {message : String} {post : Token → TokenStream → Prop}
    (h : s.ahead = (k, v) :: more)
    (hp : ∀ token t, token.lexeme = (k, v) → t.ahead = more → post token t) :
    Yields (expectOr k message) s post := by
  refine .bind (kind_yields h ?_)
  rw [if_pos rfl]
  exact advance_yields h hp

theorem expect_yields {post : Token → TokenStream → Prop} (h : s.ahead = (k, v) :: more)
    (hp : ∀ token t, token.lexeme = (k, v) → t.ahead = more → post token t) :
    Yields (expect k) s post :=
  expectOr_yields h hp

theorem name_yields {message : String} {post : String → TokenStream → Prop}
    (h : s.ahead = (.identifier, v) :: more) (hp : ∀ t, t.ahead = more → post v t) :
    Yields (name message) s post :=
  .bind (expectOr_yields h fun _ t htoken ht => .pure (value_eq htoken rfl ▸ hp t ht))

theorem eat_yields {post : Bool → TokenStream → Prop} (h : s.ahead = (k, v) :: more)
    (hp : ∀ t, t.ahead = more → post true t) : Yields (eat k) s post := by
  refine .bind (kind_yields h ?_)
  rw [if_pos rfl]
  exact .bind (advance_yields h fun _ t _ ht => .pure (hp t ht))

/-- A token of another kind is left where it is. -/
theorem eat_skips {wanted : TokenKind} {post : Bool → TokenStream → Prop}
    (h : s.ahead = (k, v) :: more) (hk : k ≠ wanted) (hp : post false s) :
    Yields (eat wanted) s post := by
  refine .bind (kind_yields h ?_)
  rw [if_neg hk]
  exact .pure hp

/-- A node gets some identity and location, and nothing is consumed. -/
theorem infoFrom_yields {start : Position} {post : NodeInfo → TokenStream → Prop}
    (hp : ∀ info t, t.ahead = s.ahead → post info t) : Yields (infoFrom start) s post :=
  .bind (.get (.bind (.modifyGet (.pure (hp _ _ rfl)))))

/-! ### Combinations -/

section

variable {stop : TokenKind → Prop} {good good' : α → Prop}

theorem Recovers.imp {act : Parse α} (h : Recovers act text stop good)
    (hp : ∀ a, good a → good' a) : Recovers act text stop good' :=
  fun _ _ _ _ hk hs => Ensures.imp (h hk hs) fun a _ _ ha => ⟨ha.1, hp a ha.2⟩

/-- What follows may be any text that begins with a token that stops the parser. -/
theorem Recovers.before {act : Parse α} (h : Recovers act text stop good) {next : List Lexeme}
    (hnext : Begins stop next) (hs : s.ahead = text ++ next) :
    Yields act s fun a t => t.ahead = next ∧ good a := by
  obtain ⟨k, v, rest, rfl, hk⟩ := hnext
  exact h hk hs

/-- The bound taken from the tokens left is greater than the length of any text among them. -/
theorem bounded_recovers {p : Nat → Parse α}
    (h : ∀ n, text.length < n → Recovers (p n) text stop good) :
    Recovers (bounded p) text stop good := by
  intro s k v more hk hs
  refine .bind (.get (h s.bound ?_ hk hs))
  have hlength := congrArg List.length hs
  rw [TokenStream.ahead, List.length_map, List.length_append] at hlength
  rw [s.bound_eq]
  omega

variable {γ : Type} {item : Parse α} {view : α → β} {want : γ → β}

theorem cons_view {a : γ} {b : α} {as : List γ} {bs : List α} (h : view b = want a)
    (hs : bs.map view = as.map want) : (b :: bs).map view = (a :: as).map want := by
  rw [List.map_cons, List.map_cons, h, hs]

variable {render : γ → List Lexeme}

theorem length_le_listed (as : List γ) (h : ∀ a, render a ≠ []) :
    as.length ≤ (listed (as.map render)).length := by
  induction as with
  | nil => exact Nat.zero_le _
  | cons a rest ih =>
    cases rest with
    | nil => exact List.length_pos_iff.mpr (h a)
    | cons b rest =>
      simp only [List.map_cons, List.length_cons] at ih
      simp only [List.map_cons, listed, List.length_append, List.length_cons]
      omega

/-- What reads each item reads a list of them with listed between. -/
theorem commaList_recovers (stop : TokenKind → Prop) {as : List γ} {n : Nat} (hne : as ≠ [])
    (hn : as.length ≤ n) (hcomma : stop .comma)
    (h : ∀ a ∈ as, Recovers item (render a) stop fun b => view b = want a) :
    Recovers (commaList item n) (listed (as.map render)) (fun k => stop k ∧ k ≠ .comma)
      fun bs => bs.map view = as.map want := by
  intro s k v more hk hs
  induction as generalizing n s with
  | nil => exact absurd rfl hne
  | cons a rest ih =>
    obtain ⟨n, rfl⟩ : ∃ m, n = m + 1 := ⟨n - 1, by rw [List.length_cons] at hn; omega⟩
    rw [List.forall_mem_cons] at h
    rw [commaList]
    cases rest with
    | nil =>
      refine .bind ((h.1 hk.1 hs).imp fun b t _ hb => .bind (eat_skips hb.1 hk.2 ?_))
      exact .pure ⟨hb.1, congrArg (· :: []) hb.2⟩
    | cons next rest =>
      rw [List.map_cons, List.map_cons, listed, List.append_assoc, List.cons_append,
        ← List.map_cons] at hs
      refine .bind ((h.1 hcomma hs).imp fun b t _ hb => .bind (eat_yields hb.1 fun u hu => ?_))
      exact .bind ((ih (List.cons_ne_nil _ _) (Nat.le_of_succ_le_succ hn) h.2 hu).imp
        fun bs w _ hbs => .pure ⟨hbs.1, cons_view hb.2 hbs.2⟩)

/-- What reads each item reads a list of them up to a closing token. -/
theorem listUntil_recovers (stop : TokenKind → Prop) {stops : TokenKind → Bool} {as : List γ}
    {n : Nat} (hn : as.length < n) (hcomma : stop .comma)
    (hfirst : ∀ a ∈ as, Begins (fun k => stops k = false) (render a))
    (h : ∀ a ∈ as, Recovers item (render a) stop fun b => view b = want a) :
    Recovers (listUntil stops item n) (listed (as.map render))
      (fun k => stop k ∧ stops k = true ∧ k ≠ .comma) fun bs => bs.map view = as.map want := by
  intro s k v more hk hs
  induction as generalizing n s with
  | nil =>
    obtain ⟨n, rfl⟩ : ∃ m, n = m + 1 := ⟨n - 1, by omega⟩
    rw [listUntil]
    refine .bind (kind_yields hs ?_)
    rw [if_pos hk.2.1]
    exact .pure ⟨hs, rfl⟩
  | cons a rest ih =>
    obtain ⟨n, rfl⟩ : ∃ m, n = m + 1 := ⟨n - 1, by omega⟩
    rw [List.forall_mem_cons] at h hfirst
    rw [listUntil]
    obtain ⟨k₁, v₁, tail, htext, hopen⟩ := hfirst.1
    have hhead : ∃ others, s.ahead = (k₁, v₁) :: others := by
      rw [hs]
      cases rest <;> simp [listed, htext]
    obtain ⟨others, hhead⟩ := hhead
    refine .bind (kind_yields hhead ?_)
    rw [if_neg (by rw [hopen]; exact Bool.false_ne_true)]
    cases rest with
    | nil =>
      refine .bind ((h.1 hk.1 hs).imp fun b t _ hb => .bind (eat_skips hb.1 hk.2.2 ?_))
      exact .pure ⟨hb.1, congrArg (· :: []) hb.2⟩
    | cons next rest =>
      rw [List.map_cons, List.map_cons, listed, List.append_assoc, List.cons_append,
        ← List.map_cons] at hs
      refine .bind ((h.1 hcomma hs).imp fun b t _ hb => .bind (eat_yields hb.1 fun u hu => ?_))
      exact .bind ((ih (Nat.lt_of_succ_lt_succ hn) hfirst.2 h.2 hu).imp
        fun bs w _ hbs => .pure ⟨hbs.1, cons_view hb.2 hbs.2⟩)

/-- What reads each item reads items that a keyword introduces. -/
theorem introduced_recovers (stop : TokenKind → Prop) {keyword : TokenKind} {as : List γ}
    {n : Nat} (hn : as.length < n) (hkeyword : stop keyword)
    (h : ∀ a ∈ as, Recovers item (render a) stop fun b => view b = want a) :
    Recovers (introduced keyword item n) (as.flatMap fun a => sign keyword :: render a)
      (fun k => stop k ∧ k ≠ keyword) fun bs => bs.map view = as.map want := by
  intro s k v more hk hs
  induction as generalizing n s with
  | nil =>
    obtain ⟨n, rfl⟩ : ∃ m, n = m + 1 := ⟨n - 1, by omega⟩
    rw [introduced]
    exact .bind (eat_skips hs hk.2 (.pure ⟨hs, rfl⟩))
  | cons a rest ih =>
    obtain ⟨n, rfl⟩ : ∃ m, n = m + 1 := ⟨n - 1, by omega⟩
    rw [List.forall_mem_cons] at h
    rw [introduced]
    rw [List.flatMap_cons, List.append_assoc, List.cons_append] at hs
    refine .bind (eat_yields hs fun t ht => ?_)
    rw [if_pos rfl]
    have hnext : Begins stop
        ((rest.flatMap fun a => sign keyword :: render a) ++ (k, v) :: more) := by
      cases rest with
      | nil => exact ⟨k, v, more, rfl, hk.1⟩
      | cons b rest => exact ⟨keyword, "", _, rfl, hkeyword⟩
    refine .bind ((h.1.before hnext ht).imp fun b u _ hb => ?_)
    exact .bind ((ih (Nat.lt_of_succ_lt_succ hn) h.2 hb.1).imp
      fun bs w _ hbs => .pure ⟨hbs.1, cons_view hb.2 hbs.2⟩)

/-- What reads an item reads one behind a keyword, or none where the keyword is missing. -/
theorem optional_recovers (stop : TokenKind → Prop) {keyword : TokenKind} {o : Option γ}
    (h : ∀ a ∈ o, Recovers item (render a) stop fun b => view b = want a) :
    Recovers (optional keyword item) ((o.map fun a => sign keyword :: render a).getD [])
      (fun k => stop k ∧ k ≠ keyword) fun b => b.map view = o.map want := by
  intro s k v more hk hs
  cases o with
  | none => exact .bind (eat_skips hs hk.2 (.pure ⟨hs, rfl⟩))
  | some a =>
    refine .bind (eat_yields hs fun t ht => ?_)
    rw [if_pos rfl]
    exact .bind ((h a rfl hk.1 ht).imp fun b u _ hb => .pure ⟨hb.1, congrArg some hb.2⟩)

end

end Parse

end Frontend
