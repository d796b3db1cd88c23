import Frontend.Parser.Expr
import Frontend.Proofs.Ensures
import Frontend.Proofs.Parser.Laid

/-!
# What is read stands in the tokens consumed

`Makes s act k pieces` says of a parser at the stream `s` that it consumes at least `k` tokens and
that what it gives, in source order, stands in just these tokens. A node that began at the current
token and ends with the last consumed one runs over all of them; one that an operator makes begins
with its left side, behind parentheses that may stand in front of it. Along the grammar this is
shown of expressions.
-/

namespace Frontend.Parse

variable {α : Type} {s t u : TokenStream} {k l : Nat} {ps qs : List Piece}

/-- What holds of a result and of the stream behind it, where a parser gives one. -/
def Delivers (act : Parse α) (s : TokenStream) (post : α → TokenStream → Prop) : Prop :=
  Ensures (fun _ _ => True) act s post

/-- Between two streams at least `k` tokens are consumed, and the pieces stand in these tokens.
Nothing is said of a run that has come to the end of all tokens, where the last one is shown over
and over. -/
structure Made (s t : TokenStream) (k : Nat) (ps : List Piece) : Prop where
  suffix : t.rest <:+ s.rest
  laid : t.rest ≠ [] → ∃ used, s.rest = used ++ t.rest ∧ k ≤ used.length ∧
    t.lastEnd = (used.getLast?.map (·.span.stop)).getD s.lastEnd ∧ Laid used ps

/-- A parser gives what stands in the tokens that it consumes. -/
def Makes (s : TokenStream) (act : Parse α) (k : Nat) (pieces : α → List Piece) : Prop :=
  Delivers act s fun a t => Made s t k (pieces a)

/-- A node that began at `start` and ends with the last consumed token. -/
structure Placed (info : NodeInfo) (start : Position) (s t : TokenStream) : Prop where
  span : info.span = ⟨start, s.lastEnd⟩
  rest : t.rest = s.rest
  lastEnd : t.lastEnd = s.lastEnd

namespace Made

theorem nil (s : TokenStream) : Made s s 0 [] :=
  ⟨List.suffix_rfl, fun _ => ⟨[], rfl, Nat.le_refl 0, rfl, .nil⟩⟩

theorem mono (h : Made s t k ps) (hl : l ≤ k) : Made s t l ps := by
  refine ⟨h.suffix, fun hrest => ?_⟩
  obtain ⟨used, hused, hk, hlaid⟩ := h.laid hrest
  exact ⟨used, hused, Nat.le_trans hl hk, hlaid⟩

theorem loose (h : Made s t k ps) : Made s t 0 ps := h.mono (Nat.zero_le k)

/-- Two runs, one after the other. -/
theorem join (h : Made s t k ps) (h' : Made t u l qs) : Made s u (k + l) (ps ++ qs) := by
  refine ⟨h'.suffix.trans h.suffix, fun hrest => ?_⟩
  have hrest' : t.rest ≠ [] := fun hnil => hrest (List.suffix_nil.mp (hnil ▸ h'.suffix))
  obtain ⟨used, hs, hk, hend, hlaid⟩ := h.laid hrest'
  obtain ⟨used', ht, hl, hend', hlaid'⟩ := h'.laid hrest
  refine ⟨used ++ used', by rw [hs, ht, List.append_assoc], ?_, ?_, hlaid.append hlaid'⟩
  · rw [List.length_append]
    omega
  · rw [hend', hend, List.getLast?_append]
    cases used'.getLast? <;> rfl

/-- Two runs, of which the first consumes enough. -/
theorem append (h : Made s t k ps) (h' : Made t u l qs) : Made s u k (ps ++ qs) :=
  (h.join h').mono (Nat.le_add_right ..)

/-- Two runs, of which the second consumes enough. -/
theorem andThen (h : Made s t k ps) (h' : Made t u l qs) : Made s u l (ps ++ qs) :=
  (h.join h').mono (Nat.le_add_left ..)

/-- A run that makes nothing, such as that of a mark, leaves what a run before has made. -/
theorem token (h : Made s t k ps) (h' : Made t u l []) : Made s u k ps := by
  have happ := h.append h'
  rw [List.append_nil] at happ
  exact happ

/-- The current token alone. -/
theorem current (h : Laid [s.current] ps) : Made s s.advance 1 ps := by
  refine ⟨List.tail_suffix _, fun hrest => ⟨[s.current], ?_, Nat.le_refl 1, rfl, h⟩⟩
  cases hs : s.rest with
  | nil => simp [TokenStream.advance, hs] at hrest
  | cons token rest => simp [TokenStream.advance, TokenStream.current, hs]

end Made

namespace Placed

variable {info : NodeInfo}

/-- A node that began at the first of some tokens and ends with the last one covers them. -/
theorem covers {used rest : List Token} (h : Placed info s.position t u)
    (hs : s.rest = used ++ rest) (hused : used ≠ [])
    (hend : t.lastEnd = (used.getLast?.map (·.span.stop)).getD s.lastEnd) :
    info.span.Covers used := by
  obtain ⟨first, used, rfl⟩ := List.exists_cons_of_ne_nil hused
  constructor
  · rw [h.span, TokenStream.position, TokenStream.current, hs]
    rfl
  · rw [h.span, hend, List.getLast?_cons]
    rfl

/-- A node over all tokens of a run. -/
theorem node (h : Placed info s.position t u) (hm : Made s t 1 ps) :
    Made s u 1 [.node info ps] := by
  refine ⟨h.rest ▸ hm.suffix, fun hrest => ?_⟩
  obtain ⟨used, hs, hk, hend, hlaid⟩ := hm.laid (h.rest ▸ hrest)
  refine ⟨used, h.rest ▸ hs, hk, h.lastEnd ▸ hend, .node (h.covers hs ?_ hend) hlaid⟩
  exact List.ne_nil_of_length_pos hk

/-- A node that begins with its first part. Tokens in front of that part are left out. -/
theorem behind {first : NodeInfo} {p : Piece} (h : Placed info first.span.start t u)
    (hp : ∃ parts, p = .node first parts) (hm : Made s t 1 (p :: ps)) :
    Made s u 1 [.node info (p :: ps)] := by
  obtain ⟨parts, rfl⟩ := hp
  refine ⟨h.rest ▸ hm.suffix, fun hrest => ?_⟩
  obtain ⟨used, hs, hk, hend, hlaid⟩ := hm.laid (h.rest ▸ hrest)
  refine ⟨used, h.rest ▸ hs, hk, h.lastEnd ▸ hend, ?_⟩
  obtain ⟨front, back, rfl, hfront, hback, hstart⟩ := hlaid.split_node
  refine hfront.append (.node ⟨hstart.trans (by rw [h.span]), ?_⟩ hback)
  obtain ⟨last, hlast⟩ : ∃ last, back.getLast? = some last := by
    cases back with
    | nil => cases hstart
    | cons token back => exact ⟨_, List.getLast?_cons⟩
  rw [h.span, hend, List.getLast?_append, hlast]
  rfl

end Placed

/-! ### Tokens -/

theorem kind_delivers {post : TokenKind → TokenStream → Prop} (h : post s.kind s) :
    Delivers kind s post :=
  .bind (.get (.pure h))

theorem position_delivers {post : Position → TokenStream → Prop} (h : post s.position s) :
    Delivers position s post :=
  .bind (.get (.pure h))

theorem fail_delivers {post : α → TokenStream → Prop} (message : String) :
    Delivers (fail message : Parse α) s post :=
  .bind (.get (.throw trivial))

theorem outOfFuel_delivers {post : α → TokenStream → Prop} :
    Delivers (outOfFuel : Parse α) s post := trivial

theorem mint_delivers {post : Nat → TokenStream → Prop}
    (h : post s.nextId { s with nextId := s.nextId + 1 }) : Delivers mint s post :=
  Ensures.modifyGet h

theorem advance_takes (s : TokenStream) :
    Delivers advance s fun token t => token = s.current ∧ t = s.advance :=
  .bind (.get (.bind (.set (.pure ⟨rfl, rfl⟩))))

theorem expectOr_takes (expected : TokenKind) (message : String) (s : TokenStream) :
    Delivers (expectOr expected message) s
      fun token t => s.kind = expected ∧ token = s.current ∧ t = s.advance := by
  refine .bind (kind_delivers ?_)
  split
  · next hk => exact (advance_takes s).imp fun _ _ _ h => ⟨hk, h⟩
  · exact fail_delivers message

/-- A kind that is known to be a mark. -/
theorem mark_of {kind : TokenKind} (h : s.kind = kind) (hk : kind.holdsWord = false) :
    s.kind.holdsWord = false := h ▸ hk

theorem advance_makes (hk : s.kind.holdsWord = false) :
    Delivers advance s fun token t => token.span.start = s.position ∧ Made s t 1 [] :=
  (advance_takes s).imp fun _ _ _ ⟨htoken, ht⟩ => ⟨htoken ▸ rfl, ht ▸ .current (.mark hk)⟩

theorem expectOr_makes {expected : TokenKind} (he : expected.holdsWord = false)
    (message : String) (s : TokenStream) :
    Makes s (expectOr expected message) 1 fun _ => [] :=
  (expectOr_takes expected message s).imp fun _ _ _ ⟨hk, _, ht⟩ =>
    ht ▸ .current (.mark (mark_of hk he))

theorem expect_makes {expected : TokenKind} (he : expected.holdsWord = false)
    (s : TokenStream) : Makes s (expect expected) 1 fun _ => [] :=
  expectOr_makes he _ s

/-- An identifier is a name. -/
theorem word?_of_identifier (hk : s.kind = .identifier) :
    s.current.word? = some (.name s.current.value) := by
  rw [Token.word?]
  split <;> simp_all [TokenStream.kind]

theorem name_makes (message : String) (s : TokenStream) :
    Makes s (name message) 1 fun name => [.word (.name name)] := by
  refine .bind ((expectOr_takes _ message s).imp fun token t _ h => .pure ?_)
  obtain ⟨hk, rfl, rfl⟩ := h
  exact .current (.word (word?_of_identifier hk))

theorem eat_makes {wanted : TokenKind} (hw : wanted.holdsWord = false) (s : TokenStream) :
    Delivers (eat wanted) s fun eaten t => Made s t eaten.toNat [] := by
  refine .bind (kind_delivers ?_)
  split
  · next hk => exact .bind ((advance_makes (mark_of hk hw)).imp fun _ _ _ h => .pure h.2)
  · exact .pure (.nil s)

theorem infoFrom_places (start : Position) (s : TokenStream) :
    Delivers (infoFrom start) s fun info t => Placed info start s t :=
  .bind (.get (.bind (mint_delivers (.pure ⟨rfl, rfl, rfl⟩))))

/-- The end of a production: a node around all that it has made. -/
theorem node_makes {start : Position} {build : NodeInfo → α} {pieces : α → List Piece}
    (hstart : start = s.position) (hm : Made s t 1 ps)
    (hpiece : ∀ info, pieces (build info) = [.node info ps]) :
    Delivers (do return build (← infoFrom start)) t fun a u => Made s u 1 (pieces a) := by
  subst hstart
  refine .bind ((infoFrom_places _ t).imp fun info u _ hinfo => .pure ?_)
  rw [hpiece]
  exact hinfo.node hm

/-! ### Combinations -/

section

variable {item : Parse α} {pieces : α → List Piece}

theorem bounded_makes {p : Nat → Parse α} (h : ∀ n, Makes s (p n) k pieces) :
    Makes s (bounded p) k pieces := .bind (.get (h s.bound))

section

variable (h : ∀ s, Makes s item 1 pieces)
include h

theorem commaList_makes (n : Nat) (s : TokenStream) :
    Makes s (commaList item n) 1 (List.flatMap pieces) := by
  induction n generalizing s with
  | zero => exact outOfFuel_delivers
  | succ n ih =>
    rw [commaList]
    refine .bind ((h s).imp fun first t _ hfirst => ?_)
    refine .bind ((eat_makes rfl t).imp fun more u _ hu => ?_)
    split
    · refine .bind ((ih u).imp fun rest v _ hrest => .pure ?_)
      rw [List.flatMap_cons]
      exact hfirst.append (hu.append hrest)
    · refine .pure ?_
      rw [List.flatMap_singleton]
      exact hfirst.token hu

theorem listUntil_makes (stops : TokenKind → Bool) (n : Nat) (s : TokenStream) :
    Makes s (listUntil stops item n) 0 (List.flatMap pieces) := by
  induction n generalizing s with
  | zero => exact outOfFuel_delivers
  | succ n ih =>
    rw [listUntil]
    refine .bind (kind_delivers ?_)
    split
    · exact .pure (.nil s)
    · refine .bind ((h s).imp fun first t _ hfirst => ?_)
      refine .bind ((eat_makes rfl t).imp fun more u _ hu => ?_)
      split
      · refine .bind ((ih u).imp fun rest v _ hrest => .pure ?_)
        rw [List.flatMap_cons]
        exact (hfirst.append (hu.append hrest)).loose
      · refine .pure ?_
        rw [List.flatMap_singleton]
        exact (hfirst.token hu).loose

theorem introduced_makes {keyword : TokenKind} (hw : keyword.holdsWord = false) (n : Nat)
    (s : TokenStream) : Makes s (introduced keyword item n) 0 (List.flatMap pieces) := by
  induction n generalizing s with
  | zero => exact outOfFuel_delivers
  | succ n ih =>
    rw [introduced]
    refine .bind ((eat_makes hw s).imp fun more t _ ht => ?_)
    split
    · refine .bind ((h t).imp fun first u _ hfirst => ?_)
      refine .bind ((ih u).imp fun rest v _ hrest => .pure ?_)
      rw [List.flatMap_cons]
      exact (ht.append (hfirst.append hrest)).loose
    · exact .pure ht.loose

theorem optional_makes {keyword : TokenKind} (hw : keyword.holdsWord = false)
    (s : TokenStream) :
    Makes s (optional keyword item) 0 fun o => o.toList.flatMap pieces := by
  refine .bind ((eat_makes hw s).imp fun more t _ ht => ?_)
  split
  · refine .bind ((h t).imp fun a u _ ha => .pure ?_)
    simp only [Option.toList_some, List.flatMap_singleton]
    exact (ht.append ha).loose
  · exact .pure ht.loose

end

end

/-! ### Type annotations -/

/-- An annotation stands in the tokens it is read from. -/
abbrev MakesType (s : TokenStream) (act : Parse TypeExpr) : Prop :=
  Makes s act 1 fun t => [t.piece]

section

variable {nested : Power → Parse TypeExpr} (h : ∀ power s, MakesType s (nested power))
include h

theorem typeList_makes (close : TokenKind) (s : TokenStream) :
    Makes s (typeList nested close) 0 TypeExpr.pieces := by
  refine (bounded_makes fun n => listUntil_makes (h .default) _ n s).imp fun ts t _ hts => ?_
  rw [TypeExpr.pieces_eq]
  exact hts

theorem primaryType_makes (s : TokenStream) : MakesType s (primaryType nested) := by
  refine .bind ((expectOr_takes _ _ s).imp fun token t _ ht => ?_)
  obtain ⟨hk, rfl, rfl⟩ := ht
  have hname : Made s s.advance 1 [.word (.name s.current.value)] :=
    .current (.word (word?_of_identifier hk))
  refine .bind ((eat_makes rfl s.advance).imp fun more u _ hu => ?_)
  dsimp only
  split
  · refine .bind ((typeList_makes h .closeParen u).imp fun args v _ hv => ?_)
    refine .bind ((expect_makes rfl v).imp fun _ x _ hx => .bind (.pure ?_))
    exact node_makes rfl (hname.append (hu.append (hv.token hx)))
      fun _ => by simp [TypeExpr.piece]
  · refine .bind (.pure ?_)
    exact node_makes rfl (hname.token hu) fun _ => by simp [TypeExpr.piece, TypeExpr.pieces]

theorem arrayType_makes (hk : s.kind.holdsWord = false) : MakesType s (arrayType nested) := by
  refine .bind ((advance_makes hk).imp fun token t _ ⟨hstart, ht⟩ => ?_)
  refine .bind ((h .default t).imp fun elem u _ hu => ?_)
  refine .bind ((expect_makes rfl u).imp fun _ v _ hv => ?_)
  exact node_makes hstart (ht.append (hu.append hv)) fun _ => by simp [TypeExpr.piece]

theorem dictType_makes (hk : s.kind.holdsWord = false) : MakesType s (dictType nested) := by
  refine .bind ((advance_makes hk).imp fun token t _ ⟨hstart, ht⟩ => ?_)
  refine .bind ((h .default t).imp fun key u _ hu => ?_)
  refine .bind ((expect_makes rfl u).imp fun _ v _ hv => ?_)
  refine .bind ((h .default v).imp fun value w _ hw => ?_)
  refine .bind ((expect_makes rfl w).imp fun _ x _ hx => ?_)
  exact node_makes hstart (ht.append (hu.append (hv.append (hw.token hx))))
    fun _ => by simp [TypeExpr.piece]

theorem tupleType_makes (hk : s.kind.holdsWord = false) : MakesType s (tupleType nested) := by
  refine .bind ((advance_makes hk).imp fun token t _ ⟨hstart, ht⟩ => ?_)
  refine .bind ((typeList_makes h .closeParen t).imp fun elems u _ hu => ?_)
  refine .bind ((expect_makes rfl u).imp fun _ v _ hv => ?_)
  have hall := ht.append (hu.token hv)
  split
  · simp only [TypeExpr.pieces] at hall
    exact .pure hall
  · exact node_makes hstart hall fun _ => by simp [TypeExpr.piece]

theorem funcType_makes (hk : s.kind.holdsWord = false) : MakesType s (funcType nested) := by
  refine .bind ((advance_makes hk).imp fun keyword t _ ⟨hstart, ht⟩ => ?_)
  refine .bind ((expect_makes rfl t).imp fun _ u _ hu => ?_)
  refine .bind ((typeList_makes h .closeParen u).imp fun params v _ hv => ?_)
  refine .bind ((expect_makes rfl v).imp fun _ w _ hw => ?_)
  have htail : ∀ {kind : FuncKind} {ret : Option TypeExpr} {x : TokenStream},
      Made w x 0 (ret.toList.flatMap fun r => [r.piece]) →
      Delivers (do return TypeExpr.func (← infoFrom keyword.span.start) kind params ret)
        x fun (a : TypeExpr) y => Made s y 1 [a.piece] := by
    intro kind ret x hx
    refine node_makes hstart (ht.append (hu.append (hv.append (hw.append hx)))) fun _ => ?_
    cases ret <;> simp [TypeExpr.piece]
  dsimp only
  generalize (if keyword.kind = .proc then FuncKind.proc else .func) = kind
  split
  · exact .bind ((optional_makes (h .default) rfl w).imp fun ret x _ hx => htail hx)
  · exact .bind (.pure (htail (.nil w)))

theorem refType_makes (hk : s.kind.holdsWord = false) : MakesType s (refType nested) := by
  refine .bind ((advance_makes hk).imp fun token t _ ⟨hstart, ht⟩ => ?_)
  refine .bind ((h .member t).imp fun inner u _ hu => ?_)
  exact node_makes hstart (ht.append hu) fun _ => by simp [TypeExpr.piece]

theorem typeOperand_makes (s : TokenStream) : MakesType s (typeOperand nested) := by
  refine .bind (kind_delivers ?_)
  split
  · exact primaryType_makes h s
  · next hk => exact arrayType_makes h (mark_of hk rfl)
  · next hk => exact dictType_makes h (mark_of hk rfl)
  · next hk => exact tupleType_makes h (mark_of hk rfl)
  · next hk => exact funcType_makes h (mark_of hk rfl)
  · next hk => exact funcType_makes h (mark_of hk rfl)
  · next hk => exact refType_makes h (mark_of hk rfl)
  · exact fail_delivers _

end

/-- A question mark makes a node around the annotation in front of it. -/
theorem typeSuffixes_makes (power : Power) {left : TypeExpr} (n : Nat) (t : TokenStream)
    (hleft : Made s t 1 [left.piece]) :
    Delivers (typeSuffixes power left n) t fun a u => Made s u 1 [a.piece] := by
  induction n generalizing left t with
  | zero => exact outOfFuel_delivers
  | succ n ih =>
    rw [typeSuffixes]
    split
    · exact .pure hleft
    · refine .bind ((eat_makes rfl t).imp fun more u _ hu => ?_)
      split
      · refine .bind ((infoFrom_places _ u).imp fun info v _ hinfo => ih v ?_)
        rw [TypeExpr.piece]
        exact hinfo.behind left.piece_eq_node (hleft.token hu)
      · exact .pure (hleft.token hu)

theorem typeExprAt_makes (n : Nat) (power : Power) (s : TokenStream) :
    MakesType s (typeExprAt n power) := by
  induction n generalizing power s with
  | zero => exact outOfFuel_delivers
  | succ n ih =>
    refine .bind ((typeOperand_makes ih s).imp fun left t _ hleft => ?_)
    exact .bind (.get (typeSuffixes_makes power t.bound t hleft))

theorem typeExpr_makes (power : Power) (s : TokenStream) : MakesType s (typeExpr power) :=
  bounded_makes fun n => typeExprAt_makes n power s

theorem optionalType_makes (s : TokenStream) :
    Makes s optionalType 0 fun o => (o.map TypeExpr.piece).toList := by
  refine (optional_makes (typeExpr_makes .default) rfl s).imp fun type t _ ht => ?_
  cases type <;> exact ht

/-! ### Words, symbols and parameters -/

/-- An expression stands in the tokens it is read from. -/
abbrev MakesExpr (s : TokenStream) (act : Parse Expr) : Prop :=
  Makes s act 1 fun e => [e.piece]

theorem unexpected_delivers {post : α → TokenStream → Prop} :
    Delivers (unexpected : Parse α) s post :=
  .bind (.get (.throw trivial))

theorem primary_makes {build : NodeInfo → Expr} {w : Word} (hw : s.current.word? = some w)
    (hpiece : ∀ info, (build info).piece = .node info [.word w]) :
    MakesExpr s (primary build) := by
  change Delivers (primary build) s fun e t => Made s t 1 [e.piece]
  refine .bind ((advance_takes s).imp fun token t _ h => .bind (mint_delivers (.pure ?_)))
  obtain ⟨rfl, rfl⟩ := h
  have hplaced : Placed ⟨s.advance.nextId, s.current.span⟩ s.position s.advance
      { s.advance with nextId := s.advance.nextId + 1 } := ⟨rfl, rfl, rfl⟩
  rw [hpiece]
  exact hplaced.node (.current (.word hw))

theorem literal_makes {value : Literal} (hw : s.current.word? = some value.word) :
    MakesExpr s (literal value) :=
  primary_makes hw fun _ => by rw [Expr.piece]

theorem varRef_makes (hk : s.kind = .identifier) :
    MakesExpr s (primary fun info => .varRef info s.current.value false) :=
  primary_makes (word?_of_identifier hk) fun _ => by rw [Expr.piece]

/-- A literal whose text is a numeral. -/
theorem numeral_makes (read : String → Option α) {build : α → Literal}
    (hw : ∀ {value}, read s.current.value = some value →
      s.current.word? = some (build value).word) :
    MakesExpr s (do literal (build (← numeral read))) := by
  refine .bind (.bind (.get ?_))
  split
  · next value hvalue => exact .pure (literal_makes (hw hvalue))
  · exact .throw trivial

theorem symbolLiteral_makes (hk : s.kind.holdsWord = false) : MakesExpr s symbolLiteral := by
  refine .bind ((advance_makes hk).imp fun token t _ ⟨hstart, ht⟩ => ?_)
  refine .bind ((name_makes _ t).imp fun name u _ hu => ?_)
  exact node_makes hstart (ht.append hu) fun _ => by simp [Expr.piece, Literal.word]

theorem param_makes (s : TokenStream) : Makes s param 1 fun p => [p.piece] := by
  refine .bind (position_delivers ?_)
  refine .bind ((eat_makes rfl s).imp fun isVar t _ ht => ?_)
  refine .bind ((name_makes _ t).imp fun name u _ hu => ?_)
  refine .bind ((optionalType_makes u).imp fun type v _ hv => ?_)
  exact node_makes rfl (ht.andThen (hu.append hv)) fun _ => rfl

theorem params_makes (stops : TokenKind → Bool) (s : TokenStream) :
    Makes s (bounded (listUntil stops param)) 0 (List.map Param.piece) := by
  refine (bounded_makes fun n => listUntil_makes param_makes stops n s).imp fun ps t _ ht => ?_
  rw [List.map_eq_flatMap]
  exact ht

/-! ### Expressions -/

/-- No operator is a word. -/
theorem holdsWord_of_operator? {kind : TokenKind} {op : Operator} (hop : kind.operator? = some op) :
    kind.holdsWord = false := by
  cases kind <;> first | rfl | cases hop

/-- Whatever is nested stands in the tokens it is read from. -/
structure Nested.Making (g : Nested) : Prop where
  expr : ∀ power s, MakesExpr s (g.expr power)
  block : ∀ s, Makes s g.block 1 fun b => [b.piece]
  stmt : ∀ s, Makes s g.stmt 1 fun r => [r.piece]

section

variable {g : Nested} (h : g.Making)
include h

theorem exprList_makes (s : TokenStream) : Makes s (exprList g) 1 exprPieces := by
  refine (bounded_makes fun n => commaList_makes (h.expr .default) n s).imp fun es t _ hes => ?_
  rw [exprPieces_eq]
  exact hes

theorem exprListBefore_makes (close : TokenKind) (s : TokenStream) :
    Makes s (exprListBefore g close) 0 exprPieces := by
  refine .bind (kind_delivers ?_)
  split
  · refine .pure ?_
    rw [exprPieces]
    exact .nil s
  · exact (exprList_makes h s).imp fun es t _ hes => hes.loose

theorem dictEntry_makes (s : TokenStream) :
    Makes s (dictEntry g) 1 fun e => [e.1.piece, e.2.piece] := by
  refine .bind ((h.expr .default s).imp fun key t _ ht => ?_)
  refine .bind ((expect_makes rfl t).imp fun _ u _ hu => ?_)
  refine .bind ((h.expr .default u).imp fun value v _ hv => .pure ?_)
  exact ht.append (hu.append hv)

theorem unaryExpr_makes (op : UnaryOp) (hk : s.kind.holdsWord = false) :
    MakesExpr s (unaryExpr g op) := by
  refine .bind ((advance_makes hk).imp fun token t _ ⟨hstart, ht⟩ => ?_)
  refine .bind ((h.expr .unary t).imp fun operand u _ hu => ?_)
  exact node_makes hstart (ht.append hu) fun _ => by simp [Expr.piece]

theorem grouping_makes (hk : s.kind.holdsWord = false) : MakesExpr s (grouping g) := by
  refine .bind ((advance_makes hk).imp fun token t _ ⟨hstart, ht⟩ => ?_)
  refine .bind ((eat_makes rfl t).imp fun closed u _ hu => ?_)
  split
  · exact node_makes hstart (ht.append hu) fun _ => by simp [Expr.piece, exprPieces]
  · refine .bind ((exprList_makes h u).imp fun elems v _ hv => ?_)
    refine .bind ((expect_makes rfl v).imp fun _ w _ hw => ?_)
    have hall := ht.append (hu.append (hv.token hw))
    split
    · simp only [exprPieces] at hall
      exact .pure hall
    · exact node_makes hstart hall fun _ => by simp [Expr.piece]

theorem arrayLiteral_makes (hk : s.kind.holdsWord = false) : MakesExpr s (arrayLiteral g) := by
  refine .bind ((advance_makes hk).imp fun token t _ ⟨hstart, ht⟩ => ?_)
  refine .bind ((exprListBefore_makes h .closeBracket t).imp fun elems u _ hu => ?_)
  refine .bind ((expect_makes rfl u).imp fun _ v _ hv => ?_)
  exact node_makes hstart (ht.append (hu.token hv)) fun _ => by simp [Expr.piece]

theorem dictLiteral_makes (hk : s.kind.holdsWord = false) : MakesExpr s (dictLiteral g) := by
  refine .bind ((advance_makes hk).imp fun token t _ ⟨hstart, ht⟩ => ?_)
  refine .bind ((bounded_makes fun n => listUntil_makes (dictEntry_makes h) _ n t).imp
    fun entries u _ hu => ?_)
  refine .bind ((expect_makes rfl u).imp fun _ v _ hv => ?_)
  exact node_makes hstart (ht.append (hu.token hv)) fun _ => by simp [Expr.piece, entryPieces_eq]

/-- The value behind `in` is three nodes at once: a block, a return statement and itself. -/
theorem lambdaBody_makes (s : TokenStream) :
    Makes s (lambdaBody g) 1 fun b => [b.piece] := by
  refine .bind ((eat_makes rfl s).imp fun short t _ ht => ?_)
  split
  · refine .bind (position_delivers ?_)
    refine .bind ((h.expr .default t).imp fun value u _ hu => ?_)
    refine .bind ((infoFrom_places _ u).imp fun retInfo v _ hret => ?_)
    refine .bind ((infoFrom_places _ v).imp fun info w _ hinfo => .pure ?_)
    simp only [Block.piece, stmtPieces, Stmt.piece, exprPieces]
    exact ht.andThen (hinfo.node (hret.node hu))
  · exact (h.block t).imp fun body u _ hu => ht.andThen hu

theorem lambda_makes (hk : s.kind.holdsWord = false) : MakesExpr s (lambda g) := by
  refine .bind ((advance_makes hk).imp fun token t _ ⟨hstart, ht⟩ => ?_)
  refine .bind ((eat_makes rfl t).imp fun parenthesized u _ hu => ?_)
  refine .bind ((params_makes _ u).imp fun params v _ hv => ?_)
  have htail : ∀ {w : TokenStream}, Made v w 0 [] →
      Delivers (do
        let body ← lambdaBody g
        let info ← infoFrom token.span.start
        let definition : FuncDef :=
          ⟨info, .lambda, "lambda." ++ info.id.repr, params, none, body, none⟩
        return Expr.lambda (← infoFrom token.span.start) definition)
        w fun (e : Expr) x => Made s x 1 [e.piece] := by
    intro w hw
    refine .bind ((lambdaBody_makes h w).imp fun body x _ hx => ?_)
    refine .bind ((infoFrom_places _ x).imp fun defInfo y _ hdef => ?_)
    have hall := ht.append (hu.append (hv.append (hw.append hx)))
    exact node_makes hstart ((hstart ▸ hdef).node hall)
      fun _ => by simp [Expr.piece, FuncDef.piece, FuncKind.namePieces, blockPieces]
  dsimp only
  split
  · exact .bind ((expect_makes rfl v).imp fun _ w _ hw => htail hw.loose)
  · exact htail (.nil v)

theorem ifExpr_makes (kind : IfKind) (hk : s.kind.holdsWord = false) :
    MakesExpr s (ifExpr g kind) := by
  refine .bind ((advance_makes hk).imp fun keyword t _ ⟨hstart, ht⟩ => ?_)
  refine .bind ((h.expr .default t).imp fun condition u _ hu => ?_)
  refine .bind ((expect_makes rfl u).imp fun _ v _ hv => ?_)
  refine .bind ((h.expr .default v).imp fun thenValue w _ hw => ?_)
  refine .bind ((expect_makes rfl w).imp fun _ x _ hx => ?_)
  refine .bind ((h.expr .default x).imp fun elseValue y _ hy => ?_)
  exact node_makes hstart (ht.append (hu.append (hv.append (hw.append (hx.append hy)))))
    fun _ => by simp [Expr.piece]

theorem operand_makes (s : TokenStream) : MakesExpr s (operand g) := by
  refine .bind (.get ?_)
  dsimp only
  split
  · next hk => exact numeral_makes _ fun hread => by simp [Token.word?, hk, hread, Literal.word]
  · next hk => exact numeral_makes _ fun hread => by simp [Token.word?, hk, hread, Literal.word]
  · next hk => exact numeral_makes _ fun hread => by simp [Token.word?, hk, hread, Literal.word]
  · next hk =>
    split
    · next c _ hc => exact literal_makes (by simp [Token.word?, hk, hc, Literal.word])
    · exact fail_delivers _
  · next hk => exact literal_makes (by simp [Token.word?, hk, Literal.word])
  · next hk => exact literal_makes (by simp [Token.word?, hk, Literal.word])
  · next hk => exact literal_makes (by simp [Token.word?, hk, Literal.word])
  · next hk => exact varRef_makes hk
  · next hk => exact unaryExpr_makes h _ (mark_of hk rfl)
  · next hk => exact unaryExpr_makes h _ (mark_of hk rfl)
  · next hk => exact unaryExpr_makes h _ (mark_of hk rfl)
  · next hk => exact grouping_makes h (mark_of hk rfl)
  · next hk => exact arrayLiteral_makes h (mark_of hk rfl)
  · next hk => exact dictLiteral_makes h (mark_of hk rfl)
  · next hk => exact ifExpr_makes h _ (mark_of hk rfl)
  · next hk => exact ifExpr_makes h _ (mark_of hk rfl)
  · next hk => exact symbolLiteral_makes (mark_of hk rfl)
  · next hk => exact lambda_makes h (mark_of hk rfl)
  · exact unexpected_delivers

/-- An operator makes a node that begins with its left side. -/
theorem applyOperator_makes (op : Operator) {left : Expr} (hk : t.kind.holdsWord = false)
    (hleft : Made s t 1 [left.piece]) :
    Delivers (applyOperator g op left) t fun e u => Made s u 1 [e.piece] := by
  refine .bind ((advance_makes hk).imp fun _ u _ ⟨_, hu⟩ => ?_)
  have hnode : ∀ {v : TokenStream} {k : Nat} {ps : List Piece} {build : NodeInfo → Expr},
      Made u v k ps → (∀ info, (build info).piece = .node info (left.piece :: ps)) →
      Delivers (do return build (← infoFrom left.position)) v
        fun e w => Made s w 1 [e.piece] := by
    intro v k ps build hv hpiece
    refine .bind ((infoFrom_places _ v).imp fun info w _ hinfo => .pure ?_)
    rw [hpiece]
    exact hinfo.behind left.piece_eq_node (hleft.append (hu.append hv))
  cases op with
  | binary binaryOp =>
    refine .bind ((h.expr _ u).imp fun right v _ hv => ?_)
    exact hnode hv fun _ => by rw [Expr.piece]
  | range inclusive =>
    refine .bind ((h.expr _ u).imp fun last v _ hv => ?_)
    exact hnode hv fun _ => by rw [Expr.piece]
  | typed =>
    refine .bind ((typeExpr_makes .default u).imp fun type v _ hv => ?_)
    exact hnode hv fun _ => by rw [Expr.piece]
  | cast =>
    refine .bind ((typeExpr_makes .default u).imp fun type v _ hv => ?_)
    exact hnode hv fun _ => by rw [Expr.piece]
  | call =>
    refine .bind ((exprListBefore_makes h .closeParen u).imp fun args v _ hv => ?_)
    refine .bind ((expect_makes rfl v).imp fun _ w _ hw => ?_)
    exact hnode (hv.token hw) fun _ => by rw [Expr.piece]
  | index =>
    refine .bind ((h.expr .default u).imp fun index v _ hv => ?_)
    refine .bind ((expect_makes rfl v).imp fun _ w _ hw => ?_)
    exact hnode (hv.token hw) fun _ => by rw [Expr.piece]
  | member =>
    refine .bind ((name_makes _ u).imp fun name v _ hv => ?_)
    exact hnode hv fun _ => by rw [Expr.piece]

theorem operators_makes (power : Power) {left : Expr} (n : Nat) (t : TokenStream)
    (hleft : Made s t 1 [left.piece]) :
    Delivers (operators g power left n) t fun e u => Made s u 1 [e.piece] := by
  induction n generalizing left t with
  | zero => exact outOfFuel_delivers
  | succ n ih =>
    rw [operators]
    refine .bind (kind_delivers ?_)
    split
    · exact .pure hleft
    · next op hop =>
      split
      · exact .pure hleft
      · refine .bind ((applyOperator_makes h op (holdsWord_of_operator? hop) hleft).imp
          fun e u _ he => ?_)
        exact ih u he

theorem exprWith_makes (power : Power) (s : TokenStream) : MakesExpr s (exprWith g power) := by
  refine .bind ((operand_makes h s).imp fun left t _ hleft => .bind (.get ?_))
  exact operators_makes h power t.bound t hleft

end

end Frontend.Parse
