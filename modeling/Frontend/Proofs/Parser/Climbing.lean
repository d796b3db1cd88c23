import Frontend.Parser.Program
import Frontend.Proofs.Rendering.Expr
import Frontend.Proofs.Tree.Balanced

/-!
# Reading chains of infix operators

A chain is an operand token with links behind it, each an infix operator token and an operand token.
In a context that binds with some power a chain is read up to the first operator that binds no
tighter, and what has been read is a balanced tree. The loop keeps one more fact, that the next
operator may take the tree so far as its left operand: where the tree ends in an operator that was
just applied, its right operand has been read up to the first operator that binds no tighter than
this one.
-/

namespace Frontend

/-- The operand that a token alone stands for, without id and span. -/
def Token.atom? (t : Token) : Option Expr :=
  match t.kind with
  | .int => (Numeral.int? t.value).map fun value => .literal .erased (.int value)
  | .uint => (Numeral.uint? t.value).map fun value => .literal .erased (.uint value)
  | .float => (Numeral.double? t.value).map fun value => .literal .erased (.float value)
  | .char => t.value.toList.head?.map fun c => .literal .erased (.char c)
  | .string => some (.literal .erased (.string t.value))
  | .true => some (.literal .erased (.bool true))
  | .false => some (.literal .erased (.bool false))
  | .identifier => some (.varRef .erased t.value false)
  | _ => none

/-- The infix operator that a token stands for behind an operand. -/
def TokenKind.infix? : TokenKind → Option Operator
  | .dotDot => some (.range Bool.false)
  | .ellipsis => some (.range Bool.true)
  | kind => kind.binaryOp?.map .binary

/-- A token that is an operand. -/
structure Atom where
  token : Token
  value : Expr
  reads : token.atom? = some value

/-- An infix operator and the operand behind it. -/
structure ChainLink where
  token : Token
  op : Operator
  means : token.kind.infix? = some op
  atom : Atom

namespace ChainLink

/-- The tokens of a link. -/
def tokens (l : ChainLink) : List Token := [l.token, l.atom.token]

/-- What a link adds to a sequence of operands and operators. -/
def items (l : ChainLink) : List InfixItem := [.operator l.op, .operand l.atom.value]

end ChainLink

theorem TokenKind.operator?_of_infix? {kind : TokenKind} {op : Operator}
    (h : kind.infix? = some op) : kind.operator? = some op ∧ op.IsInfix := by
  cases kind <;> cases h <;> exact ⟨rfl, trivial⟩

namespace Parse

variable {g : Nested} {s : TokenStream} {more : List Token}

theorem current_eq {token : Token} (hs : s.rest = token :: more) : s.current = token := by
  rw [TokenStream.current, hs, List.headD_cons]

theorem advance_rest {token : Token} (hs : s.rest = token :: more) : s.advance.rest = more :=
  congrArg List.tail hs

theorem advance_at {token : Token} {post : Token → TokenStream → Prop}
    (hs : s.rest = token :: more) (hp : ∀ t, t.rest = more → post token t) :
    Yields advance s post :=
  .bind (.get (.bind (.set (.pure (current_eq hs ▸ hp _ (advance_rest hs))))))

theorem infoFrom_at {start : Position} {post : NodeInfo → TokenStream → Prop}
    (hp : ∀ info t, t.rest = s.rest → post info t) : Yields (infoFrom start) s post :=
  .bind (.get (.bind (.modifyGet (.pure (hp _ _ rfl)))))

theorem primary_atom {build : NodeInfo → Expr} {x : Expr} {token : Token}
    (hs : s.rest = token :: more)
    (hbuild : ∀ info, (build info).split? = none ∧ (build info).erase = x) :
    Yields (primary build) s fun e t => t.rest = more ∧ e.split? = none ∧ e.erase = x :=
  .bind (advance_at hs fun _ ht => .bind (.modifyGet (.pure ⟨ht, hbuild _⟩)))

theorem literal_atom {value : Literal} {token : Token} (hs : s.rest = token :: more) :
    Yields (literal value) s fun e t =>
      t.rest = more ∧ e.split? = none ∧ e.erase = .literal .erased value :=
  primary_atom hs fun _ => ⟨rfl, by rw [Expr.erase]⟩

theorem numeral_atom {α : Type} {read : String → Option α} {build : α → Literal} {x : Expr}
    {token : Token} (hs : s.rest = token :: more)
    (hx : ((read token.value).map fun value => .literal .erased (build value)) = some x) :
    Yields (do literal (build (← numeral read))) s fun e t =>
      t.rest = more ∧ e.split? = none ∧ e.erase = x := by
  obtain ⟨value, hvalue, rfl⟩ := Option.map_eq_some_iff.mp hx
  refine .bind (.bind (.get ?_))
  rw [current_eq hs, hvalue]
  exact .pure (literal_atom hs)

/-- An operand token is read as the operand it stands for. -/
theorem operand_atom (a : Atom) (hs : s.rest = a.token :: more) :
    Yields (operand g) s fun e t => t.rest = more ∧ e.split? = none ∧ e.erase = a.value := by
  obtain ⟨token, x, hx⟩ := a
  refine .bind (.get ?_)
  rw [current_eq hs]
  unfold Token.atom? at hx
  split at hx <;> rename_i hkind <;> simp only [hkind]
  · exact numeral_atom hs hx
  · exact numeral_atom hs hx
  · exact numeral_atom hs hx
  · obtain ⟨c, hc, rfl⟩ := Option.map_eq_some_iff.mp hx
    obtain ⟨rest, hrest⟩ := List.head?_eq_some_iff.mp hc
    rw [hrest]
    exact literal_atom hs
  · cases hx
    exact literal_atom hs
  · cases hx
    exact literal_atom hs
  · cases hx
    exact literal_atom hs
  · cases hx
    exact primary_atom hs fun _ => ⟨rfl, by rw [Expr.erase]⟩
  · cases hx

/-- An infix operator makes a node of what stands in front of it and what is read behind it. -/
theorem applyOperator_infix {op : Operator} (hop : op.IsInfix) {left : Expr} {token : Token}
    {post : Expr → TokenStream → Prop} (hs : s.rest = token :: more)
    (h : ∀ t, t.rest = more → Yields (g.expr op.power) t fun right u =>
      ∀ e v, e.split? = some (left, op, right) → v.rest = u.rest → post e v) :
    Yields (applyOperator g op left) s post := by
  refine .bind (advance_at hs fun t ht => ?_)
  cases op with
  | binary op =>
    exact .bind ((h t ht).imp fun right u _ hpost =>
      .bind (infoFrom_at fun info v hv => .pure (hpost _ v rfl hv)))
  | range inclusive =>
    exact .bind ((h t ht).imp fun right u _ hpost =>
      .bind (infoFrom_at fun info v hv => .pure (hpost _ v rfl hv)))
  | _ => exact hop.elim

/-- What a parser yields, it gives. -/
theorem Yields.exists_ok {α : Type} {act : Parse α} {post : α → TokenStream → Prop}
    (h : Yields act s post) : ∃ a t, act s = .ok a t ∧ post a t := by
  cases hrun : act s with
  | ok a t => exact ⟨a, t, rfl, h.of_ok hrun⟩
  | error e t => exact (h.of_error hrun).elim

/-! ### Chains -/

/-- The links that were taken from a chain are now part of a tree behind what stood in front. -/
structure Takes (front : List InfixItem) (links : List ChainLink) (next : List Token)
    (taken left : List ChainLink) (e : Expr) (t : TokenStream) : Prop where
  links_eq : links = taken ++ left
  rest_eq : t.rest = left.flatMap ChainLink.tokens ++ next
  inorder_eq : e.inorder = front ++ taken.flatMap ChainLink.items
  balanced : e.Balanced

/-- A chain has been read as far as an operator binds tighter than the context. -/
structure Climbs (power : Power) (front : List InfixItem) (links : List ChainLink)
    (next : List Token) (taken left : List ChainLink) (e : Expr) (t : TokenStream) : Prop
    extends Takes front links next taken left e t where
  tight : ∀ p ∈ e.topPower?, power < p
  stop : ∀ l ∈ left.head?, l.op.power ≤ power

/-- A reader of expressions reads every chain of fewer than `m` links in front of `next`. -/
def Climber (nested : Power → Parse Expr) (next : List Token) (m : Nat) : Prop :=
  ∀ ⦃power : Power⦄ ⦃first : Atom⦄ ⦃links : List ChainLink⦄ ⦃s : TokenStream⦄, links.length < m →
    s.rest = first.token :: (links.flatMap ChainLink.tokens ++ next) →
    Yields (nested power) s fun e t =>
      ∃ taken left, Climbs power [.operand first.value] links next taken left e t

section

variable {next : List Token} {links : List ChainLink} {m : Nat}

theorem Takes.nothing {e : Expr} (hbalanced : e.Balanced)
    (hs : s.rest = links.flatMap ChainLink.tokens ++ next) :
    Takes e.inorder links next [] links e s :=
  ⟨rfl, hs, (List.append_nil _).symm, hbalanced⟩

/-- What is taken one time after another is taken together. -/
theorem Takes.trans {front : List InfixItem} {taken left taken' left' : List ChainLink}
    {e e' : Expr} {t t' : TokenStream} (h : Takes front links next taken left e t)
    (h' : Takes e.inorder left next taken' left' e' t') :
    Takes front links next (taken ++ taken') left' e' t' where
  links_eq := by rw [h.links_eq, h'.links_eq, List.append_assoc]
  rest_eq := h'.rest_eq
  inorder_eq := by rw [h'.inorder_eq, h.inorder_eq, List.flatMap_append, List.append_assoc]
  balanced := h'.balanced

/-- An operator takes its own link and those that bind tighter than it does, and any link behind
them may take the node as its left operand. -/
theorem applyOperator_climbs {l : ChainLink} {e : Expr} (hg : Climber g.expr next m)
    (hm : links.length < m) (hbalanced : e.Balanced)
    (hnext : ∀ p ∈ e.topPower?, l.op.power ≤ p)
    (hs : s.rest = (l :: links).flatMap ChainLink.tokens ++ next) :
    Yields (applyOperator g l.op e) s fun node t => ∃ taken left,
      Takes e.inorder (l :: links) next (l :: taken) left node t ∧
        node.topPower? = some l.op.power ∧ ∀ l' ∈ left.head?, l'.op.power ≤ l.op.power := by
  have hinfix := (TokenKind.operator?_of_infix? l.means).2
  refine applyOperator_infix hinfix hs fun t ht => (hg hm ht).imp ?_
  rintro right u - ⟨taken, left, hright⟩ node v hnode hv
  refine ⟨taken, left, ?_, Expr.topPower?_of_split hnode, hright.stop⟩
  refine ⟨?_, hv.trans hright.rest_eq, ?_, .node hnode hnext hright.tight hbalanced hright.balanced⟩
  · rw [hright.links_eq, List.cons_append]
  · rw [Expr.inorder_of_split hnode, hright.inorder_eq, List.flatMap_cons, ChainLink.items]
    rfl

/-- The loop takes links as long as they bind tighter than the context. It is entered with a tree
that the next link may take as its left operand. -/
theorem operators_climbs {power : Power} {e : Expr} {follow : Token} {rest : List Token} {n : Nat}
    (hfollow : follow.kind.operator? = none) (hg : Climber g.expr (follow :: rest) m)
    (hn : links.length < n) (hm : links.length ≤ m) (hbalanced : e.Balanced)
    (htight : ∀ p ∈ e.topPower?, power < p)
    (hnext : ∀ l ∈ links.head?, ∀ p ∈ e.topPower?, l.op.power ≤ p)
    (hs : s.rest = links.flatMap ChainLink.tokens ++ follow :: rest) :
    Yields (operators g power e n) s fun e' t =>
      ∃ taken left, Climbs power e.inorder links (follow :: rest) taken left e' t := by
  induction n generalizing e links s with
  | zero => exact absurd hn (Nat.not_lt_zero _)
  | succ n ih =>
    rw [operators]
    refine .bind (.bind (.get (.pure ?_)))
    rw [TokenStream.kind]
    cases links with
    | nil =>
      have hcurrent : s.current = follow := current_eq hs
      rw [hcurrent, hfollow]
      exact .pure ⟨[], [], .nothing hbalanced hs, htight, fun _ h => (Option.not_mem_none _ h).elim⟩
    | cons l links =>
      have hcurrent : s.current = l.token := current_eq hs
      rw [hcurrent, (TokenKind.operator?_of_infix? l.means).1]
      by_cases hpower : l.op.power ≤ power
      · simp only [hpower, if_true]
        refine .pure ⟨[], l :: links, .nothing hbalanced hs, htight, ?_⟩
        rintro _ ⟨⟩
        exact hpower
      · simp only [hpower, if_false]
        refine .bind ((applyOperator_climbs hg hm hbalanced (hnext l rfl) hs).imp ?_)
        rintro node t - ⟨taken, left, htaken, htop, hstop⟩
        have hlength := congrArg List.length htaken.links_eq
        simp only [List.length_cons, List.length_append] at hlength hn hm
        -- The node binds as tightly as `l`: tighter than the context, and no looser than the link
        -- at which its right operand ended.
        refine (ih (by omega) (by omega) htaken.balanced ?_ ?_ htaken.rest_eq).imp ?_
        · rw [htop]
          rintro _ ⟨⟩
          exact Nat.lt_of_not_le hpower
        · rw [htop]
          rintro l' hl' _ ⟨⟩
          exact hstop l' hl'
        · rintro e' u - ⟨taken', left', h⟩
          exact ⟨_, left', htaken.trans h.toTakes, h.tight, h.stop⟩

@[simp] theorem length_links_tokens (links : List ChainLink) :
    (links.flatMap ChainLink.tokens).length = 2 * links.length := by
  induction links with
  | nil => rfl
  | cons l links ih =>
    rw [List.flatMap_cons, List.length_append, ih, List.length_cons, ChainLink.tokens,
      List.length_cons, List.length_singleton]
    omega

section

variable {follow : Token} {rest : List Token} (hfollow : follow.kind.operator? = none)

include hfollow

/-- An expression is read if what may be nested in it is: an operand leaves all links to the
loop. -/
theorem exprWith_climbs (hg : Climber g.expr (follow :: rest) m) :
    Climber (exprWith g) (follow :: rest) (m + 1) := by
  intro power first links s hm hs
  refine .bind ((operand_atom first hs).imp fun e t _ he => ?_)
  obtain ⟨ht, hsplit, hvalue⟩ := he
  have htop : ∀ p, p ∉ e.topPower? := fun p => by
    rw [Expr.topPower?_of_operand hsplit]
    exact Option.not_mem_none p
  have hfuel : links.length < t.bound := by
    rw [t.bound_eq, ht, List.length_append, length_links_tokens]
    omega
  rw [← hvalue, ← Expr.inorder_of_operand hsplit]
  exact .bind (.get (operators_climbs hfollow hg hfuel (Nat.le_of_lt_succ hm) (.operand hsplit)
    (fun p hp => (htop p hp).elim) (fun _ _ p hp => (htop p hp).elim) ht))

/-- Each level of nesting can hold one more link. -/
theorem exprAt_climbs (n : Nat) : Climber (exprAt n) (follow :: rest) n := by
  induction n with
  | zero => exact fun _ _ _ _ hm => absurd hm (Nat.not_lt_zero _)
  | succ n ih => exact exprWith_climbs hfollow ih

/-- The tokens that are left bound the depth, so a chain of any length is read. -/
theorem expr_climbs (power : Power) {first : Atom} {links : List ChainLink}
    (hs : s.rest = first.token :: (links.flatMap ChainLink.tokens ++ follow :: rest)) :
    Yields (expr power) s fun e t => ∃ taken left,
      Climbs power [.operand first.value] links (follow :: rest) taken left e t := by
  have hdepth : links.length < depth s.bound := by
    rw [depth, s.bound_eq, hs, List.length_cons, List.length_append, length_links_tokens]
    omega
  exact .bind (.get (exprAt_climbs hfollow _ hdepth hs))

end

/-- In the loosest context a chain in front of a token that is no operator is read to its end. The
tree is balanced and has the operands and operators of the chain in order, and up to ids and spans
it is the only such tree. -/
theorem expr_reads_chain (first : Atom) (links : List ChainLink) {follow : Token}
    {rest : List Token} (hfollow : follow.kind.operator? = none)
    (hs : s.rest = first.token :: (links.flatMap ChainLink.tokens ++ follow :: rest)) :
    ∃ e t, expr .default s = .ok e t ∧ t.rest = follow :: rest ∧
      e.inorder = .operand first.value :: links.flatMap ChainLink.items ∧ e.Balanced ∧
      ∀ e' : Expr, e'.inorder = .operand first.value :: links.flatMap ChainLink.items →
        e'.Balanced → e'.erase = e.erase := by
  obtain ⟨e, t, hrun, taken, left, h⟩ := (expr_climbs hfollow .default hs).exists_ok
  have hleft : left = [] := by
    cases left with
    | nil => rfl
    | cons l left => exact absurd (h.stop l rfl) l.op.not_power_le_default
  have hlinks := h.links_eq
  rw [hleft, List.append_nil] at hlinks
  subst hleft hlinks
  refine ⟨e, t, hrun, h.rest_eq, h.inorder_eq, h.balanced, fun e' hinorder hbalanced => ?_⟩
  exact hbalanced.erase_eq h.balanced (hinorder.trans h.inorder_eq.symm)

/-- The operand `name`. -/
def nameAtom (name : String) : Atom := ⟨⟨.identifier, name, .null⟩, .varRef .erased name false, rfl⟩

/-- The links of the chain `a - b - 2 * c .. d`. -/
def rangeLinks : List ChainLink :=
  [⟨⟨.dash, "-", .null⟩, .binary .sub, rfl, nameAtom "b"⟩,
    ⟨⟨.dash, "-", .null⟩, .binary .sub, rfl, ⟨⟨.int, "2", .null⟩, .literal .erased (.int 2), rfl⟩⟩,
    ⟨⟨.star, "*", .null⟩, .binary .mul, rfl, nameAtom "c"⟩,
    ⟨⟨.dotDot, "..", .null⟩, .range false, rfl, nameAtom "d"⟩]

/-- The chain in front of a semicolon. -/
def rangeStream : TokenStream :=
  .ofTokens ((nameAtom "a").token :: (rangeLinks.flatMap ChainLink.tokens ++
    [⟨.semicolon, ";", .null⟩])) "main" 1

theorem expr_reads_chain_range :
    TokenKind.semicolon.operator? = none ∧
    rangeStream.rest = (nameAtom "a").token :: (rangeLinks.flatMap ChainLink.tokens ++
      [⟨.semicolon, ";", .null⟩]) ∧
    ∃ e t, expr .default rangeStream = .ok e t ∧ t.rest = [⟨.semicolon, ";", .null⟩] ∧
      e.inorder = .operand (nameAtom "a").value :: rangeLinks.flatMap ChainLink.items ∧
      e.Balanced ∧
      ∀ e' : Expr, e'.inorder = .operand (nameAtom "a").value ::
        rangeLinks.flatMap ChainLink.items → e'.Balanced → e'.erase = e.erase :=
  ⟨rfl, rfl, expr_reads_chain (nameAtom "a") rangeLinks rfl rfl⟩

/-- Differences group from the left, and the range is the loosest of these operators. -/
example : (match expr .default rangeStream with
    | .ok (.range _ (.binary _ .sub (.binary _ .sub _ _) (.binary _ .mul _ _)) _ false) _ => true
    | _ => false) = true := by
  decide +kernel

end

end Parse

end Frontend
