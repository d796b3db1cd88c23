import Frontend.Proofs.Tree.Induction
import Frontend.Proofs.Tree.Roles

/-!
# Regular trees

What the analysis takes for granted of a tree: each node begins at a place that errors may point at
and has an id that it may have, what is called and what is a statement may be so, and no tuple has
just one element, be it a value or a type. The places, ids and roles are those of a `Ground`. The
root of a function is left out, for a template and a lambda differ in the ids that they may have.
-/

namespace Frontend

/-- Where nodes may begin, and which ids they may have. -/
structure Terrain where
  place : Position → Prop
  free : Nat → Prop

/-- A terrain and the roles that nodes on it may play. -/
structure Ground extends Terrain where
  plays : Role → Nat → Prop

/-- A node that stands on a ground. -/
structure NodeInfo.On (g : Ground) (info : NodeInfo) : Prop where
  place : g.place info.span.start
  free : g.free info.id

/-- The node of a statement stands on a ground where it may be one. -/
structure NodeInfo.Stated (g : Ground) (info : NodeInfo) : Prop extends info.On g where
  plays : g.plays .statement info.id

variable {g : Ground}

mutual

/-- A type annotation is regular at every depth. -/
def TypeExpr.Regular (g : Ground) : TypeExpr → Prop
  | .primary info _ args => info.On g ∧ typesRegular g args
  | .array info elem => info.On g ∧ elem.Regular g
  | .dict info key value => info.On g ∧ key.Regular g ∧ value.Regular g
  | .tuple info elems => info.On g ∧ elems.length ≠ 1 ∧ typesRegular g elems
  | .func info _ params none => info.On g ∧ typesRegular g params
  | .func info _ params (some ret) => info.On g ∧ typesRegular g params ∧ ret.Regular g
  | .qualified info _ inner => info.On g ∧ inner.Regular g

/-- Type annotations are regular. -/
def typesRegular (g : Ground) : List TypeExpr → Prop
  | [] => True
  | t :: rest => t.Regular g ∧ typesRegular g rest

end

/-- A parameter is regular. -/
structure Param.Regular (g : Ground) (p : Param) : Prop where
  info : p.info.On g
  type : ∀ t ∈ p.type, t.Regular g

/-- A declared name is regular. -/
structure VarDecl.Regular (g : Ground) (d : VarDecl) : Prop where
  info : d.info.On g
  type : ∀ t ∈ d.type, t.Regular g

/-- A declared constant is regular. -/
structure ConstDecl.Regular (g : Ground) (d : ConstDecl) : Prop where
  info : d.info.On g
  type : ∀ t ∈ d.type, t.Regular g

mutual

/-- An expression is regular at every depth. -/
def Expr.Regular (g : Ground) : Expr → Prop
  | .literal info _ | .varRef info _ _ => info.On g
  | .array info elems => info.On g ∧ exprsRegular g elems
  | .tuple info elems => info.On g ∧ elems.length ≠ 1 ∧ exprsRegular g elems
  | .dict info entries => info.On g ∧ entriesRegular g entries
  | .member info receiver _ => info.On g ∧ receiver.Regular g
  | .index info receiver index => info.On g ∧ receiver.Regular g ∧ index.Regular g
  | .call info callee args =>
    info.On g ∧ g.plays .callee callee.id ∧ callee.Regular g ∧ exprsRegular g args
  | .unary info _ operand => info.On g ∧ operand.Regular g
  | .binary info _ lhs rhs => info.On g ∧ lhs.Regular g ∧ rhs.Regular g
  | .cast info value type | .typed info value type =>
    info.On g ∧ value.Regular g ∧ type.Regular g
  | .ifElse info _ condition thenValue elseValue =>
    info.On g ∧ condition.Regular g ∧ thenValue.Regular g ∧ elseValue.Regular g
  | .range info first last _ => info.On g ∧ first.Regular g ∧ last.Regular g
  | .lambda info d => info.On g ∧ d.info.On g ∧ d.Regular g

/-- Expressions are regular. -/
def exprsRegular (g : Ground) : List Expr → Prop
  | [] => True
  | e :: rest => e.Regular g ∧ exprsRegular g rest

/-- The entries of a dictionary are regular. -/
def entriesRegular (g : Ground) : List (Expr × Expr) → Prop
  | [] => True
  | (key, value) :: rest => key.Regular g ∧ value.Regular g ∧ entriesRegular g rest

/-- The parameters, the result type and the bodies of a function are regular. -/
def FuncDef.Regular (g : Ground) : FuncDef → Prop
  | ⟨_, _, _, params, returnType, body, ensureBody⟩ =>
    (∀ p ∈ params, p.Regular g) ∧ (∀ t ∈ returnType, t.Regular g) ∧ body.Regular g ∧
      blockRegular g ensureBody

/-- A block is regular. -/
def Block.Regular (g : Ground) : Block → Prop
  | ⟨info, stmts⟩ => info.On g ∧ stmtsRegular g stmts

/-- An optional block is regular. -/
def blockRegular (g : Ground) : Option Block → Prop
  | none => True
  | some b => b.Regular g

/-- An initialize statement is regular. -/
def Init.Regular (g : Ground) : Init → Prop
  | ⟨info, decls, values⟩ => info.Stated g ∧ (∀ d ∈ decls, d.Regular g) ∧ exprsRegular g values

/-- A statement is regular. -/
def Stmt.Regular (g : Ground) : Stmt → Prop
  | .init init => init.Regular g
  | .assign info targets _ values => info.Stated g ∧ exprsRegular g targets ∧ exprsRegular g values
  | .ifElse info _ condition thenBlock elseifs elseBlock =>
    info.Stated g ∧ condition.Regular g ∧ thenBlock.Regular g ∧ armsRegular g elseifs ∧
      blockRegular g elseBlock
  | .ret info values => info.Stated g ∧ exprsRegular g values
  | .case info whens elseBlock => info.Stated g ∧ armsRegular g whens ∧ blockRegular g elseBlock
  | .switch info target whens elseBlock =>
    info.Stated g ∧ target.Regular g ∧ valueArmsRegular g whens ∧ blockRegular g elseBlock
  | .forIn info vars range body =>
    info.Stated g ∧ (∀ p ∈ vars, p.Regular g) ∧ range.Regular g ∧ body.Regular g
  | .whileDo info condition body => info.Stated g ∧ condition.Regular g ∧ body.Regular g
  | .guarded info body _ condition => info.Stated g ∧ body.Regular g ∧ condition.Regular g
  | .letIn info inits child => info.Stated g ∧ initsRegular g inits ∧ child.Regular g
  | .expr value => value.Regular g

/-- Statements are regular. -/
def stmtsRegular (g : Ground) : List Stmt → Prop
  | [] => True
  | s :: rest => s.Regular g ∧ stmtsRegular g rest

/-- Initialize statements are regular. -/
def initsRegular (g : Ground) : List Init → Prop
  | [] => True
  | init :: rest => init.Regular g ∧ initsRegular g rest

/-- Conditions and the blocks they guard are regular. -/
def armsRegular (g : Ground) : List (Expr × Block) → Prop
  | [] => True
  | (condition, block) :: rest => condition.Regular g ∧ block.Regular g ∧ armsRegular g rest

/-- Values and the blocks that are run for them are regular. -/
def valueArmsRegular (g : Ground) : List (List Expr × Block) → Prop
  | [] => True
  | (values, block) :: rest => exprsRegular g values ∧ block.Regular g ∧ valueArmsRegular g rest

end

/-- The constants of a definition are regular. -/
structure ConstDef.Regular (g : Ground) (d : ConstDef) : Prop where
  info : d.info.On g
  decls : ∀ c ∈ d.decls, c.Regular g
  values : exprsRegular g d.values

/-! ### Lists of parts -/

theorem typesRegular_iff (ts : List TypeExpr) : typesRegular g ts ↔ ∀ t ∈ ts, t.Regular g := by
  induction ts with
  | nil => simp [typesRegular]
  | cons t rest ih => simp [typesRegular, ih]

theorem exprsRegular_iff (es : List Expr) : exprsRegular g es ↔ ∀ e ∈ es, e.Regular g := by
  induction es with
  | nil => simp [exprsRegular]
  | cons e rest ih => simp [exprsRegular, ih]

theorem entriesRegular_iff (es : List (Expr × Expr)) :
    entriesRegular g es ↔ ∀ e ∈ es, e.1.Regular g ∧ e.2.Regular g := by
  induction es with
  | nil => simp [entriesRegular]
  | cons e rest ih => simp [entriesRegular, ih, and_assoc]

theorem armsRegular_iff (whens : List (Expr × Block)) :
    armsRegular g whens ↔ ∀ a ∈ whens, a.1.Regular g ∧ a.2.Regular g := by
  induction whens with
  | nil => simp [armsRegular]
  | cons a rest ih => simp [armsRegular, ih, and_assoc]

theorem valueArmsRegular_iff (whens : List (List Expr × Block)) :
    valueArmsRegular g whens ↔ ∀ a ∈ whens, exprsRegular g a.1 ∧ a.2.Regular g := by
  induction whens with
  | nil => simp [valueArmsRegular]
  | cons a rest ih => simp [valueArmsRegular, ih, and_assoc]

theorem blockRegular_iff (b : Option Block) : blockRegular g b ↔ ∀ b' ∈ b, b'.Regular g := by
  cases b <;> simp [blockRegular]

/-! ### Places -/

theorem TypeExpr.Regular.on {t : TypeExpr} (h : t.Regular g) : t.info.On g := by
  cases t with
  | func info kind params ret => cases ret <;> exact h.1
  | _ => exact h.1

theorem Expr.Regular.on {e : Expr} (h : e.Regular g) : e.info.On g := by
  cases e with
  | literal | varRef => exact h
  | _ => exact h.1

/-- A regular expression begins at a place. -/
theorem Expr.Regular.position {e : Expr} (h : e.Regular g) : g.place e.position := h.on.place

theorem Init.Regular.stated {i : Init} (h : i.Regular g) : i.info.Stated g := by
  cases i
  exact h.1

theorem Expr.Regular.asTarget {e : Expr} (h : e.Regular g) : e.asTarget.Regular g := by
  cases e <;> exact h

/-! ### Other grounds -/

/-- The same places, with other ids that nodes may have and other roles that they may play. -/
def Ground.onto (g : Ground) (free : Nat → Prop) (plays : Role → Nat → Prop) : Ground :=
  { g with free, plays }

/-- Nodes may play their roles. -/
def Played (plays : Role → Nat → Prop) (roles : List (Role × Nat)) : Prop :=
  ∀ r ∈ roles, plays r.1 r.2

section

variable {free : Nat → Prop} {plays : Role → Nat → Prop} {roles roles' : List (Role × Nat)}

theorem played_append :
    Played plays (roles ++ roles') ↔ Played plays roles ∧ Played plays roles' :=
  List.forall_mem_append

theorem played_cons {role : Role} {node : Nat} :
    Played plays ((role, node) :: roles) ↔ plays role node ∧ Played plays roles :=
  List.forall_mem_cons

theorem NodeInfo.On.onto {info : NodeInfo} (h : info.On g) (hf : free info.id) :
    info.On (g.onto free plays) := ⟨h.place, hf⟩

theorem NodeInfo.Stated.onto {info : NodeInfo} (h : info.Stated g) (hf : free info.id)
    (hp : plays .statement info.id) : info.Stated (g.onto free plays) :=
  ⟨h.toOn.onto hf, hp⟩

mutual

theorem TypeExpr.Regular.onto : ∀ {t : TypeExpr}, t.Regular g → (∀ node ∈ t.ids, free node) →
    t.Regular (g.onto free plays)
  | .primary _ _ args, h, hf => by
    simp only [TypeExpr.Regular, TypeExpr.ids, List.forall_mem_cons] at h hf ⊢
    exact ⟨h.1.onto hf.1, typesRegular_onto h.2 hf.2⟩
  | .array _ elem, h, hf => by
    simp only [TypeExpr.Regular, TypeExpr.ids, List.forall_mem_cons] at h hf ⊢
    exact ⟨h.1.onto hf.1, h.2.onto hf.2⟩
  | .dict _ key value, h, hf => by
    simp only [TypeExpr.Regular, TypeExpr.ids, List.forall_mem_cons,
      List.forall_mem_append] at h hf ⊢
    exact ⟨h.1.onto hf.1, h.2.1.onto hf.2.1, h.2.2.onto hf.2.2⟩
  | .tuple _ elems, h, hf => by
    simp only [TypeExpr.Regular, TypeExpr.ids, List.forall_mem_cons] at h hf ⊢
    exact ⟨h.1.onto hf.1, h.2.1, typesRegular_onto h.2.2 hf.2⟩
  | .func _ _ params none, h, hf => by
    simp only [TypeExpr.Regular, TypeExpr.ids, List.forall_mem_cons] at h hf ⊢
    exact ⟨h.1.onto hf.1, typesRegular_onto h.2 hf.2⟩
  | .func _ _ params (some ret), h, hf => by
    simp only [TypeExpr.Regular, TypeExpr.ids, List.forall_mem_cons,
      List.forall_mem_append] at h hf ⊢
    exact ⟨h.1.onto hf.1, typesRegular_onto h.2.1 hf.2.1, h.2.2.onto hf.2.2⟩
  | .qualified _ _ inner, h, hf => by
    simp only [TypeExpr.Regular, TypeExpr.ids, List.forall_mem_cons] at h hf ⊢
    exact ⟨h.1.onto hf.1, h.2.onto hf.2⟩

theorem typesRegular_onto : ∀ {ts : List TypeExpr}, typesRegular g ts →
    (∀ node ∈ TypeExpr.idsAll ts, free node) → typesRegular (g.onto free plays) ts
  | [], _, _ => by simp only [typesRegular]
  | t :: rest, h, hf => by
    simp only [typesRegular, TypeExpr.idsAll, List.forall_mem_append] at h hf ⊢
    exact ⟨h.1.onto hf.1, typesRegular_onto h.2 hf.2⟩

end

theorem optionRegular_onto {t : Option TypeExpr} (h : ∀ t' ∈ t, t'.Regular g)
    (hf : ∀ node ∈ TypeExpr.idsOption t, free node) :
    ∀ t' ∈ t, t'.Regular (g.onto free plays) := by
  rintro t' ⟨⟩
  exact (h t' rfl).onto hf

theorem Param.Regular.onto {p : Param} (h : p.Regular g) (hf : ∀ node ∈ p.ids, free node) :
    p.Regular (g.onto free plays) := by
  rw [Param.ids, List.forall_mem_cons] at hf
  exact ⟨h.info.onto hf.1, optionRegular_onto h.type hf.2⟩

theorem VarDecl.Regular.onto {d : VarDecl} (h : d.Regular g) (hf : ∀ node ∈ d.ids, free node) :
    d.Regular (g.onto free plays) := by
  rw [VarDecl.ids, List.forall_mem_cons] at hf
  exact ⟨h.info.onto hf.1, optionRegular_onto h.type hf.2⟩

theorem ConstDecl.Regular.onto {d : ConstDecl} (h : d.Regular g)
    (hf : ∀ node ∈ d.ids, free node) : d.Regular (g.onto free plays) := by
  rw [ConstDecl.ids, List.forall_mem_cons] at hf
  exact ⟨h.info.onto hf.1, optionRegular_onto h.type hf.2⟩

mutual

theorem Expr.Regular.onto : ∀ {e : Expr}, e.Regular g → (∀ node ∈ e.ids, free node) →
    Played plays e.roles → e.Regular (g.onto free plays)
  | .literal _ _, h, hf, _ | .varRef _ _ _, h, hf, _ => by
    simp only [Expr.Regular, Expr.ids, List.forall_mem_singleton] at h hf ⊢
    exact h.onto hf
  | .array _ elems, h, hf, hp => by
    simp only [Expr.Regular, Expr.ids, Expr.roles, List.forall_mem_cons] at h hf hp ⊢
    exact ⟨h.1.onto hf.1, exprsRegular_onto h.2 hf.2 hp⟩
  | .tuple _ elems, h, hf, hp => by
    simp only [Expr.Regular, Expr.ids, Expr.roles, List.forall_mem_cons] at h hf hp ⊢
    exact ⟨h.1.onto hf.1, h.2.1, exprsRegular_onto h.2.2 hf.2 hp⟩
  | .dict _ entries, h, hf, hp => by
    simp only [Expr.Regular, Expr.ids, Expr.roles, List.forall_mem_cons] at h hf hp ⊢
    exact ⟨h.1.onto hf.1, entriesRegular_onto h.2 hf.2 hp⟩
  | .member _ receiver _, h, hf, hp => by
    simp only [Expr.Regular, Expr.ids, Expr.roles, played_cons, List.forall_mem_cons] at h hf hp ⊢
    exact ⟨h.1.onto hf.1, h.2.onto hf.2 hp.2⟩
  | .index _ receiver index, h, hf, hp => by
    simp only [Expr.Regular, Expr.ids, Expr.roles, played_append, played_cons,
      List.forall_mem_cons, List.forall_mem_append] at h hf hp ⊢
    exact ⟨h.1.onto hf.1, h.2.1.onto hf.2.1 hp.1.2, h.2.2.onto hf.2.2 hp.2.2⟩
  | .call _ callee args, h, hf, hp => by
    simp only [Expr.Regular, Expr.ids, Expr.roles, played_append, played_cons,
      List.forall_mem_cons, List.forall_mem_append] at h hf hp ⊢
    exact ⟨h.1.onto hf.1, hp.1.1, h.2.2.1.onto hf.2.1 hp.1.2,
      exprsRegular_onto h.2.2.2 hf.2.2 hp.2⟩
  | .unary _ _ operand, h, hf, hp => by
    simp only [Expr.Regular, Expr.ids, Expr.roles, played_cons, List.forall_mem_cons] at h hf hp ⊢
    exact ⟨h.1.onto hf.1, h.2.onto hf.2 hp.2⟩
  | .binary _ _ lhs rhs, h, hf, hp => by
    simp only [Expr.Regular, Expr.ids, Expr.roles, played_append, played_cons,
      List.forall_mem_cons, List.forall_mem_append] at h hf hp ⊢
    exact ⟨h.1.onto hf.1, h.2.1.onto hf.2.1 hp.1.2, h.2.2.onto hf.2.2 hp.2.2⟩
  | .cast _ value type, h, hf, hp | .typed _ value type, h, hf, hp => by
    simp only [Expr.Regular, Expr.ids, Expr.roles, played_cons, List.forall_mem_cons,
      List.forall_mem_append] at h hf hp ⊢
    exact ⟨h.1.onto hf.1, h.2.1.onto hf.2.1 hp.2, h.2.2.onto hf.2.2⟩
  | .ifElse _ _ condition thenValue elseValue, h, hf, hp => by
    simp only [Expr.Regular, Expr.ids, Expr.roles, played_append, played_cons,
      List.forall_mem_cons, List.forall_mem_append] at h hf hp ⊢
    exact ⟨h.1.onto hf.1, h.2.1.onto hf.2.1.1 hp.1.1.2, h.2.2.1.onto hf.2.1.2 hp.1.2.2,
      h.2.2.2.onto hf.2.2 hp.2.2⟩
  | .range _ first last _, h, hf, hp => by
    simp only [Expr.Regular, Expr.ids, Expr.roles, played_append, played_cons,
      List.forall_mem_cons, List.forall_mem_append] at h hf hp ⊢
    exact ⟨h.1.onto hf.1, h.2.1.onto hf.2.1 hp.1.2, h.2.2.onto hf.2.2 hp.2.2⟩
  | .lambda _ d, h, hf, hp => by
    simp only [Expr.Regular, Expr.ids, Expr.roles, List.forall_mem_cons] at h hf hp ⊢
    have hid : d.info.id ∈ d.ids := by
      cases d
      simp only [FuncDef.ids, List.mem_cons, true_or]
    exact ⟨h.1.onto hf.1, h.2.1.onto (hf.2 _ hid),
      h.2.2.onto (fun node hn => hf.2 node (List.mem_of_mem_tail hn)) hp⟩

theorem exprsRegular_onto : ∀ {es : List Expr}, exprsRegular g es →
    (∀ node ∈ exprIds es, free node) → Played plays (exprsRoles es) →
      exprsRegular (g.onto free plays) es
  | [], _, _, _ => by simp only [exprsRegular]
  | e :: rest, h, hf, hp => by
    simp only [exprsRegular, exprIds, exprsRoles, played_append, played_cons,
      List.forall_mem_append] at h hf hp ⊢
    exact ⟨h.1.onto hf.1 hp.1.2, exprsRegular_onto h.2 hf.2 hp.2⟩

theorem entriesRegular_onto : ∀ {es : List (Expr × Expr)}, entriesRegular g es →
    (∀ node ∈ entryIds es, free node) → Played plays (entriesRoles es) →
      entriesRegular (g.onto free plays) es
  | [], _, _, _ => by simp only [entriesRegular]
  | (key, value) :: rest, h, hf, hp => by
    simp only [entriesRegular, entryIds, entriesRoles, played_append, played_cons,
      List.forall_mem_append] at h hf hp ⊢
    exact ⟨h.1.onto hf.1.1 hp.1.1.2, h.2.1.onto hf.1.2 hp.1.2.2,
      entriesRegular_onto h.2.2 hf.2 hp.2⟩

theorem FuncDef.Regular.onto : ∀ {d : FuncDef}, d.Regular g →
    (∀ node ∈ d.ids.tail, free node) → Played plays d.roles → d.Regular (g.onto free plays)
  | ⟨_, _, _, params, returnType, body, ensureBody⟩, h, hf, hp => by
    simp only [FuncDef.Regular, FuncDef.ids, FuncDef.roles, played_append, List.tail_cons,
      List.forall_mem_append] at h hf hp ⊢
    obtain ⟨⟨⟨hparams, hret⟩, hbody⟩, hensure⟩ := hf
    exact ⟨fun p hm => (h.1 p hm).onto fun node hn =>
        hparams node (List.mem_flatMap.mpr ⟨p, hm, hn⟩),
      optionRegular_onto h.2.1 hret, h.2.2.1.onto hbody hp.1,
      blockRegular_onto h.2.2.2 hensure hp.2⟩

theorem Block.Regular.onto : ∀ {b : Block}, b.Regular g → (∀ node ∈ b.ids, free node) →
    Played plays b.roles → b.Regular (g.onto free plays)
  | ⟨_, stmts⟩, h, hf, hp => by
    simp only [Block.Regular, Block.ids, Block.roles, List.forall_mem_cons] at h hf hp ⊢
    exact ⟨h.1.onto hf.1, stmtsRegular_onto h.2 hf.2 hp⟩

theorem blockRegular_onto : ∀ {b : Option Block}, blockRegular g b →
    (∀ node ∈ blockIds b, free node) → Played plays (blockRoles b) →
      blockRegular (g.onto free plays) b
  | none, _, _, _ => by simp only [blockRegular]
  | some b, h, hf, hp => by
    simp only [blockRegular, blockIds, blockRoles] at h hf hp ⊢
    exact h.onto hf hp

theorem Init.Regular.onto : ∀ {i : Init}, i.Regular g → (∀ node ∈ i.ids, free node) →
    Played plays i.roles → i.Regular (g.onto free plays)
  | ⟨_, decls, values⟩, h, hf, hp => by
    simp only [Init.Regular, Init.ids, Init.roles, played_cons, List.forall_mem_cons,
      List.forall_mem_append] at h hf hp ⊢
    exact ⟨h.1.onto hf.1 hp.1, fun d hd => (h.2.1 d hd).onto fun node hn =>
        hf.2.1 node (List.mem_flatMap.mpr ⟨d, hd, hn⟩), exprsRegular_onto h.2.2 hf.2.2 hp.2⟩

theorem Stmt.Regular.onto : ∀ {s : Stmt}, s.Regular g → (∀ node ∈ s.ids, free node) →
    Played plays s.roles → s.Regular (g.onto free plays)
  | .init init, h, hf, hp => by
    simp only [Stmt.Regular, Stmt.ids, Stmt.roles] at h hf hp ⊢
    exact h.onto hf hp
  | .assign _ targets _ values, h, hf, hp => by
    simp only [Stmt.Regular, Stmt.ids, Stmt.roles, played_append, played_cons,
      List.forall_mem_cons, List.forall_mem_append] at h hf hp ⊢
    exact ⟨h.1.onto hf.1 hp.1.1, exprsRegular_onto h.2.1 hf.2.1 hp.1.2,
      exprsRegular_onto h.2.2 hf.2.2 hp.2⟩
  | .ifElse _ _ condition thenBlock elseifs elseBlock, h, hf, hp => by
    simp only [Stmt.Regular, Stmt.ids, Stmt.roles, played_append, played_cons,
      List.forall_mem_cons, List.forall_mem_append] at h hf hp ⊢
    obtain ⟨hinfo, ⟨⟨hcondition, hthen⟩, helseifs⟩, helse⟩ := hf
    obtain ⟨⟨⟨⟨hrole, -, hrolesCondition⟩, hrolesThen⟩, hrolesElseifs⟩, hrolesElse⟩ := hp
    exact ⟨h.1.onto hinfo hrole, h.2.1.onto hcondition hrolesCondition,
      h.2.2.1.onto hthen hrolesThen, armsRegular_onto h.2.2.2.1 helseifs hrolesElseifs,
      blockRegular_onto h.2.2.2.2 helse hrolesElse⟩
  | .ret _ values, h, hf, hp => by
    simp only [Stmt.Regular, Stmt.ids, Stmt.roles, played_cons, List.forall_mem_cons] at h hf hp ⊢
    exact ⟨h.1.onto hf.1 hp.1, exprsRegular_onto h.2 hf.2 hp.2⟩
  | .case _ whens elseBlock, h, hf, hp => by
    simp only [Stmt.Regular, Stmt.ids, Stmt.roles, played_append, played_cons,
      List.forall_mem_cons, List.forall_mem_append] at h hf hp ⊢
    exact ⟨h.1.onto hf.1 hp.1.1, armsRegular_onto h.2.1 hf.2.1 hp.1.2,
      blockRegular_onto h.2.2 hf.2.2 hp.2⟩
  | .switch _ target whens elseBlock, h, hf, hp => by
    simp only [Stmt.Regular, Stmt.ids, Stmt.roles, played_append, played_cons,
      List.forall_mem_cons, List.forall_mem_append] at h hf hp ⊢
    obtain ⟨⟨⟨hrole, -, hrolesTarget⟩, hrolesWhens⟩, hrolesElse⟩ := hp
    exact ⟨h.1.onto hf.1 hrole, h.2.1.onto hf.2.1.1 hrolesTarget,
      valueArmsRegular_onto h.2.2.1 hf.2.1.2 hrolesWhens,
      blockRegular_onto h.2.2.2 hf.2.2 hrolesElse⟩
  | .forIn _ vars range body, h, hf, hp => by
    simp only [Stmt.Regular, Stmt.ids, Stmt.roles, played_append, played_cons,
      List.forall_mem_cons, List.forall_mem_append] at h hf hp ⊢
    exact ⟨h.1.onto hf.1 hp.1.1, fun p hm => (h.2.1 p hm).onto fun node hn =>
        hf.2.1.1 node (List.mem_flatMap.mpr ⟨p, hm, hn⟩), h.2.2.1.onto hf.2.1.2 hp.1.2.2,
      h.2.2.2.onto hf.2.2 hp.2⟩
  | .whileDo _ condition body, h, hf, hp => by
    simp only [Stmt.Regular, Stmt.ids, Stmt.roles, played_append, played_cons,
      List.forall_mem_cons, List.forall_mem_append] at h hf hp ⊢
    exact ⟨h.1.onto hf.1 hp.1.1, h.2.1.onto hf.2.1 hp.1.2.2, h.2.2.onto hf.2.2 hp.2⟩
  | .guarded _ body _ condition, h, hf, hp => by
    simp only [Stmt.Regular, Stmt.ids, Stmt.roles, played_append, played_cons,
      List.forall_mem_cons, List.forall_mem_append] at h hf hp ⊢
    exact ⟨h.1.onto hf.1 hp.1.1, h.2.1.onto hf.2.1 hp.1.2, h.2.2.onto hf.2.2 hp.2.2⟩
  | .letIn _ inits child, h, hf, hp => by
    simp only [Stmt.Regular, Stmt.ids, Stmt.roles, played_append, played_cons,
      List.forall_mem_cons, List.forall_mem_append] at h hf hp ⊢
    exact ⟨h.1.onto hf.1 hp.1.1, initsRegular_onto h.2.1 hf.2.1 hp.1.2, h.2.2.onto hf.2.2 hp.2⟩
  | .expr value, h, hf, hp => by
    simp only [Stmt.Regular, Stmt.ids, Stmt.roles, played_cons] at h hf hp ⊢
    exact h.onto hf hp.2

theorem stmtsRegular_onto : ∀ {ss : List Stmt}, stmtsRegular g ss →
    (∀ node ∈ stmtIds ss, free node) → Played plays (stmtsRoles ss) →
      stmtsRegular (g.onto free plays) ss
  | [], _, _, _ => by simp only [stmtsRegular]
  | s :: rest, h, hf, hp => by
    simp only [stmtsRegular, stmtIds, stmtsRoles, played_append,
      List.forall_mem_append] at h hf hp ⊢
    exact ⟨h.1.onto hf.1 hp.1, stmtsRegular_onto h.2 hf.2 hp.2⟩

theorem initsRegular_onto : ∀ {is : List Init}, initsRegular g is →
    (∀ node ∈ initIds is, free node) → Played plays (initsRoles is) →
      initsRegular (g.onto free plays) is
  | [], _, _, _ => by simp only [initsRegular]
  | i :: rest, h, hf, hp => by
    simp only [initsRegular, initIds, initsRoles, played_append,
      List.forall_mem_append] at h hf hp ⊢
    exact ⟨h.1.onto hf.1 hp.1, initsRegular_onto h.2 hf.2 hp.2⟩

theorem armsRegular_onto : ∀ {whens : List (Expr × Block)}, armsRegular g whens →
    (∀ node ∈ armIds whens, free node) → Played plays (armsRoles whens) →
      armsRegular (g.onto free plays) whens
  | [], _, _, _ => by simp only [armsRegular]
  | (condition, block) :: rest, h, hf, hp => by
    simp only [armsRegular, armIds, armsRoles, played_append, played_cons,
      List.forall_mem_append] at h hf hp ⊢
    exact ⟨h.1.onto hf.1.1 hp.1.1.2, h.2.1.onto hf.1.2 hp.1.2, armsRegular_onto h.2.2 hf.2 hp.2⟩

theorem valueArmsRegular_onto : ∀ {whens : List (List Expr × Block)},
    valueArmsRegular g whens → (∀ node ∈ valueArmIds whens, free node) →
      Played plays (valueArmsRoles whens) → valueArmsRegular (g.onto free plays) whens
  | [], _, _, _ => by simp only [valueArmsRegular]
  | (values, block) :: rest, h, hf, hp => by
    simp only [valueArmsRegular, valueArmIds, valueArmsRoles, played_append,
      List.forall_mem_append] at h hf hp ⊢
    exact ⟨exprsRegular_onto h.1 hf.1.1 hp.1.1, h.2.1.onto hf.1.2 hp.1.2,
      valueArmsRegular_onto h.2.2 hf.2 hp.2⟩

end

end

end Frontend
