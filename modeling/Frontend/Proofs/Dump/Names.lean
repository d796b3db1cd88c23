import Frontend.Proofs.Parser.SourceOrder
import Frontend.Proofs.Token.Reads
import Frontend.Proofs.Tree.Unnumbered

/-!
# Names that stand out

The dump of the scopes writes the name of a variable or a function between words and signs of its
own, without marks around it. It can be told from these because a name has no blank, no line feed
and no opening parenthesis in it. `FuncDef.Legible` says so of all names that a function declares,
at any depth, and that its lambdas are lambdas by kind. Copies declare the same names as their
templates, and what is read from a source text declares words of it (`Program.parse_legible`).
-/

namespace Frontend

/-- A name without a blank, a line feed or an opening parenthesis. -/
def IsPlain (name : String) : Prop := ∀ c ∈ name.toList, c ≠ ' ' ∧ c ≠ '\n' ∧ c ≠ '('

instance (name : String) : Decidable (IsPlain name) :=
  decidable_of_iff (name.toList.all fun c => c ≠ ' ' ∧ c ≠ '\n' ∧ c ≠ '(') <| by
    simp only [List.all_eq_true, decide_eq_true_eq, IsPlain]

mutual

/-- The functions in an expression declare plain names. -/
def Expr.Legible : Expr → Prop
  | .literal .. | .varRef .. => True
  | .array _ elems | .tuple _ elems => exprsLegible elems
  | .dict _ entries => entriesLegible entries
  | .member _ receiver _ => receiver.Legible
  | .index _ receiver index => receiver.Legible ∧ index.Legible
  | .call _ callee args => callee.Legible ∧ exprsLegible args
  | .unary _ _ operand => operand.Legible
  | .binary _ _ lhs rhs => lhs.Legible ∧ rhs.Legible
  | .cast _ value _ | .typed _ value _ => value.Legible
  | .ifElse _ _ condition thenValue elseValue =>
    condition.Legible ∧ thenValue.Legible ∧ elseValue.Legible
  | .range _ first last _ => first.Legible ∧ last.Legible
  | .lambda _ d => d.kind = .lambda ∧ d.Legible

/-- Expressions declare plain names. -/
def exprsLegible : List Expr → Prop
  | [] => True
  | e :: rest => e.Legible ∧ exprsLegible rest

/-- The entries of a dictionary declare plain names. -/
def entriesLegible : List (Expr × Expr) → Prop
  | [] => True
  | (key, value) :: rest => key.Legible ∧ value.Legible ∧ entriesLegible rest

/-- A function has a plain name and declares plain names. -/
def FuncDef.Legible : FuncDef → Prop
  | ⟨_, _, name, params, _, body, ensureBody⟩ =>
    IsPlain name ∧ (∀ p ∈ params, IsPlain p.name) ∧ body.Legible ∧ optionalLegible ensureBody

/-- A block declares plain names. -/
def Block.Legible : Block → Prop
  | ⟨_, stmts⟩ => stmtsLegible stmts

/-- An optional block declares plain names. -/
def optionalLegible : Option Block → Prop
  | none => True
  | some b => b.Legible

/-- An initialize statement declares plain names. -/
def Init.Legible : Init → Prop
  | ⟨_, decls, values⟩ => (∀ d ∈ decls, IsPlain d.name) ∧ exprsLegible values

/-- A statement declares plain names. -/
def Stmt.Legible : Stmt → Prop
  | .init init => init.Legible
  | .assign _ targets _ values => exprsLegible targets ∧ exprsLegible values
  | .ifElse _ _ condition thenBlock elseifs elseBlock =>
    condition.Legible ∧ thenBlock.Legible ∧ armsLegible elseifs ∧ optionalLegible elseBlock
  | .ret _ values => exprsLegible values
  | .case _ whens elseBlock => armsLegible whens ∧ optionalLegible elseBlock
  | .switch _ target whens elseBlock =>
    target.Legible ∧ valueArmsLegible whens ∧ optionalLegible elseBlock
  | .forIn _ vars range body => (∀ v ∈ vars, IsPlain v.name) ∧ range.Legible ∧ body.Legible
  | .whileDo _ condition body => condition.Legible ∧ body.Legible
  | .guarded _ body _ condition => body.Legible ∧ condition.Legible
  | .letIn _ inits child => initsLegible inits ∧ child.Legible
  | .expr value => value.Legible

/-- Statements declare plain names. -/
def stmtsLegible : List Stmt → Prop
  | [] => True
  | s :: rest => s.Legible ∧ stmtsLegible rest

/-- Initialize statements declare plain names. -/
def initsLegible : List Init → Prop
  | [] => True
  | init :: rest => init.Legible ∧ initsLegible rest

/-- Conditions and the blocks they guard declare plain names. -/
def armsLegible : List (Expr × Block) → Prop
  | [] => True
  | (condition, block) :: rest => condition.Legible ∧ block.Legible ∧ armsLegible rest

/-- Values and the blocks that are run for them declare plain names. -/
def valueArmsLegible : List (List Expr × Block) → Prop
  | [] => True
  | (values, block) :: rest => exprsLegible values ∧ block.Legible ∧ valueArmsLegible rest

end

/-- A definition declares plain names. -/
def Definition.Legible : Definition → Prop
  | .function d => d.kind ≠ .lambda ∧ d.Legible
  | .constant d => (∀ c ∈ d.decls, IsPlain c.name) ∧ exprsLegible d.values

/-- All definitions of a program declare plain names. -/
def Program.Legible (p : Program) : Prop := ∀ d ∈ p.definitions, d.Legible

/-! ### Lists of parts -/

theorem exprsLegible_iff (es : List Expr) : exprsLegible es ↔ ∀ e ∈ es, e.Legible := by
  induction es with
  | nil => simp [exprsLegible]
  | cons e rest ih => simp [exprsLegible, ih]

theorem entriesLegible_iff (es : List (Expr × Expr)) :
    entriesLegible es ↔ ∀ e ∈ es, e.1.Legible ∧ e.2.Legible := by
  induction es with
  | nil => simp [entriesLegible]
  | cons e rest ih => simp [entriesLegible, ih, and_assoc]

theorem stmtsLegible_iff (ss : List Stmt) : stmtsLegible ss ↔ ∀ s ∈ ss, s.Legible := by
  induction ss with
  | nil => simp [stmtsLegible]
  | cons s rest ih => simp [stmtsLegible, ih]

theorem initsLegible_iff (is : List Init) : initsLegible is ↔ ∀ i ∈ is, i.Legible := by
  induction is with
  | nil => simp [initsLegible]
  | cons i rest ih => simp [initsLegible, ih]

theorem armsLegible_iff (arms : List (Expr × Block)) :
    armsLegible arms ↔ ∀ a ∈ arms, a.1.Legible ∧ a.2.Legible := by
  induction arms with
  | nil => simp [armsLegible]
  | cons a rest ih => simp [armsLegible, ih, and_assoc]

theorem valueArmsLegible_iff (arms : List (List Expr × Block)) :
    valueArmsLegible arms ↔ ∀ a ∈ arms, exprsLegible a.1 ∧ a.2.Legible := by
  induction arms with
  | nil => simp [valueArmsLegible]
  | cons a rest ih => simp [valueArmsLegible, ih, and_assoc]

theorem optionalLegible_iff (b : Option Block) : optionalLegible b ↔ ∀ b' ∈ b, b'.Legible := by
  cases b <;> simp [optionalLegible]

/-! ### Copies -/

mutual

theorem Expr.legible_unnumbered : (e : Expr) → (e.unnumbered.Legible ↔ e.Legible)
  | .literal .. | .varRef .. => by simp only [Expr.unnumbered, Expr.Legible]
  | .array _ elems | .tuple _ elems => by
    simp only [Expr.unnumbered, Expr.Legible, exprsLegible_unnumbered elems]
  | .dict _ entries => by
    simp only [Expr.unnumbered, Expr.Legible, entriesLegible_unnumbered entries]
  | .member _ receiver _ => by
    simp only [Expr.unnumbered, Expr.Legible, receiver.legible_unnumbered]
  | .index _ receiver index => by
    simp only [Expr.unnumbered, Expr.Legible, receiver.legible_unnumbered,
      index.legible_unnumbered]
  | .call _ callee args => by
    simp only [Expr.unnumbered, Expr.Legible, callee.legible_unnumbered,
      exprsLegible_unnumbered args]
  | .unary _ _ operand => by
    simp only [Expr.unnumbered, Expr.Legible, operand.legible_unnumbered]
  | .binary _ _ lhs rhs => by
    simp only [Expr.unnumbered, Expr.Legible, lhs.legible_unnumbered, rhs.legible_unnumbered]
  | .cast _ value _ | .typed _ value _ => by
    simp only [Expr.unnumbered, Expr.Legible, value.legible_unnumbered]
  | .ifElse _ _ condition thenValue elseValue => by
    simp only [Expr.unnumbered, Expr.Legible, condition.legible_unnumbered,
      thenValue.legible_unnumbered, elseValue.legible_unnumbered]
  | .range _ first last _ => by
    simp only [Expr.unnumbered, Expr.Legible, first.legible_unnumbered, last.legible_unnumbered]
  | .lambda _ d => by
    have hkind : d.unnumbered.kind = d.kind := by cases d; rw [FuncDef.unnumbered]
    simp only [Expr.unnumbered, Expr.Legible, hkind, d.legible_unnumbered]

theorem exprsLegible_unnumbered :
    (es : List Expr) → (exprsLegible (unnumberedExprs es) ↔ exprsLegible es)
  | [] => by simp only [unnumberedExprs]
  | e :: rest => by
    simp only [unnumberedExprs, exprsLegible, e.legible_unnumbered, exprsLegible_unnumbered rest]

theorem entriesLegible_unnumbered :
    (es : List (Expr × Expr)) → (entriesLegible (unnumberedEntries es) ↔ entriesLegible es)
  | [] => by simp only [unnumberedEntries]
  | (key, value) :: rest => by
    simp only [unnumberedEntries, entriesLegible, key.legible_unnumbered,
      value.legible_unnumbered, entriesLegible_unnumbered rest]

theorem FuncDef.legible_unnumbered : (d : FuncDef) → (d.unnumbered.Legible ↔ d.Legible)
  | ⟨_, _, _, _, _, body, ensureBody⟩ => by
    simp only [FuncDef.unnumbered, FuncDef.Legible, List.forall_mem_map, Param.unnumbered,
      body.legible_unnumbered, optionalLegible_unnumbered ensureBody]

theorem Block.legible_unnumbered : (b : Block) → (b.unnumbered.Legible ↔ b.Legible)
  | ⟨_, stmts⟩ => by
    simp only [Block.unnumbered, Block.Legible, stmtsLegible_unnumbered stmts]

theorem optionalLegible_unnumbered :
    (b : Option Block) → (optionalLegible (unnumberedBlock b) ↔ optionalLegible b)
  | none => by simp only [unnumberedBlock]
  | some b => by simp only [unnumberedBlock, optionalLegible, b.legible_unnumbered]

theorem Init.legible_unnumbered : (i : Init) → (i.unnumbered.Legible ↔ i.Legible)
  | ⟨_, _, values⟩ => by
    simp only [Init.unnumbered, Init.Legible, List.forall_mem_map, VarDecl.unnumbered,
      exprsLegible_unnumbered values]

theorem Stmt.legible_unnumbered : (s : Stmt) → (s.unnumbered.Legible ↔ s.Legible)
  | .init init => by simp only [Stmt.unnumbered, Stmt.Legible, init.legible_unnumbered]
  | .assign _ targets _ values => by
    simp only [Stmt.unnumbered, Stmt.Legible, exprsLegible_unnumbered targets,
      exprsLegible_unnumbered values]
  | .ifElse _ _ condition thenBlock elseifs elseBlock => by
    simp only [Stmt.unnumbered, Stmt.Legible, condition.legible_unnumbered,
      thenBlock.legible_unnumbered, armsLegible_unnumbered elseifs,
      optionalLegible_unnumbered elseBlock]
  | .ret _ values => by
    simp only [Stmt.unnumbered, Stmt.Legible, exprsLegible_unnumbered values]
  | .case _ whens elseBlock => by
    simp only [Stmt.unnumbered, Stmt.Legible, armsLegible_unnumbered whens,
      optionalLegible_unnumbered elseBlock]
  | .switch _ target whens elseBlock => by
    simp only [Stmt.unnumbered, Stmt.Legible, target.legible_unnumbered,
      valueArmsLegible_unnumbered whens, optionalLegible_unnumbered elseBlock]
  | .forIn _ _ range body => by
    simp only [Stmt.unnumbered, Stmt.Legible, List.forall_mem_map, Param.unnumbered,
      range.legible_unnumbered, body.legible_unnumbered]
  | .whileDo _ condition body => by
    simp only [Stmt.unnumbered, Stmt.Legible, condition.legible_unnumbered,
      body.legible_unnumbered]
  | .guarded _ body _ condition => by
    simp only [Stmt.unnumbered, Stmt.Legible, body.legible_unnumbered,
      condition.legible_unnumbered]
  | .letIn _ inits child => by
    simp only [Stmt.unnumbered, Stmt.Legible, initsLegible_unnumbered inits,
      child.legible_unnumbered]
  | .expr value => by simp only [Stmt.unnumbered, Stmt.Legible, value.legible_unnumbered]

theorem stmtsLegible_unnumbered :
    (ss : List Stmt) → (stmtsLegible (unnumberedStmts ss) ↔ stmtsLegible ss)
  | [] => by simp only [unnumberedStmts]
  | s :: rest => by
    simp only [unnumberedStmts, stmtsLegible, s.legible_unnumbered, stmtsLegible_unnumbered rest]

theorem initsLegible_unnumbered :
    (is : List Init) → (initsLegible (unnumberedInits is) ↔ initsLegible is)
  | [] => by simp only [unnumberedInits]
  | i :: rest => by
    simp only [unnumberedInits, initsLegible, i.legible_unnumbered, initsLegible_unnumbered rest]

theorem armsLegible_unnumbered :
    (arms : List (Expr × Block)) → (armsLegible (unnumberedArms arms) ↔ armsLegible arms)
  | [] => by simp only [unnumberedArms]
  | (condition, block) :: rest => by
    simp only [unnumberedArms, armsLegible, condition.legible_unnumbered,
      block.legible_unnumbered, armsLegible_unnumbered rest]

theorem valueArmsLegible_unnumbered : (arms : List (List Expr × Block)) →
    (valueArmsLegible (unnumberedValueArms arms) ↔ valueArmsLegible arms)
  | [] => by simp only [unnumberedValueArms]
  | (values, block) :: rest => by
    simp only [unnumberedValueArms, valueArmsLegible, exprsLegible_unnumbered values,
      block.legible_unnumbered, valueArmsLegible_unnumbered rest]

end

/-- A copy declares the same names. -/
theorem FuncDef.Legible.copy {d : FuncDef} (h : d.Legible) (n : Nat) :
    (d.copy.run n).1.Legible := by
  rw [← FuncDef.legible_unnumbered, d.copy_unnumbered, FuncDef.legible_unnumbered]
  exact h

/-! ### Names of the source text -/

/-- All names among the words of a piece are plain. -/
def Piece.Plain (p : Piece) : Prop := ∀ name, .name name ∈ p.words → IsPlain name

theorem Piece.plain_name (name : String) : (Piece.word (.name name)).Plain ↔ IsPlain name := by
  simp [Plain, words]

theorem Piece.plain_node (info : NodeInfo) (parts : List Piece) :
    (Piece.node info parts).Plain ↔ ∀ p ∈ parts, p.Plain := by
  simp only [Plain, words, wordsOfAll_eq, List.mem_flatMap]
  constructor
  · intro h p hp name hname
    exact h name ⟨p, hp, hname⟩
  · rintro h name ⟨p, hp, hname⟩
    exact h p hp name hname

section

variable {φ : Piece → Prop}

theorem forall_mem_exprPieces (es : List Expr) :
    (∀ p ∈ exprPieces es, φ p) ↔ ∀ e ∈ es, φ e.piece := by
  induction es with
  | nil => simp [exprPieces]
  | cons e rest ih => simp [exprPieces, ih]

theorem forall_mem_entryPieces (es : List (Expr × Expr)) :
    (∀ p ∈ entryPieces es, φ p) ↔ ∀ e ∈ es, φ e.1.piece ∧ φ e.2.piece := by
  induction es with
  | nil => simp [entryPieces]
  | cons e rest ih => simp [entryPieces, ih, and_assoc]

theorem forall_mem_stmtPieces (ss : List Stmt) :
    (∀ p ∈ stmtPieces ss, φ p) ↔ ∀ s ∈ ss, φ s.piece := by
  induction ss with
  | nil => simp [stmtPieces]
  | cons s rest ih => simp [stmtPieces, ih]

theorem forall_mem_initPieces (is : List Init) :
    (∀ p ∈ initPieces is, φ p) ↔ ∀ i ∈ is, φ i.piece := by
  induction is with
  | nil => simp [initPieces]
  | cons i rest ih => simp [initPieces, ih]

theorem forall_mem_armPieces (arms : List (Expr × Block)) :
    (∀ p ∈ armPieces arms, φ p) ↔ ∀ a ∈ arms, φ a.1.piece ∧ φ a.2.piece := by
  induction arms with
  | nil => simp [armPieces]
  | cons a rest ih => simp [armPieces, ih, and_assoc]

theorem forall_mem_valueArmPieces (arms : List (List Expr × Block)) :
    (∀ p ∈ valueArmPieces arms, φ p) ↔
      ∀ a ∈ arms, (∀ e ∈ a.1, φ e.piece) ∧ φ a.2.piece := by
  induction arms with
  | nil => simp [valueArmPieces]
  | cons a rest ih =>
    simp only [valueArmPieces, List.forall_mem_append, List.forall_mem_cons,
      forall_mem_exprPieces, ih, and_assoc]

theorem forall_mem_blockPieces (b : Option Block) :
    (∀ p ∈ blockPieces b, φ p) ↔ ∀ b' ∈ b, φ b'.piece := by
  cases b <;> simp [blockPieces]

end

theorem declarationPiece_plain {info : NodeInfo} {name : String} {type : Option TypeExpr}
    (h : (declarationPiece info name type).Plain) : IsPlain name := by
  rw [declarationPiece, Piece.plain_node, List.forall_mem_cons, Piece.plain_name] at h
  exact h.1

/-- The name of a lambda is plain. -/
theorem lambdaName_plain (id : Nat) : IsPlain ("lambda." ++ id.repr) := by
  have hword : IsPlain "lambda." := by decide
  intro c hc
  rw [String.toList_append, List.mem_append] at hc
  obtain hc | hdigit := hc
  · exact hword c hc
  · have hc := Nat.isDigit_of_mem_toDigits (by decide) (by decide) (Nat.toList_repr ▸ hdigit)
    refine ⟨?_, ?_, ?_⟩ <;>
    · rintro rfl
      revert hc
      decide

/-- An expression that can be written down, or a target, whose names are plain words. -/
def Expr.Spelled (e : Expr) : Prop := e.piece.Plain ∧ (e.isName = true ∨ e.Written)

/-- An expression whose names are plain words and that is no target can be written down. -/
theorem Expr.Spelled.written {e : Expr} (h : e.Spelled) (hname : e.isName = false) :
    e.piece.Plain ∧ e.Written :=
  ⟨h.1, h.2.resolve_left (by simp [hname])⟩

/-- Expressions that can be written down and whose names are plain words. -/
theorem exprs_spelled {es : List Expr} (hp : ∀ e ∈ es, e.piece.Plain) (hw : exprsWritten es) :
    ∀ e ∈ es, e.Spelled :=
  fun e he => ⟨hp e he, .inr ((exprsWritten_iff es).mp hw e he)⟩

/-- What can be written down with plain words declares plain names; those of lambdas are made
from their ids. -/
theorem spelledLegible : TreeInduction (fun e => e.Spelled → e.Legible)
    (fun d => d.piece.Plain → d.Written → IsPlain d.name → d.Legible)
    (fun b => b.piece.Plain → b.Written → b.Legible)
    (fun i => i.piece.Plain → i.Written → i.Legible)
    (fun s => s.piece.Plain → s.Written → s.Legible) where
  literal info value := by
    intro _
    simp only [Expr.Legible]
  array info elems ih := by
    intro h
    obtain ⟨hp, hw⟩ := h.written rfl
    simp only [Expr.piece, Piece.plain_node, forall_mem_exprPieces, Expr.Written] at hp hw
    simp only [Expr.Legible, exprsLegible_iff]
    exact fun e he => ih e he (exprs_spelled hp hw e he)
  tuple info elems ih := by
    intro h
    obtain ⟨hp, hw⟩ := h.written rfl
    simp only [Expr.piece, Piece.plain_node, forall_mem_exprPieces, Expr.Written] at hp hw
    simp only [Expr.Legible, exprsLegible_iff]
    exact fun e he => ih e he (exprs_spelled hp hw.2 e he)
  dict info entries ih := by
    intro h
    obtain ⟨hp, hw⟩ := h.written rfl
    simp only [Expr.piece, Piece.plain_node, forall_mem_entryPieces, Expr.Written,
      entriesWritten_iff] at hp hw
    simp only [Expr.Legible, entriesLegible_iff]
    exact fun e he => ⟨(ih e he).1 ⟨(hp e he).1, .inr (hw e he).1⟩,
      (ih e he).2 ⟨(hp e he).2, .inr (hw e he).2⟩⟩
  varRef info name assigned := by
    intro _
    simp only [Expr.Legible]
  member info receiver name ih := by
    intro h
    obtain ⟨hp, hw⟩ := h.written rfl
    simp only [Expr.piece, Piece.plain_node, List.forall_mem_cons, Expr.Written] at hp hw
    simp only [Expr.Legible]
    exact ih ⟨hp.1, .inr hw⟩
  index info receiver index ihr ihi := by
    intro h
    obtain ⟨hp, hw⟩ := h.written rfl
    simp only [Expr.piece, Piece.plain_node, List.forall_mem_cons, Expr.Written] at hp hw
    simp only [Expr.Legible]
    exact ⟨ihr ⟨hp.1, .inr hw.1⟩, ihi ⟨hp.2.1, .inr hw.2⟩⟩
  call info callee args ihc _ iha := by
    intro h
    obtain ⟨hp, hw⟩ := h.written rfl
    simp only [Expr.piece, Piece.plain_node, List.forall_mem_cons, forall_mem_exprPieces,
      Expr.Written] at hp hw
    simp only [Expr.Legible, exprsLegible_iff]
    exact ⟨ihc ⟨hp.1, .inr hw.1⟩, fun e he => iha e he (exprs_spelled hp.2 hw.2 e he)⟩
  unary info op operand ih := by
    intro h
    obtain ⟨hp, hw⟩ := h.written rfl
    simp only [Expr.piece, Piece.plain_node, List.forall_mem_cons, Expr.Written] at hp hw
    simp only [Expr.Legible]
    exact ih ⟨hp.1, .inr hw⟩
  binary info op lhs rhs ihl ihr := by
    intro h
    obtain ⟨hp, hw⟩ := h.written rfl
    simp only [Expr.piece, Piece.plain_node, List.forall_mem_cons, Expr.Written] at hp hw
    simp only [Expr.Legible]
    exact ⟨ihl ⟨hp.1, .inr hw.1⟩, ihr ⟨hp.2.1, .inr hw.2⟩⟩
  cast info value type ih := by
    intro h
    obtain ⟨hp, hw⟩ := h.written rfl
    simp only [Expr.piece, Piece.plain_node, List.forall_mem_cons, Expr.Written] at hp hw
    simp only [Expr.Legible]
    exact ih ⟨hp.1, .inr hw.1⟩
  typed info value type ih := by
    intro h
    obtain ⟨hp, hw⟩ := h.written rfl
    simp only [Expr.piece, Piece.plain_node, List.forall_mem_cons, Expr.Written] at hp hw
    simp only [Expr.Legible]
    exact ih ⟨hp.1, .inr hw.1⟩
  ifElse info kind condition thenValue elseValue ihc iht ihe := by
    intro h
    obtain ⟨hp, hw⟩ := h.written rfl
    simp only [Expr.piece, Piece.plain_node, List.forall_mem_cons, Expr.Written] at hp hw
    simp only [Expr.Legible]
    exact ⟨ihc ⟨hp.1, .inr hw.1⟩, iht ⟨hp.2.1, .inr hw.2.1⟩, ihe ⟨hp.2.2.1, .inr hw.2.2⟩⟩
  range info first last inclusive ihf ihl := by
    intro h
    obtain ⟨hp, hw⟩ := h.written rfl
    simp only [Expr.piece, Piece.plain_node, List.forall_mem_cons, Expr.Written] at hp hw
    simp only [Expr.Legible]
    exact ⟨ihf ⟨hp.1, .inr hw.1⟩, ihl ⟨hp.2.1, .inr hw.2⟩⟩
  lambda info d ih := by
    intro h
    obtain ⟨hp, hw⟩ := h.written rfl
    simp only [Expr.piece, Piece.plain_node, List.forall_mem_cons, Expr.Written] at hp hw
    simp only [Expr.Legible]
    exact ⟨hw.1.kind, ih hp.1 hw.2 (hw.1.name ▸ lambdaName_plain _)⟩
  function info kind name params returnType body ensureBody ihb ihe := by
    intro hp hw hname
    simp only [FuncDef.piece, Piece.plain_node, List.forall_mem_append, List.forall_mem_map,
      List.forall_mem_cons, forall_mem_blockPieces, FuncDef.Written, blockWritten_iff] at hp hw
    simp only [FuncDef.Legible, optionalLegible_iff]
    exact ⟨hname, fun q hq => declarationPiece_plain (hp.1.1.2 q hq), ihb hp.2.1 hw.2.2.1,
      fun b hb => ihe b hb (hp.2.2 b hb) (hw.2.2.2 b hb)⟩
  block info stmts ih := by
    intro hp hw
    simp only [Block.piece, Piece.plain_node, forall_mem_stmtPieces, Block.Written,
      stmtsWritten_iff] at hp hw
    simp only [Block.Legible, stmtsLegible_iff]
    exact fun s hs => ih s hs (hp s hs) (hw s hs)
  inits info decls values ih := by
    intro hp hw
    simp only [Init.piece, Piece.plain_node, List.forall_mem_append, List.forall_mem_map,
      forall_mem_exprPieces, Init.Written] at hp hw
    simp only [Init.Legible, exprsLegible_iff]
    exact ⟨fun d hd => declarationPiece_plain (hp.1 d hd),
      fun e he => ih e he (exprs_spelled hp.2 hw.2.2.2.2 e he)⟩
  init i ih := by
    intro hp hw
    simp only [Stmt.piece, Stmt.Written] at hp hw
    simp only [Stmt.Legible]
    exact ih hp hw
  assign info targets op values iht ihv := by
    intro hp hw
    simp only [Stmt.piece, Piece.plain_node, List.forall_mem_append, forall_mem_exprPieces,
      Stmt.Written, targetsWritten_iff] at hp hw
    simp only [Stmt.Legible, exprsLegible_iff]
    exact ⟨fun e he => iht e he ⟨hp.1 e he, (hw.2.2.2.1 e he).2⟩,
      fun e he => ihv e he (exprs_spelled hp.2 hw.2.2.2.2 e he)⟩
  conditional info kind condition thenBlock elseifs elseBlock ihc iht iha ihe := by
    intro hp hw
    simp only [Stmt.piece, Piece.plain_node, List.forall_mem_cons, List.forall_mem_append,
      forall_mem_armPieces, forall_mem_blockPieces, Stmt.Written, armsWritten_iff,
      blockWritten_iff] at hp hw
    simp only [Stmt.Legible, armsLegible_iff, optionalLegible_iff]
    exact ⟨ihc ⟨hp.1, .inr hw.1⟩, iht hp.2.1 hw.2.1,
      fun a ha => ⟨(iha a ha).1 ⟨(hp.2.2.1 a ha).1, .inr (hw.2.2.1 a ha).1⟩,
        (iha a ha).2 (hp.2.2.1 a ha).2 (hw.2.2.1 a ha).2⟩,
      fun b hb => ihe b hb (hp.2.2.2 b hb) (hw.2.2.2 b hb)⟩
  ret info values ih := by
    intro hp hw
    simp only [Stmt.piece, Piece.plain_node, forall_mem_exprPieces, Stmt.Written] at hp hw
    simp only [Stmt.Legible, exprsLegible_iff]
    exact fun e he => ih e he (exprs_spelled hp hw e he)
  case info whens elseBlock iha ihe := by
    intro hp hw
    simp only [Stmt.piece, Piece.plain_node, List.forall_mem_append, forall_mem_armPieces,
      forall_mem_blockPieces, Stmt.Written, armsWritten_iff, blockWritten_iff] at hp hw
    simp only [Stmt.Legible, armsLegible_iff, optionalLegible_iff]
    exact ⟨fun a ha => ⟨(iha a ha).1 ⟨(hp.1 a ha).1, .inr (hw.1 a ha).1⟩,
        (iha a ha).2 (hp.1 a ha).2 (hw.1 a ha).2⟩,
      fun b hb => ihe b hb (hp.2 b hb) (hw.2 b hb)⟩
  switch info target whens elseBlock iht iha ihe := by
    intro hp hw
    simp only [Stmt.piece, Piece.plain_node, List.forall_mem_cons, List.forall_mem_append,
      forall_mem_valueArmPieces, forall_mem_blockPieces, Stmt.Written, valueArmsWritten_iff,
      blockWritten_iff] at hp hw
    simp only [Stmt.Legible, valueArmsLegible_iff, exprsLegible_iff, optionalLegible_iff]
    exact ⟨iht ⟨hp.1, .inr hw.1⟩,
      fun a ha => ⟨fun e he => (iha a ha).1 e he
          (exprs_spelled (hp.2.1 a ha).1 (hw.2.1 a ha).1.2 e he),
        (iha a ha).2 (hp.2.1 a ha).2 (hw.2.1 a ha).2⟩,
      fun b hb => ihe b hb (hp.2.2 b hb) (hw.2.2 b hb)⟩
  forIn info vars range bodyInfo stmts ihr ihs := by
    intro hp hw
    simp only [Stmt.piece, Block.piece, Piece.plain_node, List.forall_mem_append,
      List.forall_mem_map, List.forall_mem_cons, forall_mem_stmtPieces, Stmt.Written,
      Block.Written, stmtsWritten_iff] at hp hw
    simp only [Stmt.Legible, Block.Legible, stmtsLegible_iff]
    exact ⟨fun v hv => declarationPiece_plain (hp.1 v hv), ihr ⟨hp.2.1, .inr hw.2.2.1⟩,
      fun s hs => ihs s hs (hp.2.2.1 s hs) (hw.2.2.2 s hs)⟩
  whileDo info condition body ihc ihb := by
    intro hp hw
    simp only [Stmt.piece, Piece.plain_node, List.forall_mem_cons, Stmt.Written] at hp hw
    simp only [Stmt.Legible]
    exact ⟨ihc ⟨hp.1, .inr hw.1⟩, ihb hp.2.1 hw.2⟩
  guarded info body kind condition ihb ihc := by
    intro hp hw
    simp only [Stmt.piece, Piece.plain_node, List.forall_mem_cons, Stmt.Written] at hp hw
    simp only [Stmt.Legible]
    exact ⟨ihb hp.1 hw.2.1, ihc ⟨hp.2.1, .inr hw.2.2⟩⟩
  letIn info inits child ihi ihc := by
    intro hp hw
    simp only [Stmt.piece, Piece.plain_node, List.forall_mem_append, List.forall_mem_cons,
      forall_mem_initPieces, Stmt.Written, initsWritten_iff] at hp hw
    simp only [Stmt.Legible, initsLegible_iff]
    exact ⟨fun i hi => ihi i hi (hp.1 i hi) (hw.2.1 i hi), ihc hp.2.1 hw.2.2⟩
  expr value ih := by
    intro hp hw
    simp only [Stmt.piece, Stmt.Written] at hp hw
    simp only [Stmt.Legible]
    exact ih ⟨hp, .inr hw⟩

/-- What is defined under a keyword with plain words declares plain names. -/
theorem Definition.Written.legible {d : Definition} (hp : d.piece.Plain) (hw : d.Written) :
    d.Legible := by
  cases d with
  | function d =>
    refine ⟨hw.1.kind, spelledLegible.onFunctions d hp hw.2 ?_⟩
    obtain ⟨info, kind, name, params, returnType, body, ensureBody⟩ := d
    rw [piece, FuncDef.piece, Piece.plain_node] at hp
    refine (Piece.plain_name name).mp (hp _ ?_)
    cases kind with
    | lambda => exact absurd rfl hw.1.kind
    | _ => simp [FuncKind.namePieces]
  | constant d =>
    simp only [piece, ConstDef.piece, Piece.plain_node, List.forall_mem_append,
      List.forall_mem_map, forall_mem_exprPieces] at hp
    rw [Legible, exprsLegible_iff]
    exact ⟨fun c hc => declarationPiece_plain (hp.1 c hc), fun e he =>
      spelledLegible.onExprs e (exprs_spelled hp.2 hw.2.2.2 e he)⟩

namespace Token

variable {source file : String} {tokens : List Token}

/-- No fixed spelling is an identifier. -/
theorem symbol_ne_identifier {kind : TokenKind} {spelling : String}
    (h : .symbol kind spelling ∈ Pattern.table) : kind ≠ .identifier := by
  have htable : (Pattern.table.all fun
      | .symbol kind _ => kind ≠ .identifier
      | _ => true) = true := by decide
  simpa using List.all_eq_true.mp htable _ h

/-- The text of an identifier is that of a word. -/
theorem plain_of_identifier {q : Pattern} {taken rest : List Char} {value : String}
    (hq : q ∈ Pattern.table) (htake : q.take? (taken ++ rest) = some (taken, rest))
    (htoken : q.token? taken = some (.identifier, value)) : IsPlain value := by
  cases q with
  | blank | comment | string | char => cases htoken
  | number =>
    simp only [Pattern.token?] at htoken
    split_ifs at htoken <;> cases htoken
  | symbol kind spelling =>
    cases htoken
    exact absurd rfl (symbol_ne_identifier hq)
  | word =>
    simp only [Pattern.token?, Option.some.injEq, Prod.mk.injEq] at htoken
    intro c hc
    rw [← htoken.2, String.toList_ofList] at hc
    have hword : Pattern.isWordRest c = true := by
      cases Pattern.take?_reads htake with
      | word hstart hrest =>
        obtain rfl | hc := List.mem_cons.mp hc
        · exact Pattern.isWordRest_of_isWordStart hstart
        · exact hrest c hc
    refine ⟨?_, ?_, ?_⟩ <;>
    · rintro rfl
      revert hword
      decide

theorem Scanned.plain {p : Position} {text : List Char} (h : Scanned p text tokens) :
    ∀ t ∈ tokens, t.kind = .identifier → IsPlain t.value := by
  induction h with
  | eof => simp
  | skip _ _ _ ih => exact ih
  | token hfirst hq _ ih =>
    refine List.forall_mem_cons.mpr ⟨?_, ih⟩
    rintro rfl
    obtain ⟨hmem, htake⟩ := Pattern.first?_eq_some hfirst
    exact plain_of_identifier hmem htake hq

/-- Only an identifier stands for a name. -/
theorem identifier_of_word? {t : Token} {name : String} (h : t.word? = some (.name name)) :
    t.kind = .identifier ∧ t.value = name := by
  unfold word? at h
  split at h
  · next hkind =>
    cases h
    exact ⟨hkind, rfl⟩
  all_goals first
    | cases h
    | obtain ⟨_, _, heq⟩ := Option.map_eq_some_iff.mp h
      cases heq

end Token

/-- A program that is read from a source text declares plain names. -/
theorem Program.parse_legible {source file : String} {tokens : List Token} {firstId nextId : Nat}
    {p : Program} (htokens : Token.tokenize source file = .ok tokens)
    (h : Program.parse tokens file firstId = .ok (p, nextId)) : p.Legible := by
  intro d hd
  refine Definition.Written.legible (fun name hname => ?_) ((parse_written h).2 d hd)
  have hword : some (Word.name name) ∈
      ((Token.content tokens).filter (·.kind.holdsWord)).map Token.word? := by
    rw [(parse_laid h).1.words, Piece.wordsOfAll_eq]
    exact List.mem_map_of_mem (List.mem_flatMap.mpr ⟨d.piece, List.mem_map_of_mem hd, hname⟩)
  obtain ⟨t, ht, hword⟩ := List.mem_map.mp hword
  obtain ⟨hkind, rfl⟩ := Token.identifier_of_word? hword
  have hmem : t ∈ tokens := (List.takeWhile_sublist _).subset (List.mem_of_mem_filter ht)
  exact (Token.scanned_of_scan htokens).plain t hmem hkind

end Frontend
