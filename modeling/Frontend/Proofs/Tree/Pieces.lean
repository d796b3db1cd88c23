import Mathlib.Data.List.Basic
import Frontend.Proofs.Tree.Induction
import Frontend.Proofs.Tree.Shape

/-!
# Trees in source order

A tree forgets the tokens it was read from but for names, literals and spans. `Piece` keeps just
these: a node has a span, and its parts stand in the order of the source, whatever the order of the
fields is and however the node is built. The words of a tree are the leaves of its piece.
-/

namespace Frontend

/-- A name or a literal of a source text. -/
inductive Word where
  | name (text : String)
  | literal (value : Literal)
deriving DecidableEq, Repr

/-- A word, or a node with its parts in source order. -/
inductive Piece where
  | word (w : Word)
  | node (info : NodeInfo) (parts : List Piece)

namespace Piece

mutual

/-- The words of a piece, from left to right. -/
def words : Piece → List Word
  | .word w => [w]
  | .node _ parts => wordsOfAll parts

/-- The words of pieces, from left to right. -/
def wordsOfAll : List Piece → List Word
  | [] => []
  | p :: rest => p.words ++ wordsOfAll rest

end

mutual

/-- The nodes of a piece, each with its parts and in front of them. -/
def nodes : Piece → List (NodeInfo × List Piece)
  | .word _ => []
  | .node info parts => (info, parts) :: nodesOfAll parts

/-- The nodes of pieces. -/
def nodesOfAll : List Piece → List (NodeInfo × List Piece)
  | [] => []
  | p :: rest => p.nodes ++ nodesOfAll rest

end

/-- The span of a node. -/
def span? : Piece → Option Span
  | .word _ => none
  | .node info _ => some info.span

theorem wordsOfAll_eq (ps : List Piece) : wordsOfAll ps = ps.flatMap words := by
  induction ps with
  | nil => rfl
  | cons p rest ih => rw [wordsOfAll, ih, List.flatMap_cons]

theorem nodesOfAll_eq (ps : List Piece) : nodesOfAll ps = ps.flatMap nodes := by
  induction ps with
  | nil => rfl
  | cons p rest ih => rw [nodesOfAll, ih, List.flatMap_cons]

end Piece

/-- The word of a literal; a symbol is written as a name. -/
def Literal.word : Literal → Word
  | .symbol name => .name name
  | value => .literal value

mutual

/-- A type annotation in source order. -/
def TypeExpr.piece : TypeExpr → Piece
  | .primary info name args => .node info (.word (.name name) :: TypeExpr.pieces args)
  | .array info elem => .node info [elem.piece]
  | .dict info key value => .node info [key.piece, value.piece]
  | .tuple info elems => .node info (TypeExpr.pieces elems)
  | .func info _ params none => .node info (TypeExpr.pieces params)
  | .func info _ params (some ret) => .node info (TypeExpr.pieces params ++ [ret.piece])
  | .qualified info _ inner => .node info [inner.piece]

/-- Type annotations in source order. -/
def TypeExpr.pieces : List TypeExpr → List Piece
  | [] => []
  | t :: rest => t.piece :: TypeExpr.pieces rest

end

/-- A declared name and the type behind it, if there is one. -/
def declarationPiece (info : NodeInfo) (name : String) (type : Option TypeExpr) : Piece :=
  .node info (.word (.name name) :: (type.map TypeExpr.piece).toList)

/-- A parameter in source order. -/
def Param.piece (p : Param) : Piece := declarationPiece p.info p.name p.type

/-- A declaration in source order. -/
def VarDecl.piece (d : VarDecl) : Piece := declarationPiece d.info d.name d.type

/-- A declaration of a constant in source order. -/
def ConstDecl.piece (d : ConstDecl) : Piece := declarationPiece d.info d.name d.type

/-- The name of a function, where it is written. -/
def FuncKind.namePieces (kind : FuncKind) (name : String) : List Piece :=
  match kind with
  | .lambda => []
  | .func | .proc => [.word (.name name)]

mutual

/-- An expression in source order. -/
def Expr.piece : Expr → Piece
  | .literal info value => .node info [.word value.word]
  | .array info elems | .tuple info elems => .node info (exprPieces elems)
  | .dict info entries => .node info (entryPieces entries)
  | .varRef info name _ => .node info [.word (.name name)]
  | .member info receiver name => .node info [receiver.piece, .word (.name name)]
  | .index info receiver index => .node info [receiver.piece, index.piece]
  | .call info callee args => .node info (callee.piece :: exprPieces args)
  | .unary info _ operand => .node info [operand.piece]
  | .binary info _ lhs rhs => .node info [lhs.piece, rhs.piece]
  | .cast info value type | .typed info value type => .node info [value.piece, type.piece]
  | .ifElse info _ condition thenValue elseValue =>
    .node info [condition.piece, thenValue.piece, elseValue.piece]
  | .range info first last _ => .node info [first.piece, last.piece]
  | .lambda info definition => .node info [definition.piece]

/-- Expressions in source order. -/
def exprPieces : List Expr → List Piece
  | [] => []
  | e :: rest => e.piece :: exprPieces rest

/-- The entries of a dictionary in source order. -/
def entryPieces : List (Expr × Expr) → List Piece
  | [] => []
  | (key, value) :: rest => key.piece :: value.piece :: entryPieces rest

/-- A function in source order. The name of a lambda is not written anywhere. -/
def FuncDef.piece : FuncDef → Piece
  | ⟨info, kind, name, params, returnType, body, ensureBody⟩ =>
    .node info (kind.namePieces name ++ params.map Param.piece ++
      (returnType.map TypeExpr.piece).toList ++ body.piece :: blockPieces ensureBody)

/-- A block in source order. -/
def Block.piece : Block → Piece
  | ⟨info, stmts⟩ => .node info (stmtPieces stmts)

/-- An optional block in source order. -/
def blockPieces : Option Block → List Piece
  | none => []
  | some b => [b.piece]

/-- An initialize statement in source order. -/
def Init.piece : Init → Piece
  | ⟨info, decls, values⟩ => .node info (decls.map VarDecl.piece ++ exprPieces values)

/-- A statement in source order. -/
def Stmt.piece : Stmt → Piece
  | .init init => init.piece
  | .assign info targets _ values => .node info (exprPieces targets ++ exprPieces values)
  | .ifElse info _ condition thenBlock elseifs elseBlock =>
    .node info
      (condition.piece :: thenBlock.piece :: (armPieces elseifs ++ blockPieces elseBlock))
  | .ret info values => .node info (exprPieces values)
  | .case info whens elseBlock => .node info (armPieces whens ++ blockPieces elseBlock)
  | .switch info target whens elseBlock =>
    .node info (target.piece :: (valueArmPieces whens ++ blockPieces elseBlock))
  | .forIn info vars range body =>
    .node info (vars.map Param.piece ++ [range.piece, body.piece])
  | .whileDo info condition body => .node info [condition.piece, body.piece]
  | .guarded info body _ condition => .node info [body.piece, condition.piece]
  | .letIn info inits child => .node info (initPieces inits ++ [child.piece])
  | .expr value => value.piece

/-- Statements in source order. -/
def stmtPieces : List Stmt → List Piece
  | [] => []
  | s :: rest => s.piece :: stmtPieces rest

/-- Initialize statements in source order. -/
def initPieces : List Init → List Piece
  | [] => []
  | init :: rest => init.piece :: initPieces rest

/-- Conditions and the blocks they guard, in source order. -/
def armPieces : List (Expr × Block) → List Piece
  | [] => []
  | (condition, block) :: rest => condition.piece :: block.piece :: armPieces rest

/-- Values and the blocks that are run for them, in source order. -/
def valueArmPieces : List (List Expr × Block) → List Piece
  | [] => []
  | (values, block) :: rest => exprPieces values ++ block.piece :: valueArmPieces rest

end

/-- A constant definition in source order. -/
def ConstDef.piece (d : ConstDef) : Piece :=
  .node d.info (d.decls.map ConstDecl.piece ++ exprPieces d.values)

/-- A definition in source order. -/
def Definition.piece : Definition → Piece
  | .function d => d.piece
  | .constant d => d.piece

/-- A program in source order. -/
def Program.piece (p : Program) : Piece :=
  .node p.info (p.definitions.map Definition.piece)

/-! ### Lists of parts -/

theorem TypeExpr.pieces_eq (ts : List TypeExpr) :
    TypeExpr.pieces ts = ts.flatMap fun t => [t.piece] := by
  induction ts with
  | nil => rfl
  | cons t rest ih => rw [TypeExpr.pieces, ih, List.flatMap_cons, List.singleton_append]

theorem exprPieces_eq (es : List Expr) : exprPieces es = es.flatMap fun e => [e.piece] := by
  induction es with
  | nil => rfl
  | cons e rest ih => rw [exprPieces, ih, List.flatMap_cons, List.singleton_append]

theorem entryPieces_eq (entries : List (Expr × Expr)) :
    entryPieces entries = entries.flatMap fun e => [e.1.piece, e.2.piece] := by
  induction entries with
  | nil => rfl
  | cons entry rest ih => simp only [entryPieces, ih, List.flatMap_cons, List.cons_append,
      List.nil_append]

theorem stmtPieces_eq (stmts : List Stmt) :
    stmtPieces stmts = stmts.flatMap fun s => [s.piece] := by
  induction stmts with
  | nil => rfl
  | cons s rest ih => rw [stmtPieces, ih, List.flatMap_cons, List.singleton_append]

theorem initPieces_eq (inits : List Init) :
    initPieces inits = inits.flatMap fun i => [i.piece] := by
  induction inits with
  | nil => rfl
  | cons i rest ih => rw [initPieces, ih, List.flatMap_cons, List.singleton_append]

theorem armPieces_eq (arms : List (Expr × Block)) :
    armPieces arms = arms.flatMap fun a => [a.1.piece, a.2.piece] := by
  induction arms with
  | nil => rfl
  | cons arm rest ih => simp only [armPieces, ih, List.flatMap_cons, List.cons_append,
      List.nil_append]

theorem valueArmPieces_eq (arms : List (List Expr × Block)) :
    valueArmPieces arms = arms.flatMap fun a => exprPieces a.1 ++ [a.2.piece] := by
  induction arms with
  | nil => rfl
  | cons arm rest ih => simp only [valueArmPieces, ih, List.flatMap_cons, List.append_assoc,
      List.cons_append, List.nil_append]

/-! ### Nodes -/

/-- A node begins where its piece does. -/
theorem TypeExpr.piece_eq_node (t : TypeExpr) : ∃ parts, t.piece = .node t.info parts := by
  cases t with
  | func info kind params ret => cases ret <;> exact ⟨_, by rw [TypeExpr.piece]; rfl⟩
  | _ => exact ⟨_, by rw [TypeExpr.piece]; rfl⟩

theorem Expr.piece_eq_node (e : Expr) : ∃ parts, e.piece = .node e.info parts := by
  cases e <;> exact ⟨_, by rw [Expr.piece]; rfl⟩

/-- To be assigned does not change how an expression is written. -/
theorem Expr.piece_asTarget (e : Expr) : e.asTarget.piece = e.piece := by
  cases e <;> simp only [Expr.asTarget, Expr.piece]

theorem exprPieces_asTarget (es : List Expr) :
    exprPieces (es.map Expr.asTarget) = exprPieces es := by
  simp only [exprPieces_eq, List.flatMap_map, Expr.piece_asTarget]

/-! ### The ids of the nodes -/

/-- The ids of the nodes of a piece. -/
def Piece.ids (p : Piece) : List Nat := p.nodes.map (·.1.id)

@[simp] theorem Piece.ids_word (w : Word) : (Piece.word w).ids = [] := rfl

@[simp] theorem Piece.ids_node (info : NodeInfo) (parts : List Piece) :
    (Piece.node info parts).ids = info.id :: parts.flatMap Piece.ids := by
  simp only [Piece.ids, Piece.nodes, List.map_cons, Piece.nodesOfAll_eq, List.map_flatMap]
  rfl

mutual

theorem TypeExpr.piece_ids : (t : TypeExpr) → t.piece.ids = t.ids
  | .primary info name args => by simp [TypeExpr.piece, TypeExpr.ids, TypeExpr.pieces_ids args]
  | .array info elem => by simp [TypeExpr.piece, TypeExpr.ids, elem.piece_ids]
  | .dict info key value => by
    simp [TypeExpr.piece, TypeExpr.ids, key.piece_ids, value.piece_ids]
  | .tuple info elems => by simp [TypeExpr.piece, TypeExpr.ids, TypeExpr.pieces_ids elems]
  | .func info kind params none => by
    simp [TypeExpr.piece, TypeExpr.ids, TypeExpr.pieces_ids params]
  | .func info kind params (some ret) => by
    simp [TypeExpr.piece, TypeExpr.ids, TypeExpr.pieces_ids params, ret.piece_ids]
  | .qualified info qualifier inner => by simp [TypeExpr.piece, TypeExpr.ids, inner.piece_ids]

theorem TypeExpr.pieces_ids :
    (ts : List TypeExpr) → (TypeExpr.pieces ts).flatMap Piece.ids = TypeExpr.idsAll ts
  | [] => by simp [TypeExpr.pieces, TypeExpr.idsAll]
  | t :: rest => by
    simp [TypeExpr.pieces, TypeExpr.idsAll, t.piece_ids, TypeExpr.pieces_ids rest]

end

theorem declarationPiece_ids (info : NodeInfo) (name : String) (type : Option TypeExpr) :
    (declarationPiece info name type).ids = info.id :: TypeExpr.idsOption type := by
  cases type <;> simp [declarationPiece, TypeExpr.idsOption, TypeExpr.piece_ids]

section

variable {α : Type} {as : List α}

theorem map_pieces_ids {f : α → Piece} {g : α → List Nat} (h : ∀ a, (f a).ids = g a) :
    (as.map f).flatMap Piece.ids = as.flatMap g := by
  rw [List.flatMap_map]
  exact List.flatMap_congr fun a _ => h a

theorem flatMap_pieces_ids {f : α → List Piece} {g : α → List Nat}
    (h : ∀ a ∈ as, (f a).flatMap Piece.ids = g a) :
    (as.flatMap f).flatMap Piece.ids = as.flatMap g := by
  rw [List.flatMap_assoc]
  exact List.flatMap_congr h

end

theorem Param.pieces_ids (ps : List Param) :
    (ps.map Param.piece).flatMap Piece.ids = ps.flatMap Param.ids :=
  map_pieces_ids fun p => declarationPiece_ids p.info p.name p.type

theorem VarDecl.pieces_ids (ds : List VarDecl) :
    (ds.map VarDecl.piece).flatMap Piece.ids = ds.flatMap VarDecl.ids :=
  map_pieces_ids fun d => declarationPiece_ids d.info d.name d.type

theorem ConstDecl.pieces_ids (ds : List ConstDecl) :
    (ds.map ConstDecl.piece).flatMap Piece.ids = ds.flatMap ConstDecl.ids :=
  map_pieces_ids fun d => declarationPiece_ids d.info d.name d.type

theorem exprPieces_ids {es : List Expr} (h : ∀ e ∈ es, e.piece.ids = e.ids) :
    (exprPieces es).flatMap Piece.ids = exprIds es := by
  rw [exprPieces_eq, exprIds_eq]
  exact flatMap_pieces_ids fun e he => by simp [h e he]

theorem armPieces_ids {arms : List (Expr × Block)}
    (h : ∀ a ∈ arms, a.1.piece.ids = a.1.ids ∧ a.2.piece.ids = a.2.ids) :
    (armPieces arms).flatMap Piece.ids = armIds arms := by
  rw [armPieces_eq, armIds_eq]
  exact flatMap_pieces_ids fun a ha => by simp [h a ha]

theorem stmtPieces_ids {ss : List Stmt} (h : ∀ s ∈ ss, s.piece.ids = s.ids) :
    (stmtPieces ss).flatMap Piece.ids = stmtIds ss := by
  rw [stmtPieces_eq, stmtIds_eq]
  exact flatMap_pieces_ids fun s hs => by simp [h s hs]

theorem blockPieces_ids {b : Option Block} (h : ∀ b' ∈ b, b'.piece.ids = b'.ids) :
    (blockPieces b).flatMap Piece.ids = blockIds b := by
  cases b with
  | none => simp [blockPieces, blockIds]
  | some b => simp [blockPieces, blockIds, h b rfl]

/-- The nodes of a tree have one piece each, in the order in which its ids are listed. -/
theorem pieceIds : TreeInduction (fun e => e.piece.ids = e.ids) (fun d => d.piece.ids = d.ids)
    (fun b => b.piece.ids = b.ids) (fun i => i.piece.ids = i.ids) fun s => s.piece.ids = s.ids where
  literal info value := by simp [Expr.piece, Expr.ids]
  array info elems h := by simp [Expr.piece, Expr.ids, exprPieces_ids h]
  tuple info elems h := by simp [Expr.piece, Expr.ids, exprPieces_ids h]
  dict info entries h := by
    rw [Expr.piece, Expr.ids, Piece.ids_node, entryPieces_eq, entryIds_eq]
    exact congrArg _ (flatMap_pieces_ids fun e he => by simp [h e he])
  varRef info name assigned := by simp [Expr.piece, Expr.ids]
  member info receiver name h := by simp [Expr.piece, Expr.ids, h]
  index info receiver index h h' := by simp [Expr.piece, Expr.ids, h, h']
  call info callee args h _ hargs := by simp [Expr.piece, Expr.ids, h, exprPieces_ids hargs]
  unary info op operand h := by simp [Expr.piece, Expr.ids, h]
  binary info op lhs rhs h h' := by simp [Expr.piece, Expr.ids, h, h']
  cast info value type h := by simp [Expr.piece, Expr.ids, h, TypeExpr.piece_ids]
  typed info value type h := by simp [Expr.piece, Expr.ids, h, TypeExpr.piece_ids]
  ifElse info kind condition thenValue elseValue h h' h'' := by
    simp [Expr.piece, Expr.ids, h, h', h'']
  range info first last inclusive h h' := by simp [Expr.piece, Expr.ids, h, h']
  lambda info d h := by simp [Expr.piece, Expr.ids, h]
  function info kind name params returnType body ensureBody h h' := by
    cases kind <;> cases returnType <;>
      simp [FuncDef.piece, FuncDef.ids, FuncKind.namePieces, Param.pieces_ids, h,
        blockPieces_ids h', TypeExpr.idsOption, TypeExpr.piece_ids]
  block info stmts h := by simp [Block.piece, Block.ids, stmtPieces_ids h]
  inits info decls values h := by
    simp [Init.piece, Init.ids, VarDecl.pieces_ids, exprPieces_ids h]
  init i h := by simp [Stmt.piece, Stmt.ids, h]
  assign info targets op values h h' := by
    simp [Stmt.piece, Stmt.ids, exprPieces_ids h, exprPieces_ids h']
  conditional info kind condition thenBlock elseifs elseBlock h hthen harms helse := by
    simp [Stmt.piece, Stmt.ids, h, hthen, armPieces_ids harms, blockPieces_ids helse]
  ret info values h := by simp [Stmt.piece, Stmt.ids, exprPieces_ids h]
  case info whens elseBlock h helse := by
    simp [Stmt.piece, Stmt.ids, armPieces_ids h, blockPieces_ids helse]
  switch info target whens elseBlock h harms helse := by
    have hwhens : (valueArmPieces whens).flatMap Piece.ids = valueArmIds whens := by
      rw [valueArmPieces_eq, valueArmIds_eq]
      exact flatMap_pieces_ids fun a ha => by simp [exprPieces_ids (harms a ha).1, (harms a ha).2]
    simp [Stmt.piece, Stmt.ids, h, hwhens, blockPieces_ids helse]
  forIn info vars range bodyInfo stmts h hstmts := by
    simp [Stmt.piece, Stmt.ids, Param.pieces_ids, h, Block.piece, Block.ids,
      stmtPieces_ids hstmts]
  whileDo info condition body h h' := by simp [Stmt.piece, Stmt.ids, h, h']
  guarded info body kind condition h h' := by simp [Stmt.piece, Stmt.ids, h, h']
  letIn info inits child h hchild := by
    have hinits : (initPieces inits).flatMap Piece.ids = initIds inits := by
      rw [initPieces_eq, initIds_eq]
      exact flatMap_pieces_ids fun i hi => by simp [h i hi]
    simp [Stmt.piece, Stmt.ids, hinits, hchild]
  expr value h := by simp [Stmt.piece, Stmt.ids, h]

theorem Definition.piece_ids (d : Definition) : d.piece.ids = d.ids := by
  cases d with
  | function d => exact pieceIds.onFunctions d
  | constant d =>
    simp [Definition.piece, Definition.ids, ConstDef.piece, ConstDef.ids, ConstDecl.pieces_ids,
      exprPieces_ids fun e _ => pieceIds.onExprs e]

/-- Every node of a program has one piece, in the order in which its ids are listed. -/
theorem Program.piece_ids (p : Program) : p.piece.nodes.map (·.1.id) = p.ids := by
  change p.piece.ids = p.ids
  rw [Program.piece, Program.ids, Piece.ids_node, map_pieces_ids Definition.piece_ids]

end Frontend
