import Frontend.Parser.Power
import Frontend.Proofs.Tree.Written

/-!
# Rendering trees as tokens

The text of a tree: every expression and every type annotation stands in parentheses of its own,
the parameters of a lambda are put in parentheses and its body in braces, no list ends with a comma,
and a literal is spelled by any text that stands for it.
-/

namespace Frontend

/-- What the grammar sees of a token: its kind, and its text where tokens of the kind differ. -/
abbrev Lexeme := TokenKind × String

/-- What the grammar sees of a token. -/
def Token.lexeme (t : Token) : Lexeme := (t.kind, if t.kind.hasText then t.value else "")

/-- A token that is all kind. -/
def sign (kind : TokenKind) : Lexeme := (kind, "")

/-- A text between parentheses. -/
def parens (text : List Lexeme) : List Lexeme := sign .openParen :: text ++ [sign .closeParen]

/-- Texts with listed between them. -/
def listed : List (List Lexeme) → List Lexeme
  | [] => []
  | [text] => text
  | text :: next :: rest => text ++ sign .comma :: listed (next :: rest)

/-- A text for each literal that has one. -/
structure Spelling where
  text : Literal → String
  reads : ∀ {l : Literal}, l.Readable → l.Reads (text l)

/-- Literals can be spelled. -/
noncomputable def Spelling.arbitrary : Spelling where
  text l := open Classical in if h : l.Readable then h.choose else ""
  reads h := by
    rw [dif_pos h]
    exact h.choose_spec

/-- The tokens of a literal: a symbol is a colon and a name, all others are single tokens. -/
def Spelling.lexemes (σ : Spelling) (l : Literal) : List Lexeme :=
  match l with
  | .char _ => [(.char, σ.text l)]
  | .float _ => [(.float, σ.text l)]
  | .bool true => [sign .true]
  | .bool false => [sign .false]
  | .string _ => [(.string, σ.text l)]
  | .int _ => [(.int, σ.text l)]
  | .uint _ => [(.uint, σ.text l)]
  | .symbol _ => [sign .colon, (.identifier, σ.text l)]

/-- The token of a unary operator. -/
def UnaryOp.token : UnaryOp → TokenKind
  | .neg => .dash
  | .plus => .plus
  | .not => .not

/-- The token of a binary operator. -/
def BinaryOp.token : BinaryOp → TokenKind
  | .add => .plus
  | .sub => .dash
  | .mul => .star
  | .div => .slash
  | .mod => .percent
  | .eq => .equals
  | .notEq => .notEquals
  | .less => .less
  | .lessEq => .lessEquals
  | .greater => .greater
  | .greaterEq => .greaterEquals
  | .and => .and
  | .or => .or
  | .bitAnd => .ampersand
  | .bitOr => .pipe
  | .bitXor => .caret
  | .shl => .shiftLeft
  | .shr => .shiftRight

/-- The token of an assignment, which for a compound one has an operator that computes numbers. -/
def assignmentToken : Option BinaryOp → TokenKind
  | some .add => .plusEquals
  | some .sub => .minusEquals
  | some .mul => .starEquals
  | some .div => .slashEquals
  | some .mod => .percentEquals
  | _ => .assignment

/-- The token of a range. -/
def rangeToken (inclusive : Bool) : TokenKind := if inclusive then .ellipsis else .dotDot

/-- The token of a condition. -/
def IfKind.token : IfKind → TokenKind
  | .if => .if
  | .unless => .unless

/-- The keyword of a function. -/
def FuncKind.token : FuncKind → TokenKind
  | .proc => .proc
  | .func | .lambda => .func

mutual

/-- A type annotation without the parentheses around it. -/
@[simp] def TypeExpr.bare : TypeExpr → List Lexeme
  | .primary _ name [] => [(.identifier, name)]
  | .primary _ name (arg :: args) =>
    (.identifier, name) :: parens (listed (typeTexts (arg :: args)))
  | .array _ elem => sign .openBracket :: parens elem.bare ++ [sign .closeBracket]
  | .dict _ key value =>
    sign .openCurly :: parens key.bare ++ sign .fatArrow :: parens value.bare ++ [sign .closeCurly]
  | .tuple _ elems => parens (listed (typeTexts elems))
  | .func _ kind params none => sign kind.token :: parens (listed (typeTexts params))
  | .func _ kind params (some ret) =>
    sign kind.token :: parens (listed (typeTexts params)) ++ sign .colon :: parens ret.bare
  | .qualified _ .ref inner => sign .ampersand :: parens inner.bare
  | .qualified _ .maybe inner => parens inner.bare ++ [sign .question]

/-- Type annotations, each in parentheses. -/
@[simp] def typeTexts : List TypeExpr → List (List Lexeme)
  | [] => []
  | t :: rest => parens t.bare :: typeTexts rest

end

/-- A type annotation in parentheses. -/
def TypeExpr.text (t : TypeExpr) : List Lexeme := parens t.bare

/-- A type annotation behind a colon, if there is one. -/
def annotationText : Option TypeExpr → List Lexeme
  | none => []
  | some t => sign .colon :: t.text

/-- A parameter. -/
def Param.text (p : Param) : List Lexeme :=
  (if p.isVar then [sign .var] else []) ++ (.identifier, p.name) :: annotationText p.type

/-- A declared name without its keyword. -/
def VarDecl.text (d : VarDecl) : List Lexeme := (.identifier, d.name) :: annotationText d.type

/-- A declared constant. -/
def ConstDecl.text (d : ConstDecl) : List Lexeme := (.identifier, d.name) :: annotationText d.type

/-- Parameters between parentheses. -/
def paramsText (params : List Param) : List Lexeme := parens (listed (params.map Param.text))

/-- Declared names behind their keyword. -/
def declsText (decls : List VarDecl) : List Lexeme :=
  sign (if decls.any (·.isVar) then .var else .val) :: listed (decls.map VarDecl.text)

/-- What ends a statement: a semicolon, unless it ends with a block or with a statement. -/
def Stmt.ending : Stmt → List Lexeme
  | .init _ | .assign .. | .ret .. | .expr _ | .guarded .. => [sign .semicolon]
  | _ => []

section

variable (σ : Spelling)

mutual

/-- An expression without the parentheses around it. -/
@[simp] def Expr.bare : Expr → List Lexeme
  | .literal _ value => σ.lexemes value
  | .varRef _ name _ => [(.identifier, name)]
  | .array _ elems => sign .openBracket :: listed (exprTexts elems) ++ [sign .closeBracket]
  | .tuple _ elems => parens (listed (exprTexts elems))
  | .dict _ entries => sign .openCurly :: listed (entryTexts entries) ++ [sign .closeCurly]
  | .member _ receiver name => parens receiver.bare ++ [sign .dot, (.identifier, name)]
  | .index _ receiver index =>
    parens receiver.bare ++ sign .openBracket :: parens index.bare ++ [sign .closeBracket]
  | .call _ callee args => parens callee.bare ++ parens (listed (exprTexts args))
  | .unary _ op operand => sign op.token :: parens operand.bare
  | .binary _ op lhs rhs => parens lhs.bare ++ sign op.token :: parens rhs.bare
  | .cast _ value type => parens value.bare ++ sign .as :: type.text
  | .typed _ value type => parens value.bare ++ sign .colon :: type.text
  | .ifElse _ kind condition thenValue elseValue =>
    sign kind.token :: parens condition.bare ++ sign .then :: parens thenValue.bare ++
      sign .else :: parens elseValue.bare
  | .range _ first last inclusive =>
    parens first.bare ++ sign (rangeToken inclusive) :: parens last.bare
  | .lambda _ d => sign .arrow :: d.lambdaText

/-- Expressions, each in parentheses. -/
@[simp] def exprTexts : List Expr → List (List Lexeme)
  | [] => []
  | e :: rest => parens e.bare :: exprTexts rest

/-- Entries of a dictionary. -/
@[simp] def entryTexts : List (Expr × Expr) → List (List Lexeme)
  | [] => []
  | (key, value) :: rest =>
    (parens key.bare ++ sign .fatArrow :: parens value.bare) :: entryTexts rest

/-- The parameters and the body of a lambda. -/
@[simp] def FuncDef.lambdaText : FuncDef → List Lexeme
  | ⟨_, _, _, params, _, body, _⟩ => paramsText params ++ body.text

/-- A block. -/
@[simp] def Block.text : Block → List Lexeme
  | ⟨_, stmts⟩ => sign .openCurly :: stmtsText stmts ++ [sign .closeCurly]

/-- A keyword and a block, if there is one. -/
@[simp] def blockText (keyword : TokenKind) : Option Block → List Lexeme
  | none => []
  | some b => sign keyword :: b.text

/-- An initialize statement without what ends it. -/
@[simp] def Init.text : Init → List Lexeme
  | ⟨_, decls, []⟩ => declsText decls
  | ⟨_, decls, value :: values⟩ =>
    declsText decls ++ sign .assignment :: listed (exprTexts (value :: values))

/-- A statement without what ends it. -/
@[simp] def Stmt.bare : Stmt → List Lexeme
  | .init init => init.text
  | .assign _ targets op values =>
    listed (exprTexts targets) ++ sign (assignmentToken op) :: listed (exprTexts values)
  | .ifElse _ kind condition thenBlock elseifs elseBlock =>
    sign kind.token :: (parens condition.bare ++ thenBlock.text) ++ armsText .elseif elseifs ++
      blockText .else elseBlock
  | .ret _ values => sign .return :: listed (exprTexts values)
  | .case _ whens elseBlock =>
    sign .case :: sign .openCurly :: armsText .when whens ++ blockText .else elseBlock ++
      [sign .closeCurly]
  | .switch _ target whens elseBlock =>
    sign .case :: parens target.bare ++ sign .openCurly :: valueArmsText whens ++
      blockText .else elseBlock ++ [sign .closeCurly]
  | .forIn _ vars range body =>
    sign .for :: listed (vars.map Param.text) ++ sign .in :: parens range.bare ++ body.text
  | .whileDo _ condition body => sign .while :: parens condition.bare ++ body.text
  | .guarded _ body kind condition => body.bare ++ sign kind.token :: parens condition.bare
  | .letIn _ inits child =>
    sign .let :: initsText inits ++ sign .in :: child.bare ++ child.ending
  | .expr value => parens value.bare

/-- Statements. -/
@[simp] def stmtsText : List Stmt → List Lexeme
  | [] => []
  | s :: rest => s.bare ++ s.ending ++ stmtsText rest

/-- The bindings of a `let`. -/
@[simp] def initsText : List Init → List Lexeme
  | [] => []
  | [init] => init.text
  | init :: next :: rest => init.text ++ sign .semicolon :: initsText (next :: rest)

/-- Conditions and the blocks they guard, each behind a keyword. -/
@[simp] def armsText (keyword : TokenKind) : List (Expr × Block) → List Lexeme
  | [] => []
  | (condition, block) :: rest =>
    sign keyword :: (parens condition.bare ++ block.text) ++ armsText keyword rest

/-- Values and the blocks that are run for them. -/
@[simp] def valueArmsText : List (List Expr × Block) → List Lexeme
  | [] => []
  | (values, block) :: rest =>
    sign .when :: (listed (exprTexts values) ++ block.text) ++ valueArmsText rest

end

/-- An expression in parentheses. -/
def Expr.text (e : Expr) : List Lexeme := parens (e.bare σ)

/-- A statement. -/
def Stmt.text (s : Stmt) : List Lexeme := s.bare σ ++ s.ending

/-- A function or procedure. -/
def FuncDef.text (d : FuncDef) : List Lexeme :=
  sign d.kind.token :: (.identifier, d.name) :: paramsText d.params ++
    annotationText d.returnType ++ d.body.text σ ++ blockText σ .ensure d.ensureBody

/-- A constant definition. -/
def ConstDef.text (d : ConstDef) : List Lexeme :=
  sign .const :: listed (d.decls.map ConstDecl.text) ++
    sign .assignment :: listed (d.values.map (Expr.text σ)) ++ [sign .semicolon]

/-- A definition. -/
def Definition.text : Definition → List Lexeme
  | .function d => d.text σ
  | .constant d => d.text σ

/-- A program, up to the end of the file. -/
def Program.text (p : Program) : List Lexeme :=
  p.definitions.flatMap (Definition.text σ) ++ [sign .eof]

end

end Frontend
