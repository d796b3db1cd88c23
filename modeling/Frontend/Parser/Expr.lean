import Frontend.Decimal.Numeral
import Frontend.Parser.TypeExpr

/-!
# Reading expressions

An expression is an operand followed by operators that bind tighter than its context. The
productions take the readers of nested expressions, blocks and statements as one argument, so
each of them is a plain definition; the recursion is closed where statements are read.
-/

namespace Frontend.Parse

/-- Readers of what may be nested in an expression or a statement. -/
structure Nested where
  expr : Power → Parse Expr
  block : Parse Block
  stmt : Parse Stmt

/-- Expressions with commas between them, at least one. -/
def exprList (g : Nested) : Parse (List Expr) := bounded (commaList (g.expr .default))

/-- Expressions with commas between them, none if a closing token stands here. -/
def exprListBefore (g : Nested) (close : TokenKind) : Parse (List Expr) := do
  if (← kind) = close then return [] else exprList g

/-- The value of a numeral token, which must be in range. -/
def numeral {α : Type} (read : String → Option α) : Parse α := do
  let s ← get
  match read s.current.value with
  | some value => return value
  | none => throw (.error (s.failureAt (.numberParse s.current.value)))

/-- A literal or a name. -/
def primary (build : NodeInfo → Expr) : Parse Expr := do
  let token ← advance
  return build ⟨← mint, token.span⟩

/-- A literal whose value has been read. -/
def literal (value : Literal) : Parse Expr := primary fun info => .literal info value

/-- A sign or a negation in front of an operand. -/
def unaryExpr (g : Nested) (op : UnaryOp) : Parse Expr := do
  let token ← advance
  let operand ← g.expr .unary
  return .unary (← infoFrom token.span.start) op operand

/-- Expressions in parentheses: none is the unit tuple, and one is just that expression. -/
def grouping (g : Nested) : Parse Expr := do
  let token ← advance
  if ← eat .closeParen then return .tuple (← infoFrom token.span.start) []
  else
    let elems ← exprList g
    let _ ← expect .closeParen
    match elems with
    | [elem] => return elem
    | elems => return .tuple (← infoFrom token.span.start) elems

/-- An array between brackets. -/
def arrayLiteral (g : Nested) : Parse Expr := do
  let token ← advance
  let elems ← exprListBefore g .closeBracket
  let _ ← expect .closeBracket
  return .array (← infoFrom token.span.start) elems

/-- A key, an arrow and a value. -/
def dictEntry (g : Nested) : Parse (Expr × Expr) := do
  let key ← g.expr .default
  let _ ← expect .fatArrow
  let value ← g.expr .default
  return (key, value)

/-- A dictionary between braces. -/
def dictLiteral (g : Nested) : Parse Expr := do
  let token ← advance
  let entries ← bounded (listUntil (· == .closeCurly) (dictEntry g))
  let _ ← expect .closeCurly
  return .dict (← infoFrom token.span.start) entries

/-- A symbol: a colon and a name. -/
def symbolLiteral : Parse Expr := do
  let token ← advance
  let name ← name "expected symbol name after `:`"
  return .literal (← infoFrom token.span.start) (.symbol name)

/-- A parameter, which may be marked as assignable and may have a type. -/
def param : Parse Param := do
  let start ← position
  let isVar ← eat .var
  let name ← name "expected parameter name"
  let type ← optionalType
  return ⟨← infoFrom start, isVar, name, type⟩

/-- The tokens at which the parameters of a lambda end. -/
def endsLambdaParams : TokenKind → Bool
  | .in | .openCurly | .closeParen => true
  | _ => false

/-- The body of a lambda: a block, or `in` and an expression, which is then returned. -/
def lambdaBody (g : Nested) : Parse Block := do
  if ← eat .in then
    let start ← position
    let value ← g.expr .default
    let ret := Stmt.ret (← infoFrom start) [value]
    return ⟨← infoFrom start, [ret]⟩
  else g.block

/-- A lambda, which is named after its own id. Parentheses around the parameters may be left
out. -/
def lambda (g : Nested) : Parse Expr := do
  let token ← advance
  let parenthesized ← eat .openParen
  let params ← bounded (listUntil endsLambdaParams param)
  if parenthesized then
    let _ ← expect .closeParen
  let body ← lambdaBody g
  let info ← infoFrom token.span.start
  let definition : FuncDef := ⟨info, .lambda, "lambda." ++ info.id.repr, params, none, body, none⟩
  return .lambda (← infoFrom token.span.start) definition

/-- A conditional expression, which always has both branches. -/
def ifExpr (g : Nested) (kind : IfKind) : Parse Expr := do
  let keyword ← advance
  let condition ← g.expr .default
  let _ ← expect .then
  let thenValue ← g.expr .default
  let _ ← expect .else
  let elseValue ← g.expr .default
  return .ifElse (← infoFrom keyword.span.start) kind condition thenValue elseValue

/-- An expression without the operators behind it. -/
def operand (g : Nested) : Parse Expr := do
  let token := (← get).current
  match token.kind with
  | .int => literal (.int (← numeral Numeral.int?))
  | .uint => literal (.uint (← numeral Numeral.uint?))
  | .float => literal (.float (← numeral Numeral.double?))
  | .char => match token.value.toList with
    | c :: _ => literal (.char c)
    | [] => fail "empty character literal"
  | .string => literal (.string token.value)
  | .true => literal (.bool true)
  | .false => literal (.bool false)
  | .identifier => primary fun info => .varRef info token.value false
  | .dash => unaryExpr g .neg
  | .plus => unaryExpr g .plus
  | .not => unaryExpr g .not
  | .openParen => grouping g
  | .openBracket => arrayLiteral g
  | .openCurly => dictLiteral g
  | .if => ifExpr g .if
  | .unless => ifExpr g .unless
  | .colon => symbolLiteral
  | .arrow => lambda g
  | _ => unexpected

/-- What an operator adds to the expression in front of it. -/
def applyOperator (g : Nested) (op : Operator) (left : Expr) : Parse Expr := do
  let _ ← advance
  match op with
  | .binary binaryOp =>
    let right ← g.expr op.power
    return .binary (← infoFrom left.position) binaryOp left right
  | .range inclusive =>
    let last ← g.expr op.power
    return .range (← infoFrom left.position) left last inclusive
  | .typed =>
    let type ← typeExpr .default
    return .typed (← infoFrom left.position) left type
  | .cast =>
    let type ← typeExpr .default
    return .cast (← infoFrom left.position) left type
  | .call =>
    let args ← exprListBefore g .closeParen
    let _ ← expect .closeParen
    return .call (← infoFrom left.position) left args
  | .index =>
    let index ← g.expr .default
    let _ ← expect .closeBracket
    return .index (← infoFrom left.position) left index
  | .member =>
    let name ← name "expected member name after `.`"
    return .member (← infoFrom left.position) left name

/-- The operators behind an expression that bind tighter than the context, from the left. -/
def operators (g : Nested) (power : Power) (left : Expr) : Nat → Parse Expr
  | 0 => outOfFuel
  | n + 1 => do
    match (← kind).operator? with
    | none => return left
    | some op =>
      if op.power ≤ power then return left
      else
        let left ← applyOperator g op left
        operators g power left n

/-- An expression in a context that binds with the given power. -/
def exprWith (g : Nested) (power : Power) : Parse Expr := do
  let left ← operand g
  bounded (operators g power left)

end Frontend.Parse
