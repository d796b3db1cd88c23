import Frontend.Parser.Power
import Frontend.Parser.Stream

/-!
# Reading type annotations

An annotation is an operand followed by question marks. The productions take the reader of
nested annotations as an argument; `Parse.typeExpr` closes the recursion with a bound taken from
the number of tokens left.
-/

namespace Frontend.Parse

/-- Nested annotations with commas between them, up to a closing token. -/
def typeList (nested : Power → Parse TypeExpr) (close : TokenKind) : Parse (List TypeExpr) :=
  bounded (listUntil (· == close) (nested .default))

/-- A name, with arguments in parentheses if there are any. -/
def primaryType (nested : Power → Parse TypeExpr) : Parse TypeExpr := do
  let token ← expect .identifier
  let args ← if ← eat .openParen then do
      let args ← typeList nested .closeParen
      let _ ← expect .closeParen
      pure args
    else pure []
  return .primary (← infoFrom token.span.start) token.value args

/-- An array type, between brackets. -/
def arrayType (nested : Power → Parse TypeExpr) : Parse TypeExpr := do
  let token ← advance
  let elem ← nested .default
  let _ ← expect .closeBracket
  return .array (← infoFrom token.span.start) elem

/-- A dictionary type, between braces. -/
def dictType (nested : Power → Parse TypeExpr) : Parse TypeExpr := do
  let token ← advance
  let key ← nested .default
  let _ ← expect .fatArrow
  let value ← nested .default
  let _ ← expect .closeCurly
  return .dict (← infoFrom token.span.start) key value

/-- Types in parentheses: none is the unit type, and one is just that type. -/
def tupleType (nested : Power → Parse TypeExpr) : Parse TypeExpr := do
  let token ← advance
  let elems ← typeList nested .closeParen
  let _ ← expect .closeParen
  match elems with
  | [elem] => return elem
  | elems => return .tuple (← infoFrom token.span.start) elems

/-- A function type, or a procedure type, which has no result. -/
def funcType (nested : Power → Parse TypeExpr) : Parse TypeExpr := do
  let keyword ← advance
  let kind := if keyword.kind = .proc then FuncKind.proc else .func
  let _ ← expect .openParen
  let params ← typeList nested .closeParen
  let _ ← expect .closeParen
  let ret ← if kind = .func then optional .colon (nested .default) else pure none
  return .func (← infoFrom keyword.span.start) kind params ret

/-- A reference to a type. -/
def refType (nested : Power → Parse TypeExpr) : Parse TypeExpr := do
  let token ← advance
  let inner ← nested .member
  return .qualified (← infoFrom token.span.start) .ref inner

/-- An annotation without question marks behind it. -/
def typeOperand (nested : Power → Parse TypeExpr) : Parse TypeExpr := do
  match ← kind with
  | .identifier => primaryType nested
  | .openBracket => arrayType nested
  | .openCurly => dictType nested
  | .openParen => tupleType nested
  | .func | .proc => funcType nested
  | .ampersand => refType nested
  | _ => fail "expected a type"

/-- The question marks behind an annotation, where the context binds less tightly than they. -/
def typeSuffixes (power : Power) (left : TypeExpr) : Nat → Parse TypeExpr
  | 0 => outOfFuel
  | n + 1 => do
    if Power.member ≤ power then return left
    else if ← eat .question then
      typeSuffixes power (.qualified (← infoFrom left.position) .maybe left) n
    else return left

/-- An annotation nested at most `n` deep. -/
def typeExprAt : Nat → Power → TokenStream → EStateM.Result Failure TokenStream TypeExpr
  | 0, _, s => .error (.fault .outOfFuel) s
  | n + 1, power, s => (do
      let left ← typeOperand (typeExprAt n)
      bounded (typeSuffixes power left) : Parse TypeExpr) s

/-- An annotation. -/
def typeExpr (power : Power) : Parse TypeExpr := bounded fun n => typeExprAt n power

/-- An annotation behind a colon, if there is one. -/
def optionalType : Parse (Option TypeExpr) := optional .colon (typeExpr .default)

end Frontend.Parse
