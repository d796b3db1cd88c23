import Frontend.Parser.Stmt

/-!
# Reading programs

A program is a list of function and constant definitions up to the end of the file.
-/

namespace Frontend

namespace Parse

/-- The result type of a function; a procedure has none. -/
def returnType (kind : FuncKind) : Parse (Option TypeExpr) := do
  if (← Parse.kind) = .colon ∧ kind = .proc then fail "a procedure cannot declare a return type"
  else optionalType

/-- A function or procedure. -/
def function (kind : FuncKind) : Parse FuncDef := do
  let keyword ← advance
  let name ← name "expected function name"
  let _ ← expect .openParen
  let params ← bounded (listUntil (· == .closeParen) param)
  let _ ← expect .closeParen
  let type ← returnType kind
  let body ← block
  let ensureBody ← optional .ensure block
  return ⟨← infoFrom keyword.span.start, kind, name, params, type, body, ensureBody⟩

/-- A name that a constant definition declares. -/
def constDecl : Parse ConstDecl := do
  let start ← position
  let name ← name "expected identifier in constant definition"
  let type ← optionalType
  return ⟨← infoFrom start, name, type⟩

/-- A definition of constants. -/
def constant : Parse ConstDef := do
  let keyword ← advance
  let decls ← bounded (commaList constDecl)
  let _ ← expectOr .assignment "expected rhs in constant definition"
  let values ← exprList nested
  let _ ← expect .semicolon
  return ⟨← infoFrom keyword.span.start, decls, values⟩

/-- A definition at the top level. -/
def definition : Parse Definition := do
  match ← kind with
  | .func => return .function (← function .func)
  | .proc => return .function (← function .proc)
  | .const => return .constant (← constant)
  | _ => fail "expected a function, procedure or constant definition"

/-- Definitions up to the end of the file. -/
def definitions : Nat → Parse (List Definition)
  | 0 => outOfFuel
  | n + 1 => do
    if (← get).hasTokens then
      let first ← definition
      return first :: (← definitions n)
    else return []

/-- A whole program. -/
def program : Parse Program := do
  let start ← position
  let definitions ← bounded definitions
  return ⟨← infoFrom start, definitions⟩

end Parse

/-- Reads a program from tokens; its nodes get ids from `firstId` on. The answer comes with the
next free id. -/
def Program.parse (tokens : List Token) (file : String) (firstId : Nat) :
    Except Failure (Program × Nat) :=
  match Parse.program.run (.ofTokens tokens file firstId) with
  | .ok program s => .ok (program, s.nextId)
  | .error e _ => .error e

end Frontend
