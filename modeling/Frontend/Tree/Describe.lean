import Frontend.Decimal.Shortest
import Frontend.Text.Quoted
import Frontend.Tree.Basic

/-!
# Short descriptions of nodes

One line per node, for diagnostics. The description of an expression ends with its type, which
the caller supplies because trees do not hold types.
-/

namespace Frontend

/-- A literal as text: strings and characters quoted, unsigned numbers with their suffix. -/
def Literal.toText : Literal → String
  | .char value => Text.quotedChar value
  | .float value => value.toText
  | .bool value => if value then "true" else "false"
  | .string value => Text.quoted value
  | .int value => value.repr
  | .uint value => value.repr ++ "u"
  | .symbol name => ":" ++ name

/-- The word a condition is introduced with. -/
def IfKind.name : IfKind → String
  | .if => "if"
  | .unless => "unless"

/-- The spelling of an operator with one operand. -/
def UnaryOp.spelling : UnaryOp → String
  | .neg => "-"
  | .plus => "+"
  | .not => "!"

/-- The spelling of an operator with two operands. -/
def BinaryOp.spelling : BinaryOp → String
  | .add => "+"
  | .sub => "-"
  | .mul => "*"
  | .div => "/"
  | .mod => "%"
  | .eq => "=="
  | .notEq => "!="
  | .less => "<"
  | .lessEq => "<="
  | .greater => ">"
  | .greaterEq => ">="
  | .and => "&&"
  | .or => "||"
  | .bitAnd => "&"
  | .bitOr => "|"
  | .bitXor => "^"
  | .shl => "<<"
  | .shr => ">>"

/-- Texts with commas between them. -/
def commas (texts : List String) : String := String.intercalate ", " texts

/-- A name followed by the type annotation it carries, if any. -/
def annotated (name : String) : Option TypeExpr → String
  | some type => name ++ ": " ++ type.toText
  | none => name

/-- A label with the place and the length of a node. -/
def NodeInfo.located (info : NodeInfo) (label : String) : String :=
  label ++ " @ " ++ info.span.start.line.repr ++ ":" ++ info.span.start.col.repr ++
    " (length " ++ info.span.length.repr ++ ")"

namespace Expr

/-- The form of an expression, without its operands. -/
def label : Expr → String
  | .literal _ value => "Literal(" ++ value.toText ++ ")"
  | .array _ elems => "Array(" ++ elems.length.repr ++ " elements)"
  | .tuple _ elems => "Tuple(" ++ elems.length.repr ++ " elements)"
  | .dict _ entries => "Dict(" ++ entries.length.repr ++ " pairs)"
  | .varRef _ name _ => "VarRef(" ++ name ++ ")"
  | .member _ _ name => "MemberAccess(." ++ name ++ ")"
  | .index .. => "IndexAccess"
  | .call _ _ args => "Call(" ++ args.length.repr ++ " args)"
  | .unary _ op _ => "Unary(" ++ op.spelling ++ ")"
  | .binary _ op _ _ => "Binary(" ++ op.spelling ++ ")"
  | .cast .. => "Cast"
  | .typed .. => "Typed"
  | .ifElse _ kind _ _ _ => "IfExpr(" ++ kind.name ++ ")"
  | .range _ _ _ inclusive => if inclusive then "Range(...)" else "Range(..)"
  | .lambda _ definition => "Lambda(" ++ definition.params.length.repr ++ " params)"

/-- The form, place and type of an expression. -/
def describe (type : Option Ty) (e : Expr) : String :=
  e.info.located e.label ++ " : " ++ (type.map Ty.toText).getD "<untyped>"

end Expr

/-- The form and place of a statement; for an expression statement, those of the expression with
its type. -/
def Stmt.describe (type : Option Ty) : Stmt → String
  | .init ⟨info, _, _⟩ => info.located "InitializeStmt"
  | .assign info .. => info.located "AssignStmt"
  | .ifElse info .. => info.located "IfStmt"
  | .ret info _ => info.located "ReturnStmt"
  | .case info .. => info.located "CaseStmt"
  | .switch info .. => info.located "SwitchStmt"
  | .forIn info .. => info.located "ForStmt"
  | .whileDo info .. => info.located "WhileStmt"
  | .guarded info .. => info.located "PostfixIfStmt"
  | .letIn info .. => info.located "LetStmt"
  | .expr value => value.describe type

/-- A parameter with its type annotation. -/
def Param.describe (p : Param) : String := "Parameter(" ++ annotated p.name p.type ++ ")"

/-- The word that declares a variable or a value. -/
def declarator (isVar : Bool) : String := if isVar then "var" else "val"

/-- A declared variable with its type annotation. -/
def VarDecl.describe (d : VarDecl) : String :=
  "VariableDecl(" ++ declarator d.isVar ++ " " ++ annotated d.name d.type ++ ")"

/-- A declared constant. -/
def ConstDecl.describe (d : ConstDecl) : String := "ConstantDecl(" ++ d.name ++ ")"

/-- A block with the number of its statements. -/
def Block.describe (b : Block) : String :=
  "StatementBlock (" ++ b.stmts.length.repr ++ " statements)"

/-- The header of a function. -/
def FuncDef.describe (d : FuncDef) : String :=
  let header := d.kind.name ++ " " ++ d.name ++ "(" ++
    commas (d.params.map fun p => annotated p.name p.type) ++ ")"
  match d.returnType with
  | some type => header ++ " : " ++ type.toText
  | none => header

/-- The names that a constant definition declares. -/
def ConstDef.describe (d : ConstDef) : String :=
  "ConstantDefinition(" ++ commas (d.decls.map (·.name)) ++ ")"

/-- A definition in one line. -/
def Definition.describe : Definition → String
  | .function definition => definition.describe
  | .constant definition => definition.describe

/-- A program with the number of its definitions. -/
def Program.describe (p : Program) : String :=
  "Inu (" ++ p.definitions.length.repr ++ " definitions)"

end Frontend
