import Frontend.Source.Position
import Frontend.Text.Quoted

/-!
# Errors

An error is a cause at a place. The wording of each cause is in `Cause.message`, the hint shown
beside it in `Cause.tip`. A `Fault` is no fault of the program under analysis: it says that an
operation was used where its own preconditions fail.
-/

namespace Frontend

open Text (quoted)

/-- Why a program is refused. -/
inductive Cause where
  | unrecognisedToken (token : String)
  | unexpectedToken (token : String)
  | unexpectedTokenDetailed (token message : String)
  | numberParse (token : String)
  | variableAlreadyDeclared (variableName : String)
  | functionAlreadyDeclared (function : String)
  | unresolvedName (name : String)
  | unknownType (type : String)
  | noMatchingOverload (function arguments : String)
  | ambiguousFunctionReference (function : String)
  | typeMatch (expected received : String)
  | immutableAssignment (variableName : String)
  | arityMismatch (expected received : Nat)
  | typeNotInferred (name : String)
  | invalidReturn (message : String)
  | instantiationLimit (function : String) (limit : Nat)
deriving DecidableEq, Repr

/-- The coarse classes of causes. -/
inductive ErrorKind where
  | malformed
  | duplicateDeclaration
  | unresolvedName
  | noMatchingOverload
  | typeMismatch
deriving DecidableEq, Repr

/-- The name a class is reported under. -/
def ErrorKind.name : ErrorKind → String
  | .malformed => "Syntax"
  | .duplicateDeclaration => "DuplicateDeclaration"
  | .unresolvedName => "UnresolvedName"
  | .noMatchingOverload => "NoMatchingOverload"
  | .typeMismatch => "TypeMismatch"

namespace Cause

/-- The name a cause is reported under. -/
def name : Cause → String
  | .unrecognisedToken .. => "UnrecognisedToken"
  | .unexpectedToken .. => "UnexpectedToken"
  | .unexpectedTokenDetailed .. => "UnexpectedTokenDetailed"
  | .numberParse .. => "NumberParseError"
  | .variableAlreadyDeclared .. => "VariableAlreadyDeclared"
  | .functionAlreadyDeclared .. => "FunctionAlreadyDeclared"
  | .unresolvedName .. => "UnresolvedName"
  | .unknownType .. => "UnknownType"
  | .noMatchingOverload .. => "NoMatchingOverload"
  | .ambiguousFunctionReference .. => "AmbiguousFunctionReference"
  | .typeMatch .. => "TypeMatchError"
  | .immutableAssignment .. => "ImmutableAssignment"
  | .arityMismatch .. => "ArityMismatch"
  | .typeNotInferred .. => "TypeNotInferred"
  | .invalidReturn .. => "InvalidReturn"
  | .instantiationLimit .. => "InstantiationLimit"

/-- The class of a cause. -/
def kind : Cause → ErrorKind
  | .unrecognisedToken .. | .unexpectedToken .. | .unexpectedTokenDetailed .. | .numberParse .. =>
    .malformed
  | .variableAlreadyDeclared .. | .functionAlreadyDeclared .. => .duplicateDeclaration
  | .unresolvedName .. | .unknownType .. => .unresolvedName
  | .noMatchingOverload .. | .ambiguousFunctionReference .. => .noMatchingOverload
  | .typeMatch .. | .immutableAssignment .. | .arityMismatch .. | .typeNotInferred ..
  | .invalidReturn .. | .instantiationLimit .. => .typeMismatch

/-- What is wrong, in one line. -/
def message : Cause → String
  | .unrecognisedToken token => "unrecognised token: " ++ quoted token
  | .unexpectedToken token => "unexpected token: " ++ quoted token
  | .unexpectedTokenDetailed token message =>
    "unexpected token (" ++ quoted message ++ "): " ++ quoted token
  | .numberParse token => "error parsing number: " ++ quoted token
  | .variableAlreadyDeclared variableName => quoted variableName ++ " already declared"
  | .functionAlreadyDeclared function => "function " ++ function ++ " already declared"
  | .unresolvedName name => "unresolved name " ++ quoted name
  | .unknownType type => "unknown type " ++ type ++ " found"
  | .noMatchingOverload function arguments =>
    "no matching overload for " ++ function ++ "(" ++ arguments ++ ")"
  | .ambiguousFunctionReference function =>
    "function " ++ quoted function ++ " cannot be used as a value"
  | .typeMatch expected received =>
    "types do not match: expected " ++ expected ++ ", received " ++ received
  | .immutableAssignment variableName =>
    "cannot assign to immutable variable " ++ quoted variableName
  | .arityMismatch expected received =>
    "arity mismatch: expected " ++ expected.repr ++ ", received " ++ received.repr
  | .typeNotInferred name => "type of " ++ quoted name ++ " could not be inferred"
  | .invalidReturn message => "invalid return: " ++ message
  | .instantiationLimit function limit =>
    "instantiating " ++ quoted function ++ " nested more than " ++ limit.repr ++ " times"

/-- A text between back quotes. -/
private def backQuoted (s : String) : String := "`" ++ s ++ "`"

/-- What the author could look at, where there is something to suggest. -/
def tip : Cause → Option String
  | .unrecognisedToken .. => none
  | .unexpectedToken token =>
    some ("Unexpected token: " ++ backQuoted token ++ ", did you miss a semicolon?")
  | .unexpectedTokenDetailed token message =>
    some ("Unexpected token: " ++ backQuoted token ++ ", " ++ message)
  | .numberParse token =>
    some ("Invalid number: " ++ backQuoted token ++ ", is it above the integer limit?")
  | .variableAlreadyDeclared variableName =>
    some (backQuoted variableName ++ " is already declared in this scope")
  | .functionAlreadyDeclared function =>
    some (backQuoted function ++ " is already declared with the same parameter types")
  | .unresolvedName name => some (backQuoted name ++ " is not declared in any enclosing scope")
  | .unknownType type => some ("Unknown type " ++ backQuoted type ++ " found")
  | .noMatchingOverload function arguments =>
    some ("No overload of " ++ backQuoted function ++ " accepts (" ++ arguments ++ ")")
  | .ambiguousFunctionReference function =>
    some (backQuoted function ++
      " is overloaded or generic, call it instead of using it as a value")
  | .typeMatch expected received =>
    some ("Expected type " ++ backQuoted expected ++ ", received " ++ backQuoted received)
  | .immutableAssignment variableName =>
    some (backQuoted variableName ++ " is immutable, declare it with " ++ backQuoted "var")
  | .arityMismatch expected received =>
    some ("Expected " ++ expected.repr ++ " values, received " ++ received.repr)
  | .typeNotInferred name =>
    some ("The type of " ++ backQuoted name ++
      " is needed before it is known, add an explicit type")
  | .invalidReturn message => some message
  | .instantiationLimit function _ =>
    some (backQuoted function ++
      " keeps calling itself with new argument types, annotate its parameters")

end Cause

/-- A cause at the place of the offending token or node. -/
structure Error where
  cause : Cause
  position : Position
deriving DecidableEq, Repr

/-- The full report: file, line and column in front of what is wrong. -/
def Error.message (e : Error) : String :=
  e.position.file ++ ":" ++ e.position.line.repr ++ ":" ++ e.position.col.repr ++ ": " ++
    e.cause.message

/-- Preconditions of the library's own operations that a caller broke. -/
inductive Fault where
  /-- A block was opened directly in the global scope. -/
  | blockInGlobalScope
  /-- A local variable was declared where no block is open. -/
  | localOutsideBlock (name : String)
  /-- The declaration of a builtin function was asked for. -/
  | builtinDeclaration (name : String)
  /-- The declaration of a function that has none was asked for. -/
  | missingDeclaration (name : String)
  /-- The type of an expression was written a second time. -/
  | typeRewritten (node : Nat)
  /-- A definition is analysed that has no scope, or a scope that has no function. -/
  | missingScope (node : Nat)
  /-- A function was asked for that the store does not hold. -/
  | missingFunction (id : Nat)
  /-- Fewer parameter types were supplied than there are parameters. -/
  | missingParameterType (name : String)
  /-- A recursion went deeper than the bound computed for it. -/
  | outOfFuel
deriving DecidableEq, Repr

/-- What a fault is reported as. -/
def Fault.message : Fault → String
  | .blockInGlobalScope =>
    "internal error: entered unreachable code: block scope opened directly in the global scope"
  | .localOutsideBlock name =>
    "internal error: entered unreachable code: local variable " ++ quoted name ++
      " declared outside a block"
  | .builtinDeclaration name => "builtin function `" ++ name ++ "` has no declaration"
  | .missingDeclaration name => "function `" ++ name ++ "` has no declaration"
  | .typeRewritten node => "type of node " ++ node.repr ++ " written twice"
  | .missingScope node => "definition " ++ node.repr ++ " has no function scope"
  | .missingFunction id => "no function has the index " ++ id.repr
  | .missingParameterType name => "no type was supplied for parameter " ++ quoted name
  | .outOfFuel => "recursion deeper than its bound"

/-- Why an operation gave no result. -/
inductive Failure where
  | error (e : Error)
  | fault (f : Fault)
deriving DecidableEq, Repr

end Frontend
