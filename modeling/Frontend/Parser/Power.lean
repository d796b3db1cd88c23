import Frontend.Token
import Frontend.Tree.Basic

/-!
# Binding powers

How tightly the tokens that may follow an operand bind it. A token that is no operator binds
nothing, so it ends the expression.
-/

namespace Frontend

/-- The levels of precedence, from the loosest to the tightest. -/
inductive Power where
  | default | typed | logical | range | relational | bitwise | shift | additive | multiplicative
  | cast | unary | call | member | primary
deriving DecidableEq, Repr, Inhabited

namespace Power

/-- All levels, beside the names they are known under. -/
def names : List (Power × String) :=
  [(.default, "Default"), (.typed, "Typed"), (.logical, "Logical"), (.range, "Range"),
    (.relational, "Relational"), (.bitwise, "Bitwise"), (.shift, "Shift"),
    (.additive, "Additive"), (.multiplicative, "Multiplicative"), (.cast, "Cast"),
    (.unary, "Unary"), (.call, "Call"), (.member, "Member"), (.primary, "Primary")]

/-- The level known under a name. -/
def ofName? (name : String) : Option Power := (names.find? (·.2 == name)).map (·.1)

/-- The place of a level in the order. -/
def rank (p : Power) : Nat := p.ctorIdx

instance : LE Power := ⟨fun p q => p.rank ≤ q.rank⟩

instance : LT Power := ⟨fun p q => p.rank < q.rank⟩

instance (p q : Power) : Decidable (p ≤ q) := inferInstanceAs (Decidable (p.rank ≤ q.rank))

instance (p q : Power) : Decidable (p < q) := inferInstanceAs (Decidable (p.rank < q.rank))

end Power

/-- What may follow an operand. -/
inductive Operator where
  | binary (op : BinaryOp)
  | range (inclusive : Bool)
  | typed
  | cast
  | call
  | index
  | member
deriving DecidableEq, Repr

namespace TokenKind

/-- The binary operator a token stands for. -/
def binaryOp? : TokenKind → Option BinaryOp
  | .plus => some .add
  | .dash => some .sub
  | .star => some .mul
  | .slash => some .div
  | .percent => some .mod
  | .equals => some .eq
  | .notEquals => some .notEq
  | .less => some .less
  | .lessEquals => some .lessEq
  | .greater => some .greater
  | .greaterEquals => some .greaterEq
  | .and => some .and
  | .or => some .or
  | .ampersand => some .bitAnd
  | .pipe => some .bitOr
  | .caret => some .bitXor
  | .shiftLeft => some .shl
  | .shiftRight => some .shr
  | _ => none

/-- The operator of a compound assignment token. -/
def compoundOp? : TokenKind → Option BinaryOp
  | .plusEquals => some .add
  | .minusEquals => some .sub
  | .starEquals => some .mul
  | .slashEquals => some .div
  | .percentEquals => some .mod
  | _ => none

/-- What a token means behind an operand. -/
def operator? : TokenKind → Option Operator
  | .dotDot => some (.range Bool.false)
  | .ellipsis => some (.range Bool.true)
  | .colon => some .typed
  | .as => some .cast
  | .openParen => some .call
  | .openBracket => some .index
  | .dot => some .member
  | kind => kind.binaryOp?.map .binary

end TokenKind

/-- How tightly a binary operator binds. -/
def BinaryOp.power : BinaryOp → Power
  | .and | .or => .logical
  | .less | .lessEq | .greater | .greaterEq | .eq | .notEq => .relational
  | .bitOr | .bitAnd | .bitXor => .bitwise
  | .shl | .shr => .shift
  | .add | .sub => .additive
  | .mul | .div | .mod => .multiplicative

/-- How tightly what follows an operand binds it. -/
def Operator.power : Operator → Power
  | .binary op => op.power
  | .range _ => .range
  | .typed => .typed
  | .cast => .cast
  | .call | .index => .call
  | .member => .member

end Frontend
