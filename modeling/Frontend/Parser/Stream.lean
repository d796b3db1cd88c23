import Frontend.Error
import Frontend.Token
import Frontend.Tree.Copy

/-!
# Token streams and the parser monad

A parser reads a stream of tokens from the front and decides on the current token alone. The
stream also remembers where the last consumed token ended, which is where the spans of finished
nodes end, and which node id comes next. A parser that fails leaves the stream where it stopped.
-/

namespace Frontend

/-- The tokens still to be read. -/
structure TokenStream where
  rest : List Token
  /-- The number of these tokens. -/
  count : Nat
  /-- Shown as the current token once all are read. -/
  final : Token
  /-- Where the last consumed token ended. -/
  lastEnd : Position
  nextId : Nat
  file : String
  count_eq : count = rest.length := by simp
deriving Repr

namespace TokenStream

/-- A stream at its first token. The tokens are meant to end with an end-of-file token. -/
def ofTokens (tokens : List Token) (file : String) (nextId : Nat) : TokenStream :=
  { rest := tokens, count := tokens.length, final := tokens.getLastD ⟨.eof, "EOF", .null⟩
    lastEnd := .null, nextId, file }

/-- The current token. -/
def current (s : TokenStream) : Token := s.rest.headD s.final

/-- The kind of the current token. -/
def kind (s : TokenStream) : TokenKind := s.current.kind

/-- Where the current token begins. -/
def position (s : TokenStream) : Position := s.current.span.start

/-- The kind of the token `n` places ahead of the current one. -/
def peekKind (s : TokenStream) (n : Nat) : TokenKind := (s.rest[n]?.map (·.kind)).getD .eof

/-- Whether the current token is not the end of the file. -/
def hasTokens (s : TokenStream) : Bool := s.kind ≠ .eof

/-- The stream behind the current token. -/
def advance (s : TokenStream) : TokenStream :=
  { s with
    rest := s.rest.tail
    count := s.count - 1
    lastEnd := s.current.span.stop
    count_eq := by simp [s.count_eq] }

/-- The span from a place to the end of the last consumed token. -/
def spanFrom (s : TokenStream) (start : Position) : Span := ⟨start, s.lastEnd⟩

/-- An error at the current token. -/
def failureAt (s : TokenStream) (cause : Cause) : Error := ⟨cause, s.position⟩

/-- The error for a current token that fits nowhere. -/
def unexpected (s : TokenStream) : Error := s.failureAt (.unexpectedToken s.current.value)

/-- The error for a current token, with what would have fitted. -/
def unexpectedDetailed (s : TokenStream) (message : String) : Error :=
  s.failureAt (.unexpectedTokenDetailed s.current.value message)

/-- A bound on the number of tokens that reading on can consume, one more than there are. -/
def bound (s : TokenStream) : Nat := s.count + 1

theorem bound_eq (s : TokenStream) : s.bound = s.rest.length + 1 := by rw [bound, s.count_eq]

end TokenStream

/-- A parser. -/
abbrev Parse := EStateM Failure TokenStream

namespace Parse

/-- Fails because a recursion was deeper than its bound. -/
def outOfFuel {α : Type} : Parse α := throw (.fault .outOfFuel)

/-- The kind of the current token. -/
def kind : Parse TokenKind := return (← get).kind

/-- Where the current token begins. -/
def position : Parse Position := return (← get).position

/-- Consumes the current token. -/
def advance : Parse Token := do
  let s ← get
  set s.advance
  return s.current

/-- Fails at the current token, which fits nowhere. -/
def unexpected {α : Type} : Parse α := do throw (.error (← get).unexpected)

/-- Fails at the current token and says what would have fitted. -/
def fail {α : Type} (message : String) : Parse α := do
  throw (.error ((← get).unexpectedDetailed message))

/-- Consumes a token of the given kind; the failure says `message`. -/
def expectOr (expected : TokenKind) (message : String) : Parse Token := do
  if (← kind) = expected then advance else fail message

/-- Consumes a token of the given kind. -/
def expect (expected : TokenKind) : Parse Token := expectOr expected ("expected " ++ expected.name)

/-- Consumes an identifier and gives its name. -/
def name (message : String) : Parse String := return (← expectOr .identifier message).value

/-- Consumes the current token if it is of the given kind. -/
def eat (wanted : TokenKind) : Parse Bool := do
  if (← kind) = wanted then
    let _ ← advance
    return true
  else return false

/-- The next node id. -/
def mint : Parse Nat := modifyGet fun s => (s.nextId, { s with nextId := s.nextId + 1 })

/-- Identity and location of a node that began at `start` and ends with the last consumed
token. -/
def infoFrom (start : Position) : Parse NodeInfo := do
  let span := (← get).spanFrom start
  return ⟨← mint, span⟩

/-- Runs a parser whose recursion is bounded by the tokens that are left. -/
def bounded {α : Type} (p : Nat → Parse α) : Parse α := do p (← get).bound

/-- Items with commas between them, at least one. -/
def commaList {α : Type} (item : Parse α) : Nat → Parse (List α)
  | 0 => outOfFuel
  | n + 1 => do
    let first ← item
    if ← eat .comma then return first :: (← commaList item n) else return [first]

/-- Items with commas between them, up to a token that ends the list; a comma may be last. -/
def listUntil {α : Type} (stops : TokenKind → Bool) (item : Parse α) : Nat → Parse (List α)
  | 0 => outOfFuel
  | n + 1 => do
    if stops (← kind) then return []
    else
      let first ← item
      if ← eat .comma then return first :: (← listUntil stops item n) else return [first]

/-- Items that are each introduced by a token of the given kind. -/
def introduced {α : Type} (keyword : TokenKind) (item : Parse α) : Nat → Parse (List α)
  | 0 => outOfFuel
  | n + 1 => do
    if ← eat keyword then
      let first ← item
      return first :: (← introduced keyword item n)
    else return []

/-- What a keyword introduces, if it stands here. -/
def optional {α : Type} (keyword : TokenKind) (item : Parse α) : Parse (Option α) := do
  if ← eat keyword then return some (← item) else return none

end Parse

end Frontend
