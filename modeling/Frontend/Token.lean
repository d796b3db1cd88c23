import Frontend.Source.Position

/-!
# Tokens

What the lexer produces and the parser consumes.
-/

namespace Frontend

/-- The kinds of tokens. -/
inductive TokenKind where
  | eof | int | uint | float | char | string | identifier
  | openBracket | closeBracket | openCurly | closeCurly | openParen | closeParen
  | assignment | equals | not | notEquals | fatArrow | arrow
  | less | lessEquals | greater | greaterEquals | shiftLeft | shiftRight
  | or | and | pipe | ampersand | caret
  | dot | dotDot | ellipsis | semicolon | colon | question | comma
  | plusEquals | minusEquals | starEquals | slashEquals | percentEquals
  | plus | dash | slash | star | percent
  | func | proc | var | val | const | let | «in» | «if» | elseif | «else» | unless | «then»
  | case | when | «for» | while | «return» | as | true | false | ensure
deriving DecidableEq, Repr, Inhabited

namespace TokenKind

/-- Every kind beside the name it is reported under. -/
def names : List (TokenKind × String) :=
  [(.eof, "EOF"), (.int, "Int"), (.uint, "Uint"), (.float, "Float"), (.char, "Char"),
    (.string, "String"), (.identifier, "Identifier"),
    (.openBracket, "OpenBracket"), (.closeBracket, "CloseBracket"),
    (.openCurly, "OpenCurly"), (.closeCurly, "CloseCurly"),
    (.openParen, "OpenParen"), (.closeParen, "CloseParen"),
    (.assignment, "Assignment"), (.equals, "Equals"), (.not, "Not"), (.notEquals, "NotEquals"),
    (.fatArrow, "FatArrow"), (.arrow, "Arrow"),
    (.less, "Less"), (.lessEquals, "LessEquals"), (.greater, "Greater"),
    (.greaterEquals, "GreaterEquals"), (.shiftLeft, "ShiftLeft"), (.shiftRight, "ShiftRight"),
    (.or, "Or"), (.and, "And"), (.pipe, "Pipe"), (.ampersand, "Ampersand"), (.caret, "Caret"),
    (.dot, "Dot"), (.dotDot, "DotDot"), (.ellipsis, "Ellipsis"), (.semicolon, "Semicolon"),
    (.colon, "Colon"), (.question, "Question"), (.comma, "Comma"),
    (.plusEquals, "PlusEquals"), (.minusEquals, "MinusEquals"), (.starEquals, "StarEquals"),
    (.slashEquals, "SlashEquals"), (.percentEquals, "PercentEquals"),
    (.plus, "Plus"), (.dash, "Dash"), (.slash, "Slash"), (.star, "Star"), (.percent, "Percent"),
    (.func, "Func"), (.proc, "Proc"), (.var, "Var"), (.val, "Val"), (.const, "Const"),
    (.let, "Let"), (.in, "In"), (.if, "If"), (.elseif, "Elseif"), (.else, "Else"),
    (.unless, "Unless"), (.then, "Then"), (.case, "Case"), (.when, "When"), (.for, "For"),
    (.while, "While"), (.return, "Return"), (.as, "As"), (.true, "True"), (.false, "False"),
    (.ensure, "Ensure")]

/-- The name a kind is reported under. -/
def name (kind : TokenKind) : String := (names.lookup kind).getD ""

/-- The kind reported under a name. -/
def ofName? (name : String) : Option TokenKind :=
  (names.find? (·.2 == name)).map (·.1)

theorem ofName?_name (kind : TokenKind) : ofName? kind.name = some kind := by
  cases kind <;> decide

/-- Whether tokens of this kind differ in their text. -/
def hasText : TokenKind → Bool
  | .string | .char | .identifier | .int | .uint | .float => Bool.true
  | _ => Bool.false

/-- The reserved words; every other word is an identifier. -/
def reservedWords : List (String × TokenKind) :=
  [("func", .func), ("proc", .proc), ("var", .var), ("val", .val), ("const", .const),
    ("let", .let), ("in", .in), ("if", .if), ("elseif", .elseif), ("else", .else),
    ("unless", .unless), ("then", .then), ("case", .case), ("when", .when), ("for", .for),
    ("while", .while), ("return", .return), ("as", .as), ("true", .true), ("false", .false),
    ("ensure", .ensure)]

/-- The kind of a word. -/
def ofWord (word : String) : TokenKind := (reservedWords.lookup word).getD .identifier

end TokenKind

/-- A token: its kind, its value (for literals, the text without quotes, escapes and suffixes),
and where it stands. -/
structure Token where
  kind : TokenKind
  value : String
  span : Span
deriving DecidableEq, Repr, Inhabited

/-- The form in which a token is shown: its kind, with the value where kinds have one. -/
def Token.describe (t : Token) : String :=
  if t.kind.hasText then t.kind.name ++ " (" ++ t.value ++ ")" else t.kind.name

end Frontend
