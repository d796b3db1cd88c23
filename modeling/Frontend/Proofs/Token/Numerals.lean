import Mathlib.Data.Nat.Digits.Defs
import Frontend.Parser.Expr
import Frontend.Proofs.Ensures
import Frontend.Proofs.Token.Respacing

/-!
# Whole numbers

A run of digits, with a `u` behind it for an unsigned number, is one token wherever the lexer gets
to it and neither a part of a word nor a dot follows; white space and fixed spellings in front of it
are passed (`Passes.reaches`). Its value is the one the digits have in the decimal system, and the
literal that is read holds just that value, or the numeral is refused for being out of range
(`numeral_exact`).
-/

namespace Frontend

open Text

namespace Numeral

variable {digits : List Char}

/-- The value of a run of digits in the decimal system, the last digit counting least. -/
def decimal (digits : List Char) : Nat :=
  Nat.ofDigits 10 (digits.reverse.map fun c => c.toNat - '0'.toNat)

/-- Reading from the left gives the decimal value. -/
theorem digits?_eq (hne : digits ≠ []) (hall : ∀ c ∈ digits, c.isDigit = true) :
    digits? digits = some (decimal digits) := by
  have hfold : digits.foldl (fun n c => 10 * n + (c.toNat - '0'.toNat)) 0 = decimal digits := by
    rw [decimal, Nat.ofDigits_eq_foldr, List.foldr_map, List.foldr_reverse]
    simp [Nat.add_comm]
  rw [digits?, if_pos ⟨hne, List.all_eq_true.2 hall⟩, hfold]

/-- No digit is a sign. -/
theorem sign_digits (hall : ∀ c ∈ digits, c.isDigit = true) : sign digits = (none, digits) := by
  unfold sign
  split
  · exact absurd (hall _ List.mem_cons_self) (by decide)
  · exact absurd (hall _ List.mem_cons_self) (by decide)
  · rfl

end Numeral

/-- The two types of whole numbers. -/
inductive WholeType where
  | int
  | uint

namespace WholeType

/-- What is written behind the digits. -/
def suffix : WholeType → List Char
  | .int => []
  | .uint => ['u']

/-- The kind of the tokens. -/
def kind : WholeType → TokenKind
  | .int => .int
  | .uint => .uint

/-- The largest value of a literal. -/
def limit : WholeType → Nat
  | .int => 2 ^ 63 - 1
  | .uint => 2 ^ 64 - 1

/-- The literal of a value. -/
def literal (n : Nat) : WholeType → Literal
  | .int => .int n
  | .uint => .uint n

/-- The literal that is read from a text. -/
def read? (text : String) : WholeType → Option Literal
  | .int => (Numeral.int? text).map .int
  | .uint => (Numeral.uint? text).map .uint

open Numeral in
/-- Digits are read as their decimal value if that is in range, and not at all otherwise. -/
theorem read?_digits (type : WholeType) {digits : List Char} (hne : digits ≠ [])
    (hall : ∀ c ∈ digits, c.isDigit = true) :
    type.read? (String.ofList digits) =
      if decimal digits ≤ type.limit then some (type.literal (decimal digits)) else none := by
  cases type with
  | int =>
    have hlimit : decimal digits < Nat.pow 2 63 ↔ decimal digits ≤ limit .int :=
      Nat.lt_iff_le_pred (by decide)
    rw [read?, int?, String.toList_ofList, sign_digits hall]
    by_cases hle : decimal digits ≤ limit .int <;>
      simp [digits?_eq hne hall, hlimit, hle, literal]
  | uint =>
    have hlimit : decimal digits < Nat.pow 2 64 ↔ decimal digits ≤ limit .uint :=
      Nat.lt_iff_le_pred (by decide)
    rw [read?, uint?, String.toList_ofList, sign_digits hall]
    by_cases hle : decimal digits ≤ limit .uint <;>
      simp [digits?_eq hne hall, hlimit, hle, literal]

end WholeType

namespace Pattern

variable {digits back delimiter : List Char}

/-- A numeral is taken as a whole where neither a part of a word nor a dot follows. -/
theorem first?_numeral (type : WholeType) (hne : digits ≠ [])
    (hall : ∀ c ∈ digits, c.isDigit = true)
    (hback : ∀ c ∈ back.head?, isWordRest c = false ∧ c ≠ '.') :
    first? (digits ++ type.suffix ++ back) = some (.number, digits ++ type.suffix, back) := by
  have hdigit : ∀ c ∈ (type.suffix ++ back).head?, c.isDigit = false := by
    intro c hc
    cases type with
    | uint =>
      obtain rfl : 'u' = c := Option.some.inj hc
      decide
    | int =>
      by_contra hdigit
      have hword := (hback c hc).1
      rw [isWordRest_of_isDigit (Bool.not_eq_false _ ▸ hdigit)] at hword
      cases hword
  have htail : numberTail (type.suffix ++ back) = (type.suffix, back) := by
    cases type with
    | uint =>
      have hword : (back.head?.any isWordRest) = false := by
        cases back with
        | nil => rfl
        | cons c back => exact (hback c rfl).1
      simp [WholeType.suffix, numberTail, hword]
    | int =>
      rw [WholeType.suffix, List.nil_append, numberTail]
      all_goals
        rintro _ rfl
        exact absurd (hback _ rfl) (by decide)
  have hrun : takeRun? Char.isDigit (digits ++ (type.suffix ++ back)) =
      some (digits, type.suffix ++ back) :=
    takeRun?_append_eq_some_iff.2 ⟨hne, takeWhile_append_eq_left_iff.2 ⟨hall, hdigit⟩⟩
  refine first?_of_mem_classes (by decide) ?_
  rw [List.append_assoc, take?, hrun, Option.map_some]
  simp only [htail]

/-- The token of a numeral is of the kind that its suffix says, and its value are the digits. -/
theorem token?_numeral (type : WholeType) (hall : ∀ c ∈ digits, c.isDigit = true) :
    Pattern.number.token? (digits ++ type.suffix) = some (type.kind, String.ofList digits) := by
  cases type with
  | uint => simp [token?, WholeType.suffix, WholeType.kind]
  | int =>
    have hu : digits.getLast? ≠ some 'u' :=
      fun h => absurd (hall 'u' (List.mem_of_getLast? h)) (by decide)
    have hdot : '.' ∉ digits := fun h => absurd (hall '.' h) (by decide)
    simp [token?, WholeType.suffix, WholeType.kind, hu, hdot]

/-- What may stand in front of a numeral for the lexer to get to it: nothing, white space, or a
fixed spelling, which is a token. -/
inductive Delimits : List Char → List (TokenKind × String) → Prop
  | nothing : Delimits [] []
  | blank {run : List Char} : run ≠ [] → (∀ c ∈ run, isBlank c = true) → Delimits run []
  | symbol {kind : TokenKind} {spelling : String} : .symbol kind spelling ∈ table →
    Delimits spelling.toList [(kind, spelling)]

end Pattern

namespace Token

open Pattern

/-- The lexer gets from one place of a text to another, and makes tokens on its way. -/
inductive Reaches (stop : Position) (behind : List Char) :
    Position → List Char → List Token → Prop
  | here : Reaches stop behind stop behind []
  | token {p : Position} {q : Pattern} {taken rest : List Char} {kind : TokenKind} {value : String}
    {tokens : List Token} : Pattern.first? (taken ++ rest) = some (q, taken, rest) →
    q.token? taken = some (kind, value) → Reaches stop behind (p.pastAll taken) rest tokens →
    Reaches stop behind p (taken ++ rest) (⟨kind, value, ⟨p, p.pastAll taken⟩⟩ :: tokens)
  | skip {p : Position} {q : Pattern} {taken rest : List Char} {tokens : List Token} :
    Pattern.first? (taken ++ rest) = some (q, taken, rest) → q.token? taken = none →
    Reaches stop behind (p.pastAll taken) rest tokens →
    Reaches stop behind p (taken ++ rest) tokens

variable {source file : String} {p stop : Position} {text behind digits delimiter back : List Char}
  {tokens before : List Token} {symbols : List (TokenKind × String)}

/-- The tokens of a text are those made on the way to a place and those of what is behind it. -/
theorem Reaches.scan_eq (h : Reaches stop behind p text before) :
    scan p text = (scan stop behind).map (before ++ ·) := by
  induction h with
  | here => cases scan stop behind <;> rfl
  | token hfirst htoken _ ih =>
    rw [scan_of_first? hfirst, ih, htoken]
    cases scan stop behind <;> rfl
  | skip hfirst htoken _ ih =>
    rw [scan_of_first? hfirst, ih, htoken]
    cases scan stop behind <;> rfl

theorem Reaches.trans {q : Position} {between : List Char} {passed : List Token}
    (h : Reaches q between p text before) (h' : Reaches stop behind q between passed) :
    Reaches stop behind p text (before ++ passed) := by
  induction h with
  | here => exact h'
  | token hfirst htoken _ ih => exact .token hfirst htoken ih
  | skip hfirst htoken _ ih => exact .skip hfirst htoken ih

/-- In front of digits the lexer passes what delimits them. -/
theorem Reaches.of_delimits (h : Delimits delimiter symbols) (p : Position)
    (hbehind : ∀ c ∈ behind.head?, c.isDigit = true) :
    ∃ passed, passed.map kindValue = symbols ∧
      Reaches (p.pastAll delimiter) behind p (delimiter ++ behind) passed := by
  cases h with
  | nothing => exact ⟨[], rfl, .here⟩
  | blank hne hblank =>
    have hstop : ∀ c ∈ behind.head?, isBlank c = false := fun c hc => by
      by_contra hc'
      have hdigit := hbehind c hc
      rw [isDigit_of_isBlank (Bool.not_eq_false _ ▸ hc')] at hdigit
      cases hdigit
    exact ⟨[], rfl, .skip (first?_blank hne hblank hstop) rfl .here⟩
  | @symbol kind spelling hmem =>
    have hopenings : ∀ q ∈ table, q.opening.all (!Char.isDigit ·) = true := by decide
    have htake : (Pattern.symbol kind spelling).take? (spelling.toList ++ behind) =
        some (spelling.toList, behind) := by
      rw [take?, dropSpelling?_eq_some_iff.2 rfl, Option.map_some]
    have hfirst := first?_of_take? hmem htake fun c hc q hq hin => by
      have hnot := List.all_eq_true.1 (hopenings q hq) c hin
      rw [hbehind c hc] at hnot
      cases hnot
    exact ⟨[⟨kind, spelling, ⟨p, p.pastAll spelling.toList⟩⟩], rfl, .token hfirst rfl .here⟩

/-- The token of a numeral that stands at a place. -/
def numeral (type : WholeType) (digits : List Char) (p : Position) : Token :=
  ⟨type.kind, String.ofList digits, ⟨p, p.pastAll (digits ++ type.suffix)⟩⟩

/-- Where the lexer gets to a numeral, it makes one token of it. -/
theorem Reaches.numeral (type : WholeType) (hne : digits ≠ [])
    (hall : ∀ c ∈ digits, c.isDigit = true)
    (hback : ∀ c ∈ back.head?, isWordRest c = false ∧ c ≠ '.') (p : Position) :
    Reaches (Token.numeral type digits p).span.stop back p (digits ++ type.suffix ++ back)
      [Token.numeral type digits p] :=
  .token (first?_numeral type hne hall hback) (token?_numeral type hall) .here

end Token

namespace Parse

open Numeral

variable {type : WholeType} {digits : List Char} {p : Position} {s : TokenStream}

theorem get_bind {α : Type} (f : TokenStream → Parse α) (s : TokenStream) :
    (get >>= f) s = f s s := rfl

theorem kind_bind {α : Type} (f : TokenKind → Parse α) (s : TokenStream) :
    (kind >>= f) s = f s.kind s := rfl

theorem literal_numeral {α : Type} (read : String → Option α) (build : α → Literal)
    (s : TokenStream) :
    (numeral read >>= fun value => literal (build value)) s =
      match (read s.current.value).map build with
      | some value => .ok (.literal ⟨s.nextId, s.current.span⟩ value)
          { s.advance with nextId := s.nextId + 1 }
      | none => .error (.error (s.failureAt (.numberParse s.current.value))) s := by
  change EStateM.bind (numeral read) _ s = _
  rw [EStateM.bind, numeral, get_bind]
  cases read s.current.value <;> rfl

/-- At the token of a whole number, its value is read. -/
theorem operand_whole (hs : s.current.kind = type.kind) (g : Nested) :
    operand g s = match type.read? s.current.value with
      | some value => .ok (.literal ⟨s.nextId, s.current.span⟩ value)
          { s.advance with nextId := s.nextId + 1 }
      | none => .error (.error (s.failureAt (.numberParse s.current.value))) s := by
  cases type with
  | int =>
    have hrun : operand g s = (numeral Numeral.int? >>= fun n => literal (.int n)) s := by
      rw [operand, get_bind, hs]
      rfl
    exact hrun.trans (literal_numeral ..)
  | uint =>
    have hrun : operand g s = (numeral Numeral.uint? >>= fun n => literal (.uint n)) s := by
      rw [operand, get_bind, hs]
      rfl
    exact hrun.trans (literal_numeral ..)

/-- An operand that no operator follows is an expression in any context. -/
theorem exprWith_alone {g : Nested} {e : Expr} {t : TokenStream} (h : operand g s = .ok e t)
    (ht : t.kind.operator? = none) (power : Power) : exprWith g power s = .ok e t := by
  have hstop : operators g power e t.bound t = .ok e t := by
    rw [TokenStream.bound, operators, kind_bind, ht]
    rfl
  change EStateM.bind (operand g) _ s = _
  rw [EStateM.bind, h]
  exact hstop

/-- Where there is no operand there is no expression. -/
theorem exprWith_error {g : Nested} {f : Failure} {t : TokenStream}
    (h : operand g s = .error f t) (power : Power) : exprWith g power s = .error f t := by
  change EStateM.bind (operand g) _ s = _
  rw [EStateM.bind, h]

end Parse

open Numeral Token Pattern

variable {source file : String} {p : Position} {digits delimiter back : List Char}
  {before : List Token} {symbols : List (TokenKind × String)}

/-- Wherever the lexer gets to white space or a fixed spelling, or to nothing, with a run of digits
behind it, and behind the digits, or the `u` that makes them unsigned, stands neither a part of a
word nor a dot, it makes one token of them. Where this token is to be read as an expression, it is
the literal of its decimal value if the type has that value; otherwise reading fails at the token,
because the number cannot be read. -/
theorem numeral_exact (type : WholeType) (hne : digits ≠ [])
    (hall : ∀ c ∈ digits, c.isDigit = true) (hdelimiter : Delimits delimiter symbols)
    (hback : ∀ c ∈ back.head?, isWordRest c = false ∧ c ≠ '.')
    (hreach : Reaches p (delimiter ++ (digits ++ type.suffix ++ back)) (.origin file)
      source.toList before) :
    let t := Token.numeral type digits (p.pastAll delimiter)
    (∃ passed, passed.map kindValue = symbols ∧ tokenize source file =
      (scan t.span.stop back).map fun tokens => before ++ passed ++ t :: tokens) ∧
    ∀ (g : Parse.Nested) (power : Power) (s : TokenStream), s.current = t →
      (decimal digits ≤ type.limit →
        let e := Expr.literal ⟨s.nextId, t.span⟩ (type.literal (decimal digits))
        let behind := { s.advance with nextId := s.nextId + 1 }
        Parse.operand g s = .ok e behind ∧
          (behind.kind.operator? = none → Parse.exprWith g power s = .ok e behind)) ∧
      (type.limit < decimal digits → Parse.exprWith g power s =
        .error (.error ⟨.numberParse (String.ofList digits), t.span.start⟩) s) := by
  intro t
  constructor
  · have hdigit : ∀ c ∈ (digits ++ type.suffix ++ back).head?, c.isDigit = true := by
      obtain ⟨c, more, rfl⟩ := List.exists_cons_of_ne_nil hne
      rintro _ ⟨⟩
      exact hall c List.mem_cons_self
    obtain ⟨passed, hpassed, hdelimited⟩ := Reaches.of_delimits hdelimiter p hdigit
    have hall := (hreach.trans hdelimited).trans (.numeral type hne hall hback _)
    refine ⟨passed, hpassed, ?_⟩
    rw [tokenize, hall.scan_eq]
    simp [t]
  · intro g power s hs
    have hread : type.read? s.current.value =
        if decimal digits ≤ type.limit then some (type.literal (decimal digits)) else none := by
      rw [hs]
      exact type.read?_digits hne hall
    have hkind : s.current.kind = type.kind := by
      rw [hs]
      rfl
    have hoperand := Parse.operand_whole hkind g
    rw [hread] at hoperand
    constructor
    · intro hle
      rw [if_pos hle, hs] at hoperand
      exact ⟨hoperand, fun h => Parse.exprWith_alone hoperand h power⟩
    · intro hlt
      rw [if_neg (Nat.not_le_of_lt hlt)] at hoperand
      have herror : s.failureAt (.numberParse s.current.value) =
          ⟨.numberParse (String.ofList digits), t.span.start⟩ := by
        rw [TokenStream.failureAt, TokenStream.position, hs]
        rfl
      rw [herror] at hoperand
      exact Parse.exprWith_error hoperand power

/-- The largest unsigned number is read between parentheses; behind a minus sign one more than the
largest signed number is refused all the same. -/
theorem numeral_exact_limits : ∃ t u : Token,
    (∃ passed, passed.map kindValue = [(.openParen, "(")] ∧
      tokenize "(18446744073709551615u)" "main" =
        (scan t.span.stop [')']).map fun tokens => [] ++ passed ++ t :: tokens) ∧
    (∀ (g : Parse.Nested) (s : TokenStream), s.current = t → Parse.operand g s =
      .ok (.literal ⟨s.nextId, t.span⟩ (.uint 18446744073709551615))
        { s.advance with nextId := s.nextId + 1 }) ∧
    (∃ passed, passed.map kindValue = [(.dash, "-")] ∧
      tokenize "-9223372036854775808" "main" =
        (scan u.span.stop []).map fun tokens => [] ++ passed ++ u :: tokens) ∧
    ∀ (g : Parse.Nested) (power : Power) (s : TokenStream), s.current = u →
      Parse.exprWith g power s =
        .error (.error ⟨.numberParse "9223372036854775808", u.span.start⟩) s := by
  have hopen : Delimits "(".toList [(.openParen, "(")] := .symbol (by decide)
  have hdash : Delimits "-".toList [(.dash, "-")] := .symbol (by decide)
  have hreach : Reaches (.origin "main")
      ("(".toList ++ ("18446744073709551615".toList ++ WholeType.uint.suffix ++ [')']))
      (.origin "main") "(18446744073709551615u)".toList [] := by
    have htext : "(18446744073709551615u)".toList =
        "(".toList ++ ("18446744073709551615".toList ++ WholeType.uint.suffix ++ [')']) := by
      decide
    rw [htext]
    exact .here
  have hreach' : Reaches (.origin "main")
      ("-".toList ++ ("9223372036854775808".toList ++ WholeType.int.suffix ++ []))
      (.origin "main") "-9223372036854775808".toList [] := by
    have htext : "-9223372036854775808".toList =
        "-".toList ++ ("9223372036854775808".toList ++ WholeType.int.suffix ++ []) := by
      decide
    rw [htext]
    exact .here
  have hdigits : ∀ c ∈ "18446744073709551615".toList, c.isDigit = true :=
    List.all_eq_true.mp (by decide)
  have hdigits' : ∀ c ∈ "9223372036854775808".toList, c.isDigit = true :=
    List.all_eq_true.mp (by decide)
  have hback : ∀ c ∈ [')'].head?, isWordRest c = false ∧ c ≠ '.' := by
    rintro _ ⟨⟩
    decide
  obtain ⟨htokens, hread⟩ := numeral_exact .uint (by decide) hdigits hopen hback hreach
  obtain ⟨htokens', hread'⟩ :=
    numeral_exact .int (by decide) hdigits' hdash (by simp) hreach'
  refine ⟨_, _, htokens, fun g s hs => ?_, htokens', fun g power s hs => ?_⟩
  · exact ((hread g .default s hs).1 (by decide)).1
  · exact (hread' g power s hs).2 (by decide)

end Frontend
