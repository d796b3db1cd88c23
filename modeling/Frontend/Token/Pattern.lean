import Frontend.Text.Blank
import Frontend.Text.Escape
import Frontend.Token

/-!
# Lexical patterns

Each pattern says how much of the remaining text it takes (`Pattern.take?`) and what token, if
any, that text is (`Pattern.token?`). The order of `Pattern.table` is the order in which they
are tried.
-/

namespace Frontend

/-- The forms of text that the lexer knows. -/
inductive Pattern where
  /-- A letter or underscore, then letters, digits and underscores. -/
  | word
  /-- Digits, with a fraction or with a final `u` that ends a word. -/
  | number
  /-- White space. -/
  | blank
  /-- A string between double quotes. -/
  | string
  /-- A character, or an escape of one character, between single quotes. -/
  | char
  /-- Two slashes and the rest of the line. -/
  | comment
  /-- A fixed spelling. -/
  | symbol (kind : TokenKind) (spelling : String)
deriving DecidableEq, Repr

namespace Pattern

/-- The characters that start a word. -/
def isWordStart (c : Char) : Bool := c.isAlpha || c = '_'

/-- The characters that continue a word. -/
def isWordRest (c : Char) : Bool := c.isAlphanum || c = '_'

/-- Cuts a text after the longest run of characters with property `p`; refuses an empty run. -/
def takeRun? (p : Char → Bool) (text : List Char) : Option (List Char × List Char) :=
  match text.takeWhile p with
  | [] => none
  | run => some (run, text.dropWhile p)

/-- What may follow the digits of a number: a point and digits, or a `u` that ends a word. A
word character outside ASCII after the `u` is no part of any token, so it is not asked for. -/
def numberTail (text : List Char) : List Char × List Char :=
  match text with
  | '.' :: rest => match takeRun? Char.isDigit rest with
    | some (digits, rest) => ('.' :: digits, rest)
    | none => ([], text)
  | 'u' :: rest =>
    if rest.head?.any isWordRest then ([], text) else (['u'], rest)
  | _ => ([], text)

/-- Cuts a text after the quote that closes a string. A backslash takes the next character with
it, which may be anything but a line feed. -/
def takeClosed? (quote : Char) : List Char → Option (List Char × List Char)
  | [] => none
  | [c] => if c = quote then some ([c], []) else none
  | c :: d :: rest =>
    if c = quote then some ([c], d :: rest)
    else if c = '\\' then
      if d = '\n' then none
      else (takeClosed? quote rest).map fun (body, rest) => (c :: d :: body, rest)
    else (takeClosed? quote (d :: rest)).map fun (body, rest) => (c :: body, rest)

/-- Cuts a text after a character literal, whose opening quote has been read. -/
def takeCharClosed? : List Char → Option (List Char × List Char)
  | '\\' :: c :: '\x27' :: rest =>
    if c = '\n' then none else some (['\\', c, '\x27'], rest)
  | c :: '\x27' :: rest =>
    if c = '\\' ∨ c = '\x27' then none else some ([c, '\x27'], rest)
  | _ => none

/-- What follows a fixed spelling at the beginning of a text. -/
def dropSpelling? : List Char → List Char → Option (List Char)
  | [], text => some text
  | _ :: _, [] => none
  | s :: spelling, c :: text => if s = c then dropSpelling? spelling text else none

/-- Cuts a text after the part that a pattern takes from its beginning. -/
def take? : Pattern → List Char → Option (List Char × List Char)
  | .word, text => match text with
    | c :: rest => if isWordStart c then
        some (c :: rest.takeWhile isWordRest, rest.dropWhile isWordRest) else none
    | [] => none
  | .number, text => (takeRun? Char.isDigit text).map fun (digits, rest) =>
      let (tail, rest) := numberTail rest
      (digits ++ tail, rest)
  | .blank, text => takeRun? Text.isBlank text
  | .string, text => match text with
    | '\x22' :: rest => (takeClosed? '\x22' rest).map fun (body, rest) => ('\x22' :: body, rest)
    | _ => none
  | .char, text => match text with
    | '\x27' :: rest => (takeCharClosed? rest).map fun (body, rest) => ('\x27' :: body, rest)
    | _ => none
  | .comment, text => match text with
    | '/' :: '/' :: rest =>
      some ('/' :: '/' :: rest.takeWhile (· ≠ '\n'), rest.dropWhile (· ≠ '\n'))
    | _ => none
  | .symbol _ spelling, text =>
    (dropSpelling? spelling.toList text).map fun rest => (spelling.toList, rest)

/-- The text between the quotes of a literal. -/
def inner (text : List Char) : List Char := text.tail.dropLast

/-- Kind and value of the token whose text a pattern took; white space and comments are none. -/
def token? : Pattern → List Char → Option (TokenKind × String)
  | .word, text => let word := String.ofList text; some (.ofWord word, word)
  | .number, text =>
    if text.getLast? = some 'u' then some (.uint, String.ofList text.dropLast)
    else if '.' ∈ text then some (.float, String.ofList text)
    else some (.int, String.ofList text)
  | .string, text => some (.string, String.ofList (Text.unescapeChars (inner text)))
  | .char, text => some (.char, String.ofList (Text.unescapeChars (inner text)))
  | .symbol kind spelling, _ => some (kind, spelling)
  | .blank, _ | .comment, _ => none

/-- The patterns in the order in which they are tried. -/
def table : List Pattern :=
  [.word, .number, .blank, .string, .char, .comment,
    .symbol .openBracket "[", .symbol .closeBracket "]",
    .symbol .openCurly "\x7b", .symbol .closeCurly "\x7d",
    .symbol .openParen "(", .symbol .closeParen ")",
    .symbol .fatArrow "=>", .symbol .equals "==", .symbol .notEquals "!=", .symbol .not "!",
    .symbol .assignment "=",
    .symbol .shiftLeft "<<", .symbol .lessEquals "<=", .symbol .less "<",
    .symbol .shiftRight ">>", .symbol .greaterEquals ">=", .symbol .greater ">",
    .symbol .or "||", .symbol .and "&&", .symbol .pipe "|", .symbol .ampersand "&",
    .symbol .caret "^",
    .symbol .ellipsis "...", .symbol .dotDot "..", .symbol .dot ".",
    .symbol .semicolon ";", .symbol .colon ":", .symbol .question "?", .symbol .comma ",",
    .symbol .plusEquals "+=", .symbol .arrow "->", .symbol .minusEquals "-=",
    .symbol .starEquals "*=", .symbol .slashEquals "/=", .symbol .percentEquals "%=",
    .symbol .plus "+", .symbol .dash "-", .symbol .slash "/", .symbol .star "*",
    .symbol .percent "%"]

/-- Each fixed spelling of the table holds at least one character. -/
theorem spelling_ne_nil {kind : TokenKind} {spelling : String}
    (h : .symbol kind spelling ∈ table) : spelling.toList ≠ [] := by
  simp only [table, List.mem_cons, List.not_mem_nil, or_false, reduceCtorEq, false_or,
    Pattern.symbol.injEq] at h
  rcases h with h | h | h | h | h | h | h | h | h | h | h | h | h | h | h | h | h | h | h | h |
    h | h | h | h | h | h | h | h | h | h | h | h | h | h | h | h | h | h | h | h <;>
  · obtain ⟨_, rfl⟩ := h
    decide

/-- The first pattern of the table that matches, the text it takes, and what is left. -/
def first? (text : List Char) : Option (Pattern × List Char × List Char) :=
  table.findSome? fun p => (p.take? text).map fun (taken, rest) => (p, taken, rest)

theorem takeRun?_eq_some {p : Char → Bool} {text run rest : List Char}
    (h : takeRun? p text = some (run, rest)) : run ≠ [] ∧ run ++ rest = text := by
  unfold takeRun? at h
  split at h
  · simp at h
  · rename_i hr
    simp only [Option.some.injEq, Prod.mk.injEq] at h
    obtain ⟨rfl, rfl⟩ := h
    exact ⟨hr, List.takeWhile_append_dropWhile⟩

theorem numberTail_append (text : List Char) :
    (numberTail text).1 ++ (numberTail text).2 = text := by
  unfold numberTail
  split
  · split
    · rename_i h
      simp [(takeRun?_eq_some h).2]
    · rfl
  · split <;> rfl
  · rfl

theorem takeClosed?_append {quote : Char} {text body rest : List Char}
    (h : takeClosed? quote text = some (body, rest)) : body ++ rest = text := by
  fun_induction takeClosed? quote text generalizing body rest with
  | case1 => simp at h
  | case2 | case4 =>
    simp only [Option.some.injEq, Prod.mk.injEq] at h
    simp [← h.1, ← h.2]
  | case3 | case5 => simp at h
  | case6 _ _ _ _ ih =>
    simp only [Option.map_eq_some_iff, Prod.mk.injEq, Prod.exists] at h
    obtain ⟨b, r, hb, rfl, rfl⟩ := h
    simp [ih hb]
  | case7 _ _ text _ _ ih =>
    simp only [Option.map_eq_some_iff, Prod.mk.injEq, Prod.exists] at h
    obtain ⟨b, r, hb, rfl, rfl⟩ := h
    simp [ih hb]

theorem takeCharClosed?_append {text body rest : List Char}
    (h : takeCharClosed? text = some (body, rest)) : body ++ rest = text := by
  unfold takeCharClosed? at h
  split at h
  · split at h
    · simp at h
    · simp only [Option.some.injEq, Prod.mk.injEq] at h
      obtain ⟨rfl, rfl⟩ := h
      rfl
  · split at h
    · simp at h
    · simp only [Option.some.injEq, Prod.mk.injEq] at h
      obtain ⟨rfl, rfl⟩ := h
      rfl
  · simp at h

theorem dropSpelling?_eq_some_iff {spelling text rest : List Char} :
    dropSpelling? spelling text = some rest ↔ spelling ++ rest = text := by
  fun_induction dropSpelling? spelling text with
  | case1 => simp [eq_comm]
  | case2 => simp
  | case3 _ _ _ ih => simpa using ih
  | case4 => simp_all

/-- What a pattern takes and what it leaves are together the text it was given. -/
theorem take?_append {p : Pattern} {text taken rest : List Char}
    (h : p.take? text = some (taken, rest)) : taken ++ rest = text := by
  cases p with
  | word =>
    cases text with
    | nil => simp [take?] at h
    | cons c text =>
      simp only [take?] at h
      split at h
      · simp only [Option.some.injEq, Prod.mk.injEq] at h
        obtain ⟨rfl, rfl⟩ := h
        simp [List.takeWhile_append_dropWhile]
      · simp at h
  | number =>
    simp only [take?, Option.map_eq_some_iff, Prod.mk.injEq, Prod.exists] at h
    obtain ⟨digits, tail, hd, rfl, rfl⟩ := h
    rw [List.append_assoc, numberTail_append, (takeRun?_eq_some hd).2]
  | blank => exact (takeRun?_eq_some h).2
  | string =>
    simp only [take?] at h
    split at h
    · simp only [Option.map_eq_some_iff, Prod.mk.injEq, Prod.exists] at h
      obtain ⟨b, r, hb, rfl, rfl⟩ := h
      simp [takeClosed?_append hb]
    · simp at h
  | char =>
    simp only [take?] at h
    split at h
    · simp only [Option.map_eq_some_iff, Prod.mk.injEq, Prod.exists] at h
      obtain ⟨b, r, hb, rfl, rfl⟩ := h
      simp [takeCharClosed?_append hb]
    · simp at h
  | comment =>
    simp only [take?] at h
    split at h
    · simp only [Option.some.injEq, Prod.mk.injEq] at h
      obtain ⟨rfl, rfl⟩ := h
      simp [List.takeWhile_append_dropWhile]
    · simp at h
  | symbol kind spelling =>
    simp only [take?, Option.map_eq_some_iff, Prod.mk.injEq] at h
    obtain ⟨r, hr, rfl, rfl⟩ := h
    exact dropSpelling?_eq_some_iff.1 hr

/-- A pattern of the table takes at least one character. -/
theorem take?_ne_nil {p : Pattern} (hp : p ∈ table) {text taken rest : List Char}
    (h : p.take? text = some (taken, rest)) : taken ≠ [] := by
  cases p with
  | word =>
    cases text with
    | nil => simp [take?] at h
    | cons c text =>
      simp only [take?] at h
      split at h
      · simp only [Option.some.injEq, Prod.mk.injEq] at h
        simp [← h.1]
      · simp at h
  | number =>
    simp only [take?, Option.map_eq_some_iff, Prod.mk.injEq, Prod.exists] at h
    obtain ⟨digits, tail, hd, rfl, rfl⟩ := h
    simp [(takeRun?_eq_some hd).1]
  | blank => exact (takeRun?_eq_some h).1
  | string | char =>
    simp only [take?] at h
    split at h
    · simp only [Option.map_eq_some_iff, Prod.mk.injEq, Prod.exists] at h
      obtain ⟨b, r, hb, rfl, rfl⟩ := h
      simp
    · simp at h
  | comment =>
    simp only [take?] at h
    split at h
    · simp only [Option.some.injEq, Prod.mk.injEq] at h
      simp [← h.1]
    · simp at h
  | symbol kind spelling =>
    simp only [take?, Option.map_eq_some_iff, Prod.mk.injEq] at h
    obtain ⟨r, hr, rfl, rfl⟩ := h
    exact spelling_ne_nil hp

theorem first?_eq_some {text taken rest : List Char} {p : Pattern}
    (h : first? text = some (p, taken, rest)) : p ∈ table ∧ p.take? text = some (taken, rest) := by
  obtain ⟨q, hq, h⟩ := List.exists_of_findSome?_eq_some h
  simp only [Option.map_eq_some_iff, Prod.mk.injEq, Prod.exists] at h
  obtain ⟨t, r, ht, rfl, rfl, rfl⟩ := h
  exact ⟨hq, ht⟩

/-- Each match leaves less text than it was given. -/
theorem length_lt_of_first? {text taken rest : List Char} {p : Pattern}
    (h : first? text = some (p, taken, rest)) : rest.length < text.length := by
  obtain ⟨hp, ht⟩ := first?_eq_some h
  have hn : 0 < taken.length := List.length_pos_iff.2 (take?_ne_nil hp ht)
  rw [← take?_append ht, List.length_append]
  omega

end Pattern

end Frontend
