import Frontend.Proofs.Rendering.Text
import Frontend.Proofs.Token.Table
import Frontend.Proofs.Token.Tiling

/-!
# Cutting written text into tokens

`Cuts text seen next` says of a text that wherever it stands in front of something with `next`, the
lexer makes tokens of it that the grammar sees as `seen`, and goes on behind it. Names and signs are
cut off one by one, so the tokens of a longer text follow from those of its parts. Two ampersands
side by side are one token, whatever stands in front of them and behind (`Clashes`).
-/

namespace Frontend

/-- In front of something with `next`, a text is cut into tokens of its own. -/
def Cuts (text : List Char) (seen : List Lexeme) (next : List Char → Prop) : Prop :=
  ∀ ⦃rest : List Char⦄, next rest → ∀ p, ∃ tokens q, tokens.map Token.lexeme = seen ∧
    Token.scan p (text ++ rest) = (Token.scan q rest).map (tokens ++ ·)

/-- Nothing that continues a word follows. -/
def EndsWord (rest : List Char) : Prop := ∀ c ∈ rest.head?, Pattern.isWordRest c = false

/-- No blank follows. -/
def EndsBlank (rest : List Char) : Prop := ∀ c ∈ rest.head?, Text.isBlank c = false

/-- Whatever follows a text, two ampersands in it are taken for one sign. -/
def Clashes (text : List Char) : Prop :=
  ∀ rest p tokens, Token.scan p (text ++ rest) = .ok tokens →
    TokenKind.and ∈ tokens.map Token.kind

/-- Signs that are cut off whatever follows them. -/
def plainSigns : List (TokenKind × String) :=
  [(.openBracket, "["), (.closeBracket, "]"), (.openCurly, "\x7b"), (.closeCurly, "\x7d"),
    (.openParen, "("), (.closeParen, ")"), (.fatArrow, "=>"), (.colon, ":"), (.question, "?"),
    (.comma, ",")]

namespace Pattern

variable {rest : List Char}

theorem first?_plain {kind : TokenKind} {spelling : String} (h : (kind, spelling) ∈ plainSigns) :
    first? (spelling.toList ++ rest) = some (.symbol kind spelling, spelling.toList, rest) := by
  simp only [plainSigns, List.mem_cons, List.not_mem_nil, or_false, Prod.mk.injEq] at h
  rcases h with h | h | h | h | h | h | h | h | h | h <;>
  · obtain ⟨rfl, rfl⟩ := h
    rfl

theorem first?_ampersand (h : ∀ c ∈ rest.head?, c ≠ '&') :
    first? ('&' :: rest) = some (.symbol .ampersand "&", ['&'], rest) := by
  have hand : take? (.symbol .and "&&") ('&' :: rest) = none := by
    cases rest with
    | nil => rfl
    | cons c rest =>
      have hc : '&' ≠ c := (h c rfl).symm
      simp [take?, dropSpelling?, hc]
  simp only [first?, table, List.findSome?_cons, hand]
  rfl

theorem first?_word {c : Char} {word : List Char} (hc : isWordStart c = true)
    (hword : ∀ c ∈ word, isWordRest c = true) (h : EndsWord rest) :
    first? (c :: word ++ rest) = some (.word, c :: word, rest) := by
  have hrun : (word ++ rest).takeWhile isWordRest = word :=
    takeWhile_append_eq_left_iff.2 ⟨hword, h⟩
  simp [first?, table, take?, hc, hrun, dropWhile_of_takeWhile hrun]

end Pattern

/-- A plain sign begins with a character that is in no word and no blank. -/
theorem plainSigns_head {kind : TokenKind} {spelling : String}
    (h : (kind, spelling) ∈ plainSigns) (rest : List Char) :
    EndsWord (spelling.toList ++ rest) ∧ EndsBlank (spelling.toList ++ rest) := by
  simp only [plainSigns, List.mem_cons, List.not_mem_nil, or_false, Prod.mk.injEq] at h
  rcases h with h | h | h | h | h | h | h | h | h | h <;>
  · obtain ⟨rfl, rfl⟩ := h
    constructor <;>
    · rintro _ ⟨⟩
      decide

theorem endsWord_cons {c : Char} {rest : List Char} (hc : Pattern.isWordRest c = false) :
    EndsWord (c :: rest) := by
  rintro _ ⟨⟩
  exact hc

namespace Cuts

variable {text text' rest : List Char} {seen seen' : List Lexeme} {next next' : List Char → Prop}

theorem nil : Cuts [] [] next := by
  intro rest _ p
  refine ⟨[], p, rfl, ?_⟩
  rw [List.nil_append]
  cases Token.scan p rest <;> rfl

theorem imp (h : Cuts text seen next) (hnext : ∀ rest, next' rest → next rest) :
    Cuts text seen next' := fun rest hrest => h (hnext rest hrest)

/-- Two texts side by side, of which the second may follow the first. -/
theorem append (h : Cuts text seen next) (h' : Cuts text' seen' next')
    (hnext : ∀ rest, next' rest → next (text' ++ rest)) :
    Cuts (text ++ text') (seen ++ seen') next' := by
  intro rest hrest p
  obtain ⟨tokens, q, hseen, hscan⟩ := h (hnext rest hrest) p
  obtain ⟨tokens', q', hseen', hscan'⟩ := h' hrest q
  refine ⟨tokens ++ tokens', q', by rw [List.map_append, hseen, hseen'], ?_⟩
  rw [List.append_assoc, hscan, hscan']
  cases Token.scan q' rest with
  | error e => rfl
  | ok others => simp [Except.map]

/-- What the first pattern takes is a token, if the pattern makes one. -/
theorem of_first? {pattern : Pattern} {kind : TokenKind} {value : String}
    (h : ∀ rest, next rest → Pattern.first? (text ++ rest) = some (pattern, text, rest))
    (htoken : pattern.token? text = some (kind, value)) :
    Cuts text [(kind, if kind.hasText then value else "")] next := by
  intro rest hrest p
  refine ⟨[⟨kind, value, ⟨p, p.pastAll text⟩⟩], p.pastAll text, rfl, ?_⟩
  rw [Token.scan_of_first? (h rest hrest), htoken]
  cases Token.scan (p.pastAll text) rest <;> rfl

theorem sign (kind : TokenKind) (spelling : String) (h : (kind, spelling) ∈ plainSigns) :
    Cuts spelling.toList [Frontend.sign kind] fun _ => True := by
  have htext : kind.hasText = false :=
    (show ∀ s ∈ plainSigns, s.1.hasText = false by decide) _ h
  have hcut : Cuts spelling.toList [(kind, if kind.hasText then spelling else "")] fun _ => True :=
    of_first? (fun rest _ => Pattern.first?_plain h) rfl
  rw [htext] at hcut
  exact hcut

theorem ampersand : Cuts ['&'] [Frontend.sign .ampersand] fun rest => ∀ c ∈ rest.head?, c ≠ '&' :=
  of_first? (fun _ hrest => Pattern.first?_ampersand hrest) rfl

/-- A blank in front of something that is none leaves no token. -/
theorem blank : Cuts [' '] [] EndsBlank := by
  intro rest hrest p
  have hfirst : Pattern.first? ([' '] ++ rest) = some (.blank, [' '], rest) :=
    Pattern.first?_blank (List.cons_ne_nil _ _) (List.forall_mem_singleton.2 (by decide)) hrest
  refine ⟨[], p.pastAll [' '], rfl, ?_⟩
  rw [Token.scan_of_first? hfirst]
  cases Token.scan (p.pastAll [' ']) rest <;> rfl

/-- A word is cut off where it ends. -/
theorem word {w : String} {c : Char} {others : List Char} (hw : w.toList = c :: others)
    (hc : Pattern.isWordStart c = true) (hothers : others.all Pattern.isWordRest = true) :
    Cuts w.toList [(.ofWord w, if (TokenKind.ofWord w).hasText then w else "")] EndsWord := by
  have hvalue : String.ofList (c :: others) = w := by rw [← hw, String.ofList_toList]
  rw [hw]
  refine of_first? (fun rest hrest => Pattern.first?_word hc (List.all_eq_true.mp hothers) hrest) ?_
  rw [← hvalue]
  rfl

/-- A text with a plain sign behind it. -/
theorem followed (h : Cuts text seen EndsWord) (kind : TokenKind) (spelling : String)
    (hsign : (kind, spelling) ∈ plainSigns) :
    Cuts (text ++ spelling.toList) (seen ++ [Frontend.sign kind]) fun _ => True :=
  h.append (sign kind spelling hsign) fun rest _ => (plainSigns_head hsign rest).1

/-- A text between parentheses. -/
theorem parens (h : Cuts text seen EndsWord) :
    Cuts ("(".toList ++ text ++ ")".toList) (Frontend.parens seen) fun _ => True :=
  ((sign .openParen "(" (by decide)).append h fun _ _ => trivial).followed .closeParen ")"
    (by decide)

/-- A plain sign with blanks around it. -/
theorem spaced (kind : TokenKind) (spelling : String) (h : (kind, spelling) ∈ plainSigns) :
    Cuts ([' '] ++ spelling.toList ++ [' ']) [Frontend.sign kind] EndsBlank :=
  (blank.append (sign kind spelling h) fun rest _ => (plainSigns_head h rest).2).append blank
    fun _ _ => trivial

/-- A comma with a blank behind it. -/
theorem comma : Cuts ", ".toList [Frontend.sign .comma] EndsBlank :=
  (sign .comma "," (by decide)).append blank fun _ _ => trivial

/-- A text that is all of a source is cut into the tokens seen of it and the end of the file. -/
theorem tokenize {source : String} (h : Cuts source.toList seen next) (hnext : next [])
    (file : String) : ∃ tokens, Token.tokenize source file = .ok tokens ∧
      tokens.map Token.lexeme = seen ++ [Frontend.sign .eof] := by
  obtain ⟨tokens, q, hseen, hscan⟩ := h hnext (.origin file)
  rw [List.append_nil, Token.scan] at hscan
  exact ⟨_, hscan, by rw [List.map_append, hseen]; rfl⟩

end Cuts

namespace Clashes

variable {text text' rest : List Char} {seen : List Lexeme} {next : List Char → Prop}

theorem append (h : Clashes text) (more : List Char) : Clashes (text ++ more) := by
  intro rest p tokens hscan
  rw [List.append_assoc] at hscan
  exact h _ p tokens hscan

/-- What stands in front of two ampersands does not keep them apart. -/
theorem behind (h : Clashes text) (hfront : Cuts text' seen next)
    (hnext : ∀ rest, next (text ++ rest)) : Clashes (text' ++ text) := by
  intro rest p tokens hscan
  obtain ⟨front, q, -, heq⟩ := hfront (hnext rest) p
  rw [List.append_assoc, heq] at hscan
  cases hrest : Token.scan q (text ++ rest) with
  | error e =>
    rw [hrest] at hscan
    cases hscan
  | ok others =>
    rw [hrest] at hscan
    cases hscan
    rw [List.map_append]
    exact List.mem_append_right _ (h rest q others hrest)

theorem ampersands (text : List Char) : Clashes ('&' :: '&' :: text) := by
  intro rest p tokens hscan
  have hfirst : Pattern.first? ('&' :: '&' :: (text ++ rest)) =
      some (.symbol .and "&&", ['&', '&'], text ++ rest) := rfl
  rw [List.cons_append, List.cons_append, Token.scan_of_first? hfirst] at hscan
  cases hrest : Token.scan (p.pastAll ['&', '&']) (text ++ rest) with
  | error e =>
    rw [hrest] at hscan
    cases hscan
  | ok others =>
    rw [hrest] at hscan
    cases hscan
    exact List.mem_cons_self

/-- A text that clashes is not empty. -/
theorem ne_nil (h : Clashes text) : text ≠ [] := by
  rintro rfl
  have hmem := h [] .null _ (by rw [List.append_nil, Token.scan])
  simp at hmem

/-- An ampersand in front of what clashes leaves the clash or is part of another. -/
theorem ampersand (h : Clashes text) : Clashes ('&' :: text) := by
  cases text with
  | nil => exact absurd rfl h.ne_nil
  | cons c text =>
    by_cases hc : c = '&'
    · subst hc
      exact ampersands text
    · refine h.behind Cuts.ampersand fun rest => ?_
      rintro _ ⟨⟩
      exact hc

theorem tokenize {source file : String} {tokens : List Token} (h : Clashes source.toList)
    (htokens : Token.tokenize source file = .ok tokens) :
    TokenKind.and ∈ tokens.map Token.kind :=
  h [] (.origin file) tokens (by rw [List.append_nil]; exact htokens)

end Clashes

end Frontend
