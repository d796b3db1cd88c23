import Frontend.Parser.Expr
import Frontend.Proofs.Ensures
import Frontend.Proofs.Token.Respacing

/-!
# Literals between quotes

Two scanners read a literal: its pattern finds the closing quote, and `unescapeChars` what the text
in front of it stands for. Any text can be written so that both agree (`tokenize_literal`). The
other way round, what stands between single quotes is one character or an escape; an escape that is
not known keeps its backslash, and its value is two characters long (`char_value`).
-/

namespace Frontend

namespace Text

/-- A character as it is written between two quotes: with a backslash in front of it if it is a
backslash or the quote. -/
def escapeChar (quote c : Char) : List Char := if c = '\\' ∨ c = quote then ['\\', c] else [c]

/-- A text as it is written between two quotes. -/
def escape (quote : Char) (text : List Char) : List Char := text.flatMap (escapeChar quote)

/-- The source of a literal that stands for a text. -/
def literal (quote : Char) (text : List Char) : String :=
  String.ofList (quote :: (escape quote text ++ [quote]))

variable {quote c d : Char} {text : List Char}

theorem unescapeChars_cons (hc : c ≠ '\\') (text : List Char) :
    unescapeChars (c :: text) = c :: unescapeChars text := by
  cases text with
  | nil => rfl
  | cons d text =>
    rw [unescapeChars.eq_def]
    exact if_pos hc

theorem unescapeChars_escaped (hd : escaped? d = some c) (text : List Char) :
    unescapeChars ('\\' :: d :: text) = c :: unescapeChars text := by
  rw [unescapeChars.eq_def]
  simp only [ne_eq, not_true_eq_false, if_false, hd]

/-- An escape that is not known stays as it is written. -/
theorem unescapeChars_unknown (hd : escaped? d = none) : unescapeChars ['\\', d] = ['\\', d] := by
  rw [unescapeChars.eq_def]
  simp only [ne_eq, not_true_eq_false, hd, unescapeChars, ite_self]

/-- Escaping is undone, whatever the text looks like. -/
theorem unescapeChars_escape (hquote : escaped? quote = some quote) (text : List Char) :
    unescapeChars (escape quote text) = text := by
  induction text with
  | nil => rfl
  | cons c text ih =>
    rw [escape, List.flatMap_cons, ← escape, escapeChar]
    split
    · rename_i hc
      have hescaped : escaped? c = some c := by
        rcases hc with rfl | rfl
        · decide
        · exact hquote
      exact (unescapeChars_escaped hescaped _).trans (congrArg _ ih)
    · rename_i hc
      exact (unescapeChars_cons (not_or.1 hc).1 _).trans (congrArg _ ih)

end Text

open Text

namespace Pattern

variable {quote : Char}

/-- An escaped text does not close the literal it stands in. -/
theorem enclosed_escape (hquote : quote ≠ '\n') (text : List Char) :
    Enclosed quote (escape quote text) := by
  induction text with
  | nil => exact .nil
  | cons c text ih =>
    rw [escape, List.flatMap_cons, ← escape, escapeChar]
    split
    · rename_i hc
      refine .escape ?_ ih
      rintro rfl
      rcases hc with hc | hc
      · exact absurd hc (by decide)
      · exact hquote hc.symm
    · rename_i hc
      exact .plain (not_or.1 hc).2 (not_or.1 hc).1 ih

/-- An escaped character between single quotes is a character literal. -/
theorem reads_char (c : Char) :
    Reads .ofAscii [] .char ('\x27' :: (escape '\x27' [c] ++ ['\x27'])) := by
  rw [escape, List.flatMap_singleton, escapeChar]
  split
  · rename_i hc
    refine .escape ?_
    rintro rfl
    exact absurd hc (by decide)
  · rename_i hc
    exact .char (not_or.1 hc).1 (not_or.1 hc).2

/-- Character tokens are made by the pattern of characters. -/
theorem eq_char_of_token? {p : Pattern} {text : List Char} {value : String} (hp : p ∈ table)
    (h : p.token? text = some (.char, value)) : p = .char := by
  cases p with
  | char => rfl
  | blank | comment => cases h
  | string => simp [token?] at h
  | word =>
    simp only [token?, Option.some.injEq, Prod.mk.injEq] at h
    exact absurd (h.1 ▸ Token.ofWord_notMem_unlike _) (by decide)
  | number =>
    simp only [token?] at h
    split_ifs at h <;> simp at h
  | symbol kind spelling =>
    simp only [token?, Option.some.injEq, Prod.mk.injEq] at h
    exact absurd (h.1 ▸ Token.symbol_notMem_unlike hp) (by decide)

end Pattern

namespace Token

open Pattern

/-- The tokens of a source that is one token. -/
def sole (kind : TokenKind) (value source file : String) : List Token :=
  let stop := (Position.origin file).pastAll source.toList
  [⟨kind, value, ⟨.origin file, stop⟩⟩, ⟨.eof, "EOF", ⟨stop, stop⟩⟩]

variable {source file : String} {tokens : List Token} {t : Token} {w : WordClass} {p : Pattern}
  {text : List Char} {kind : TokenKind} {value : String}

/-- A match of the pattern of strings or of characters is one token. -/
theorem tokenize_sole (hp : p = .string ∨ p = .char) (hreads : p.Reads w [] text)
    (htoken : p.token? text = some (kind, value)) (file : String) :
    tokenize (String.ofList text) file = .ok (sole kind value (String.ofList text) file) := by
  have htake := hreads.take?_closed (by rcases hp with rfl | rfl <;> decide) []
  rw [List.append_nil] at htake
  have hclass : p ∈ classes := by rcases hp with rfl | rfl <;> decide
  rw [tokenize, String.toList_ofList, scan_of_first? (first?_of_mem_classes hclass htake), scan,
    htoken, sole, String.toList_ofList]
  rfl

/-- Every text is the value of a string, and every character that of a character literal: they are
written between quotes with a backslash in front of each backslash and each such quote. -/
theorem tokenize_literal (file : String) :
    (∀ s : String, tokenize (literal '\x22' s.toList) file =
      .ok (sole .string s (literal '\x22' s.toList) file)) ∧
    ∀ c : Char, tokenize (literal '\x27' [c]) file =
      .ok (sole .char (String.singleton c) (literal '\x27' [c]) file) := by
  constructor
  · intro s
    have hreads : Reads .ofAscii [] .string ('\x22' :: (escape '\x22' s.toList ++ ['\x22'])) :=
      .string (enclosed_escape (by decide) s.toList)
    refine tokenize_sole (.inl rfl) hreads ?_ file
    rw [token?, inner_quoted, unescapeChars_escape (by decide), String.ofList_toList]
  · intro c
    refine tokenize_sole (.inr rfl) (reads_char c) ?_ file
    rw [token?, inner_quoted, unescapeChars_escape (by decide)]
    rfl

/-- A character literal of this text stands for the character: it is that character between quotes,
or an escape of it. -/
def Denotes (text : List Char) (c : Char) : Prop :=
  text = ['\x27', c, '\x27'] ∨ ∃ d, escaped? d = some c ∧ text = ['\x27', '\\', d, '\x27']

/-- A token whose value is one character is read as the literal of that character. -/
theorem operand_char {c : Char} (hkind : t.kind = .char) (hvalue : t.value = String.singleton c)
    (g : Parse.Nested) {s : TokenStream} (hs : s.current = t) :
    Parse.operand g s =
      .ok (.literal ⟨s.nextId, t.span⟩ (.char c)) { s.advance with nextId := s.nextId + 1 } := by
  subst hs
  rw [Parse.operand, run_bind_eq_ok]
  refine ⟨s, s, rfl, ?_⟩
  simp only [hkind, hvalue, String.toList_singleton]
  rfl

/-- The value of a character token is the character that its text denotes, and the literal that is
read from it holds this character. Only where a backslash and a character that is no escape stand
between the quotes, the value is these two characters. -/
theorem char_value (h : tokenize source file = .ok tokens) (ht : t ∈ tokens)
    (hkind : t.kind = .char) :
    (∃ c, Denotes (t.text source) c ∧ t.value = String.singleton c ∧
      ∀ g s, s.current = t → Parse.operand g s =
        .ok (.literal ⟨s.nextId, t.span⟩ (.char c)) { s.advance with nextId := s.nextId + 1 }) ∨
    ∃ d, escaped? d = none ∧ t.text source = ['\x27', '\\', d, '\x27'] ∧
      t.value = String.ofList ['\\', d] := by
  obtain ⟨eof, hlast, heof, -⟩ := (tiled_of_tokenize h).last
  have hmem : t ∈ tokens.dropLast := by
    rw [← List.dropLast_append_getLast? eof hlast, List.mem_append, List.mem_singleton] at ht
    refine ht.resolve_right ?_
    rintro rfl
    exact absurd (hkind.symm.trans heof) (by decide)
  obtain ⟨q, htoken, hfirst⟩ := (tokenize_alone h t hmem).first?
  obtain ⟨hq, htake⟩ := first?_eq_some hfirst
  rw [kindValue, hkind] at htoken
  obtain rfl := eq_char_of_token? hq htoken
  have hreads := take?_reads htake
  have hvalue : t.value = String.ofList (unescapeChars (inner (t.text source))) := by
    simp only [token?, Option.some.injEq, Prod.mk.injEq, true_and] at htoken
    exact htoken.symm
  generalize t.text source = text at hreads hvalue ⊢
  cases hreads with
  | @char c hslash hquote =>
    have hone : t.value = String.singleton c := hvalue
    exact .inl ⟨c, .inl rfl, hone, fun g s => operand_char hkind hone g⟩
  | @escape d hfeed =>
    cases hd : escaped? d with
    | none =>
      refine .inr ⟨d, hd, rfl, ?_⟩
      rw [hvalue]
      exact congrArg String.ofList (unescapeChars_unknown hd)
    | some c =>
      have hone : t.value = String.singleton c := by
        rw [hvalue]
        exact congrArg String.ofList (unescapeChars_escaped hd [])
      exact .inl ⟨c, .inr ⟨d, hd, rfl⟩, hone, fun g s => operand_char hkind hone g⟩

/-- A known escape is one character. -/
theorem char_value_feed : ∃ tokens t, tokenize "\x27\\n\x27" "main.dachs" = .ok tokens ∧
    t ∈ tokens ∧ t.kind = .char ∧
    ∃ c, Denotes (t.text "\x27\\n\x27") c ∧ t.value = String.singleton c := by
  have h : tokenize "\x27\\n\x27" "main.dachs" =
      .ok (sole .char "\n" "\x27\\n\x27" "main.dachs") := by decide +kernel
  refine ⟨_, _, h, List.mem_cons_self, rfl, ?_⟩
  rcases char_value h List.mem_cons_self rfl with ⟨c, hdenotes, hvalue, -⟩ | ⟨d, -, -, hvalue⟩
  · exact ⟨c, hdenotes, hvalue⟩
  · have hlength := congrArg (·.toList.length) hvalue
    simp at hlength

/-- An escape that is not known is two characters. -/
theorem not_char_value_single : ¬ ∀ (source file : String) (tokens : List Token),
    tokenize source file = .ok tokens → ∀ t ∈ tokens, t.kind = .char → t.value.length = 1 := by
  intro hall
  have h : tokenize "\x27\\q\x27" "main.dachs" =
      .ok (sole .char "\\q" "\x27\\q\x27" "main.dachs") := by decide +kernel
  exact absurd (hall _ _ _ h _ List.mem_cons_self rfl) (by decide)

end Token

end Frontend
