import Mathlib.Data.List.Forall2
import Frontend.Proofs.Token.Table
import Frontend.Proofs.Token.Tiling

/-!
# Spacing tokens anew

A token is read back from its own text: with white space or nothing behind it, the pattern that made
it is the first to match there and takes the same (`first?_eq_of_blank`). So the texts of the tokens
of a source, written one behind the other with any white space between them, are the same tokens
(`tokenize_spaced`).
-/

namespace Frontend

open Text

namespace Pattern

variable {w : WordClass} {q : Pattern} {c : Char} {taken rest after run tail : List Char}

theorem isDigit_of_isBlank (h : isBlank c = true) : c.isDigit = false := by
  by_contra hdigit
  have hword := isWordRest_of_isBlank h
  rw [isWordRest_of_isDigit (Bool.not_eq_false _ ▸ hdigit)] at hword
  cases hword

/-- In front of white space, the digits of a number end in front of what may stand behind them. -/
theorem Tail.takeRun?_digits (h : Tail w rest tail) (hne : run ≠ [])
    (hall : ∀ c ∈ run, c.isDigit = true) (hafter : ∀ c ∈ after.head?, isBlank c = true) :
    takeRun? Char.isDigit (run ++ (tail ++ after)) = some (run, tail ++ after) := by
  refine takeRun?_append_eq_some_iff.2 ⟨hne, takeWhile_append_eq_left_iff.2 ⟨hall, ?_⟩⟩
  cases h with
  | none => exact fun c hc => isDigit_of_isBlank (hafter c hc)
  | fraction | unsigned =>
    rintro _ ⟨⟩
    decide

theorem Tail.numberTail (h : Tail w rest tail) (hafter : ∀ c ∈ after.head?, isBlank c = true) :
    Pattern.numberTail (tail ++ after) = (tail, after) := by
  cases h with
  | none =>
    rw [List.nil_append, Pattern.numberTail]
    all_goals
      rintro _ rfl
      exact absurd (hafter _ rfl) (by decide)
  | @fraction digits hne hall =>
    have hrun : takeRun? Char.isDigit (digits ++ after) = some (digits, after) :=
      (Tail.none : Tail w rest []).takeRun?_digits hne hall hafter
    simp [Pattern.numberTail, hrun]
  | unsigned =>
    have hhead : (after.head?.any isWordRest) = false := by
      cases after with
      | nil => rfl
      | cons c after => exact isWordRest_of_isBlank (hafter c rfl)
    simp [Pattern.numberTail, hhead]

/-- In front of white space, or at the end of a text, the text of a token is taken as it is. -/
theorem Reads.take?_of_blank (h : q.Reads w rest taken) (hq : q ∉ [.blank, .comment])
    (hafter : ∀ c ∈ after.head?, isBlank c = true) :
    q.take? (taken ++ after) = some (taken, after) := by
  by_cases hends : q ∈ [.word, .number]
  case neg => exact h.take?_closed (by simp_all) after
  cases h with
  | @word c run hc hrun =>
    have htake : (run ++ after).takeWhile isWordRest = run :=
      takeWhile_append_eq_left_iff.2 ⟨hrun, fun c hc => isWordRest_of_isBlank (hafter c hc)⟩
    rw [List.cons_append, take?, if_pos hc, htake, dropWhile_of_takeWhile htake]
  | @number digits tail hne hall htail =>
    rw [List.append_assoc, take?, htail.takeRun?_digits hne hall hafter, Option.map_some]
    simp only [htail.numberTail hafter]
  | blank | comment | string | char | escape | symbol => exact absurd hends (by simp)

/-- What is taken from a text as a token is taken from it in front of white space as well. -/
theorem first?_eq_of_blank (h : first? (taken ++ rest) = some (q, taken, rest))
    (hq : q ∉ [.blank, .comment]) (hafter : ∀ c ∈ after.head?, isBlank c = true) :
    first? (taken ++ after) = some (q, taken, after) := by
  obtain ⟨hmem, htake⟩ := first?_eq_some h
  refine first?_of_take? hmem ((take?_reads htake).take?_of_blank hq hafter) fun c hc r hr hin => ?_
  have hopenings : ∀ r ∈ table, r.opening.all (!isBlank ·) = true := by decide
  have hnot := List.all_eq_true.1 (hopenings r hr) c hin
  rw [hafter c hc] at hnot
  cases hnot

end Pattern

namespace Token

/-- Texts one behind the other, with white space between them. -/
inductive Spaced : List (List Char) → List Char → Prop
  | nil : Spaced [] []
  | single (text : List Char) : Spaced [text] text
  | cons {text space next : List Char} {texts : List (List Char)} {rest : List Char} :
    space ≠ [] → (∀ c ∈ space, isBlank c = true) → Spaced (next :: texts) rest →
    Spaced (text :: next :: texts) (text ++ space ++ rest)

/-- The kind and the value of a token, which are the same wherever it stands. -/
def kindValue (t : Token) : TokenKind × String := (t.kind, t.value)

/-- A text that one pattern takes as a token of the kind and value, where white space or nothing
follows. -/
def Alone (read : TokenKind × String) (text : List Char) : Prop :=
  ∃ q : Pattern, q.token? text = some read ∧ ∀ after : List Char,
    (∀ c ∈ after.head?, isBlank c = true) →
      Pattern.first? (text ++ after) = some (q, text, after)

variable {source file : String} {tokens : List Token} {front text space spaced : List Char}
  {texts : List (List Char)} {read : List (TokenKind × String)} {r : TokenKind × String}

/-- The same white space may stand between all of the texts. -/
theorem Spaced.intercalate (hne : space ≠ []) (hspace : ∀ c ∈ space, isBlank c = true)
    (texts : List (List Char)) : Spaced texts (space.intercalate texts) := by
  induction texts with
  | nil => exact .nil
  | cons text texts ih =>
    cases texts with
    | nil =>
      rw [List.intercalate_singleton]
      exact .single text
    | cons next texts =>
      rw [List.intercalate_cons_cons]
      exact .cons hne hspace ih

/-- The text of a token is also taken where it is all that is left. -/
theorem Alone.first? (h : Alone r text) :
    ∃ q : Pattern, q.token? text = some r ∧ Pattern.first? text = some (q, text, []) := by
  obtain ⟨q, htoken, hfirst⟩ := h
  have hend := hfirst [] (by simp)
  rw [List.append_nil] at hend
  exact ⟨q, htoken, hend⟩

/-- The text of a token does not begin with white space. -/
theorem Alone.exists_cons (h : Alone r text) : ∃ c more, text = c :: more ∧ isBlank c = false := by
  obtain ⟨q, htoken, hfirst⟩ := h.first?
  obtain ⟨hq, htake⟩ := Pattern.first?_eq_some hfirst
  obtain ⟨c, more, rfl, hc⟩ := (Pattern.take?_reads htake).begins hq
  refine ⟨c, more, rfl, ?_⟩
  by_contra hblank
  obtain rfl : Pattern.blank = q :=
    Pattern.eq_of_begins (by decide) hq (Bool.not_eq_false _ ▸ hblank) hc
  cases htoken

/-- What is spaced begins with the first of the texts. -/
theorem Spaced.isBlank_head (h : Spaced (text :: texts) spaced) (halone : Alone r text) :
    ∀ c ∈ spaced.head?, isBlank c = false := by
  obtain ⟨c, more, rfl, hc⟩ := halone.exists_cons
  cases h <;>
  · rintro _ ⟨⟩
    exact hc

/-- The text of each token is that token by itself. -/
theorem Scanned.alone {p : Position} (h : Scanned p text tokens)
    (hsource : source.toList = front ++ text) (hp : p = (Position.origin file).pastAll front) :
    ∀ t ∈ tokens.dropLast, Alone t.kindValue (t.text source) := by
  induction h generalizing front with
  | eof => exact fun t ht => absurd ht List.not_mem_nil
  | @token p q taken rest kind value tokens hfound htoken hscanned ih =>
    have hstop : p.pastAll taken = (Position.origin file).pastAll (front ++ taken) := by
      rw [Position.pastAll_append, ← hp]
    have hothers := ih (by rw [hsource, List.append_assoc]) hstop
    rw [List.dropLast_cons_of_ne_nil hscanned.ne_nil]
    refine List.forall_mem_cons.2 ⟨?_, hothers⟩
    rw [text_eq hsource (by rw [← hstop, hp])]
    refine ⟨q, htoken, fun after hafter => Pattern.first?_eq_of_blank hfound ?_ hafter⟩
    rw [List.mem_pair]
    rintro (rfl | rfl) <;> cases htoken
  | skip _ _ _ ih =>
    exact ih (by rw [hsource, List.append_assoc]) (by rw [Position.pastAll_append, ← hp])

theorem tokenize_alone (h : tokenize source file = .ok tokens) :
    ∀ t ∈ tokens.dropLast, Alone t.kindValue (t.text source) := by
  have hsource : source.toList = [] ++ source.toList := rfl
  exact (scanned_of_scan h).alone hsource rfl

/-- Texts that are tokens by themselves are scanned as these tokens when white space stands between
them. -/
theorem scan_spaced (hspaced : Spaced texts text) (halone : List.Forall₂ Alone read texts)
    (p : Position) :
    ∃ tokens, scan p text = .ok tokens ∧ tokens.map kindValue = read ++ [(.eof, "EOF")] := by
  induction hspaced generalizing read p with
  | nil =>
    cases halone
    exact ⟨_, by rw [scan], rfl⟩
  | single text =>
    cases halone with
    | cons hone hnone =>
      cases hnone
      obtain ⟨q, htoken, hfirst⟩ := hone.first?
      exact ⟨_, by rw [scan_of_first? hfirst, scan, htoken]; rfl, rfl⟩
  | @cons text space next texts rest hne hblank hspaced ih =>
    cases halone with
    | cons hone hothers =>
      obtain ⟨q, htoken, hfirst⟩ := hone
      have htext := hfirst (space ++ rest) fun c hc => by
        obtain ⟨b, more, rfl⟩ := List.exists_cons_of_ne_nil hne
        exact hblank c (List.mem_cons.2 (.inl (Option.some.inj hc).symm))
      have hspace : Pattern.first? (space ++ rest) = some (.blank, space, rest) := by
        cases hothers with
        | cons hnext => exact Pattern.first?_blank hne hblank (hspaced.isBlank_head hnext)
      obtain ⟨tokens, htokens, hread⟩ := ih hothers ((p.pastAll text).pastAll space)
      rw [List.append_assoc, scan_of_first? htext, scan_of_first? hspace, htokens, htoken]
      exact ⟨_, rfl, congrArg (_ :: ·) hread⟩

/-- The texts of the tokens of a source, with any white space between one and the next, are tokens
of the same kinds and values. -/
theorem tokenize_spaced (h : tokenize source file = .ok tokens)
    (hspaced : Spaced (tokens.dropLast.map (Token.text source)) text) (other : String) :
    ∃ tokens', tokenize (String.ofList text) other = .ok tokens' ∧
      tokens'.map kindValue = tokens.map kindValue := by
  have halone : List.Forall₂ Alone (tokens.dropLast.map kindValue)
      (tokens.dropLast.map (Token.text source)) := by
    rw [List.forall₂_map_left_iff, List.forall₂_map_right_iff, List.forall₂_same]
    exact tokenize_alone h
  obtain ⟨tokens', htokens', hread⟩ := scan_spaced hspaced halone (.origin other)
  refine ⟨tokens', by rw [tokenize, String.toList_ofList, htokens'], ?_⟩
  obtain ⟨eof, hlast, hkind, hvalue, -⟩ := (tiled_of_tokenize h).last
  have htokens := List.dropLast_append_getLast? eof hlast
  rw [hread, ← htokens, List.map_append, List.dropLast_concat, List.map_singleton, kindValue, hkind,
    hvalue]

/-- A comment is left out, and the number keeps its `u` in front of a line feed. -/
theorem tokenize_spaced_sum : ∃ tokens tokens', tokenize "x+1u//y" "main.dachs" = .ok tokens ∧
    tokenize "x\n+\n1u" "main.dachs" = .ok tokens' ∧
    tokens'.map kindValue = tokens.map kindValue := by
  have h : tokenize "x+1u//y" "main.dachs" = .ok
      [⟨.identifier, "x", ⟨⟨0, 1, 1, "main.dachs"⟩, ⟨1, 1, 2, "main.dachs"⟩⟩⟩,
        ⟨.plus, "+", ⟨⟨1, 1, 2, "main.dachs"⟩, ⟨2, 1, 3, "main.dachs"⟩⟩⟩,
        ⟨.uint, "1", ⟨⟨2, 1, 3, "main.dachs"⟩, ⟨4, 1, 5, "main.dachs"⟩⟩⟩,
        ⟨.eof, "EOF", ⟨⟨7, 1, 8, "main.dachs"⟩, ⟨7, 1, 8, "main.dachs"⟩⟩⟩] := by
    decide +kernel
  have hspace : ∀ c ∈ ['\n'], isBlank c = true := List.forall_mem_singleton.2 (by decide)
  obtain ⟨tokens', htokens', hread⟩ :=
    tokenize_spaced h (.intercalate (List.cons_ne_nil _ _) hspace _) "main.dachs"
  exact ⟨_, tokens', h, htokens', hread⟩

end Token

end Frontend
