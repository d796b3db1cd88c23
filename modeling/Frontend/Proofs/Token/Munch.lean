import Frontend.Proofs.Token.Table
import Frontend.Proofs.Token.Tiling

/-!
# Maximal munch

The lexer tries its patterns in the order of the table and takes the first match. `Munches`
describes a lexer that knows no order: at each place it takes the longest text that any pattern
matches there. Both make the same tokens of every source, or stop with the same error
(`tokenize_munches`), whichever characters outside ASCII count as parts of words. Where such a
character stands behind a number and a `u`, the two cut the text differently, but neither gets past
it.
-/

namespace Frontend

namespace Pattern

/-- A pattern of the table matches a text, and no pattern matches more of what stands there. -/
structure Longest (w : WordClass) (p : Pattern) (taken rest : List Char) : Prop where
  mem_table : p ∈ table
  reads : p.Reads w rest taken
  maximal : ∀ {q : Pattern} {taken' rest' : List Char}, q ∈ table →
    taken' ++ rest' = taken ++ rest → q.Reads w rest' taken' → taken'.length ≤ taken.length

variable {w : WordClass} {p q : Pattern} {c : Char}
  {text taken rest taken' rest' digits more : List Char}

/-- At one place there is only one longest match. -/
theorem Longest.unique (h : p.Longest w taken rest) (h' : q.Longest w taken' rest')
    (htext : taken ++ rest = taken' ++ rest') : p = q ∧ taken = taken' ∧ rest = rest' := by
  have hlength : taken.length = taken'.length :=
    Nat.le_antisymm (h'.maximal h.mem_table htext h.reads)
      (h.maximal h'.mem_table htext.symm h'.reads)
  obtain ⟨rfl, rfl⟩ := List.append_inj htext hlength
  exact ⟨h.reads.unique h.mem_table h'.mem_table h'.reads, rfl, rfl⟩

/-- A number with a `u` is no match in front of a part of a word. -/
theorem not_reads_unsigned (hc : w.holds c = true) :
    ¬ Reads w (c :: more) .number (digits ++ ['u']) := by
  intro h
  generalize htaken : digits ++ ['u'] = taken at h
  cases h with
  | @number run tail hne hall htail =>
    have hlast : (run ++ tail).getLast? = some 'u' := by rw [← htaken, List.getLast?_concat]
    cases htail with
    | none =>
      rw [List.append_nil] at hlast
      exact absurd (hall _ (List.mem_of_getLast? hlast)) (by decide)
    | @fraction frac hfrac hallFrac =>
      rw [List.getLast?_append_of_ne_nil _ (List.cons_ne_nil _ _),
        List.getLast?_cons_of_ne_nil hfrac] at hlast
      exact absurd (hallFrac _ (List.mem_of_getLast? hlast)) (by decide)
    | unsigned hends =>
      rw [hends c rfl] at hc
      cases hc

/-- A match stays one when other characters count as parts of words, unless it is a number with a
`u` that one of them follows. -/
theorem Reads.or_unsigned (h : p.Reads .ofAscii rest taken) : p.Reads w rest taken ∨
    ∃ digits c more, p = .number ∧ taken = digits ++ ['u'] ∧ rest = c :: more ∧
      Reads w ('u' :: c :: more) .number digits ∧ w.holds c = true ∧ isWordRest c = false := by
  cases h with
  | word hc hrun => exact .inl (.word hc hrun)
  | blank hne hall => exact .inl (.blank hne hall)
  | string hbody => exact .inl (.string hbody)
  | char hslash hquote => exact .inl (.char hslash hquote)
  | escape hfeed => exact .inl (.escape hfeed)
  | comment hfeed => exact .inl (.comment hfeed)
  | symbol => exact .inl .symbol
  | @number digits tail hne hall htail =>
    cases htail with
    | none => exact .inl (.number hne hall .none)
    | fraction hfrac hallFrac => exact .inl (.number hne hall (.fraction hfrac hallFrac))
    | unsigned hends =>
      cases rest with
      | nil => exact .inl (.number hne hall (.unsigned (by simp)))
      | cons c more =>
        cases hc : w.holds c with
        | false =>
          refine .inl (.number hne hall (.unsigned ?_))
          rintro _ ⟨⟩
          exact hc
        | true =>
          have hdigits : Reads w ('u' :: c :: more) .number (digits ++ []) := .number hne hall .none
          rw [List.append_nil] at hdigits
          exact .inr ⟨digits, c, more, rfl, rfl, rfl, hdigits, hc, hends c rfl⟩

/-- No pattern matches at a character outside ASCII that counts as part of a word. -/
theorem first?_foreign (hc : w.holds c = true) (hword : isWordRest c = false) :
    first? (c :: more) = none := by
  refine Option.eq_none_iff_forall_ne_some.2 fun ⟨q, taken, rest⟩ h => ?_
  obtain ⟨hq, htake⟩ := first?_eq_some h
  obtain ⟨d, others, rfl, hd⟩ := (take?_reads htake).begins hq
  obtain rfl : d = c := (List.cons.inj (take?_append htake)).1
  rcases begins_ascii hq hd with hascii | hblank
  · rw [w.ascii d hascii, hword] at hc
    cases hc
  · rw [w.blank d hblank] at hc
    cases hc

/-- The first match is the longest, unless it is a number with a `u` in front of a part of a word
outside ASCII; there the digits alone are. -/
theorem longest_of_first? (h : first? text = some (p, taken, rest)) : p.Longest w taken rest ∨
    ∃ digits c more, p = .number ∧ taken = digits ++ ['u'] ∧ rest = c :: more ∧
      number.Longest w digits ('u' :: c :: more) ∧ w.holds c = true ∧ isWordRest c = false := by
  obtain ⟨hp, htake⟩ := first?_eq_some h
  have htext := take?_append htake
  rcases (take?_reads htake).or_unsigned (w := w) with
    hreads | ⟨digits, c, more, rfl, rfl, rfl, hreads, hc, hword⟩
  · exact .inl ⟨hp, hreads, fun hq htext' hreads' =>
      (first?_longest h hq hreads' (htext'.trans htext)).1⟩
  · refine .inr ⟨digits, c, more, rfl, rfl, rfl, ⟨hp, hreads, ?_⟩, hc, hword⟩
    intro q taken' rest' hq htext' hreads'
    rw [List.append_cons digits, htext] at htext'
    obtain ⟨hle, hlt⟩ := first?_longest h hq hreads' htext'
    rw [List.length_append, List.length_singleton] at hle
    by_contra hgt
    have hlength : taken'.length = (digits ++ ['u']).length := by
      rw [List.length_append, List.length_singleton]
      omega
    obtain ⟨rfl, rfl⟩ := List.append_inj (htext'.trans htext.symm) hlength
    by_cases hnumber : q = .number
    · subst hnumber
      exact not_reads_unsigned hc hreads'
    · exact absurd (hlt hnumber) (Nat.lt_irrefl _)

/-- The longest match is the first, unless a part of a word outside ASCII stands behind the `u` of a
number. -/
theorem Longest.first? (h : p.Longest w taken rest) :
    Pattern.first? (taken ++ rest) = some (p, taken, rest) ∨
      ∃ c more, p = .number ∧ rest = 'u' :: c :: more ∧ isWordRest c = false ∧
        Pattern.first? (taken ++ rest) = some (.number, taken ++ ['u'], c :: more) ∧
        Pattern.first? (c :: more) = none := by
  cases hfirst : Pattern.first? (taken ++ rest) with
  | none => exact absurd h.reads (not_reads_of_first?_eq_none hfirst h.mem_table rfl)
  | some cut =>
    obtain ⟨q, taken', rest'⟩ := cut
    have htext := take?_append (first?_eq_some hfirst).2
    rcases longest_of_first? (w := w) hfirst with
      h' | ⟨digits, c, more, rfl, rfl, rfl, h', hc, hword⟩
    · obtain ⟨rfl, rfl, rfl⟩ := h.unique h' htext.symm
      exact .inl rfl
    · rw [List.append_assoc, List.singleton_append] at htext
      obtain ⟨rfl, rfl, rfl⟩ := h.unique h' htext.symm
      exact .inr ⟨c, more, rfl, rfl, hword, rfl, first?_foreign hc hword⟩

end Pattern

namespace Token

open Pattern

/-- The tokens that are made of a text by always taking the longest match, or the error at the first
character where there is none. -/
inductive Munches (w : WordClass) : Position → List Char → Except Error (List Token) → Prop
  | eof {p : Position} : Munches w p [] (.ok [⟨.eof, "EOF", ⟨p, p⟩⟩])
  | stuck {p : Position} {c : Char} {text : List Char} :
    (∀ q ∈ table, ∀ taken rest, taken ++ rest = c :: text → ¬ q.Reads w rest taken) →
    Munches w p (c :: text) (.error ⟨.unrecognisedToken (String.singleton c), p⟩)
  | token {p : Position} {q : Pattern} {taken rest : List Char} {kind : TokenKind}
    {value : String} {r : Except Error (List Token)} : q.Longest w taken rest →
    q.token? taken = some (kind, value) → Munches w (p.pastAll taken) rest r →
    Munches w p (taken ++ rest) (r.map (⟨kind, value, ⟨p, p.pastAll taken⟩⟩ :: ·))
  | skip {p : Position} {q : Pattern} {taken rest : List Char} {r : Except Error (List Token)} :
    q.Longest w taken rest → q.token? taken = none → Munches w (p.pastAll taken) rest r →
    Munches w p (taken ++ rest) r

variable {w : WordClass} {p : Position} {text : List Char} {r : Except Error (List Token)}

theorem scan_of_first?_eq_none {c : Char} (h : first? (c :: text) = none) :
    scan p (c :: text) = .error ⟨.unrecognisedToken (String.singleton c), p⟩ := by
  rw [scan]
  split
  · rfl
  · rename_i hsome
    rw [h] at hsome
    cases hsome

/-- What is made of a text by longest matches is what the lexer makes of it. -/
theorem Munches.scan_eq (h : Munches w p text r) : scan p text = r := by
  induction h with
  | eof => rw [scan]
  | @stuck p c text hnone =>
    refine scan_of_first?_eq_none (Option.eq_none_iff_forall_ne_some.2 fun cut hfirst => ?_)
    have htext := take?_append (first?_eq_some hfirst).2
    rcases longest_of_first? (w := w) hfirst with
      hlongest | ⟨digits, d, more, -, htaken, hrest, hlongest, -⟩
    · exact hnone _ hlongest.mem_table _ _ htext hlongest.reads
    · refine hnone _ hlongest.mem_table _ _ ?_ hlongest.reads
      rw [← htext, htaken, hrest, List.append_assoc, List.singleton_append]
  | @token p q taken rest kind value r hlongest htoken _ ih =>
    rcases hlongest.first? with hfirst | ⟨c, more, rfl, rfl, hword, hfirst, hstuck⟩
    · rw [scan_of_first? hfirst, ih, htoken]
      cases r <;> rfl
    · -- The lexer takes the `u` with the digits, the other one as a word; both stop behind it.
      have hu : first? ('u' :: c :: more) = some (.word, ['u'], c :: more) := by
        have hstart : isWordStart 'u' = true := by decide
        simp [first?, table, take?, hstart, hword]
      rw [scan_of_first? hu, scan_of_first?_eq_none hstuck, ← Position.pastAll_append] at ih
      rw [scan_of_first? hfirst, scan_of_first?_eq_none hstuck, ← ih]
      rfl
  | @skip p q taken rest r hlongest htoken _ ih =>
    rcases hlongest.first? with hfirst | ⟨c, more, rfl, rfl, -⟩
    · rw [scan_of_first? hfirst, ih, htoken]
      cases r <;> rfl
    · simp only [Pattern.token?] at htoken
      split_ifs at htoken

/-- Taking longest matches comes to an end. -/
theorem exists_munches (w : WordClass) (p : Position) (text : List Char) :
    ∃ r, Munches w p text r := by
  induction hn : text.length using Nat.strongRecOn generalizing p text with
  | ind n ih =>
    subst hn
    have hstep : ∀ {q : Pattern} {taken rest : List Char}, taken ++ rest = text →
        q.Longest w taken rest → ∃ r, Munches w p text r := by
      rintro q taken rest rfl hlongest
      obtain ⟨c, more, rfl, -⟩ := hlongest.reads.begins hlongest.mem_table
      have hlt : rest.length < (c :: more ++ rest).length := by
        rw [List.length_append, List.length_cons]
        omega
      obtain ⟨r, hr⟩ := ih rest.length hlt (p.pastAll (c :: more)) rest rfl
      cases htoken : q.token? (c :: more) with
      | none => exact ⟨_, .skip hlongest htoken hr⟩
      | some token => exact ⟨_, .token hlongest htoken hr⟩
    cases text with
    | nil => exact ⟨_, .eof⟩
    | cons c text =>
      cases hfirst : first? (c :: text) with
      | none => exact ⟨_, .stuck fun q hq _ _ => not_reads_of_first?_eq_none hfirst hq⟩
      | some cut =>
        obtain ⟨q, taken, rest⟩ := cut
        have htext := take?_append (first?_eq_some hfirst).2
        rcases longest_of_first? (w := w) hfirst with
          hlongest | ⟨digits, d, more, -, rfl, rfl, hlongest, -⟩
        · exact hstep htext hlongest
        · rw [List.append_assoc, List.singleton_append] at htext
          exact hstep htext hlongest

theorem scan_eq_iff_munches : scan p text = r ↔ Munches w p text r := by
  refine ⟨fun h => ?_, Munches.scan_eq⟩
  obtain ⟨r', hr⟩ := exists_munches w p text
  rw [← h, hr.scan_eq]
  exact hr

/-- Wherever the lexer stands, the first pattern of the table that matches takes at least as much as
any other pattern matches there; and it makes of a source what is made by longest matches, whatever
characters outside ASCII are parts of words. -/
theorem tokenize_munches (w : WordClass) (source file : String) :
    (∀ text p taken rest, first? text = some (p, taken, rest) →
      taken ++ rest = text ∧ p.Longest .ofAscii taken rest) ∧
    ∀ r, tokenize source file = r ↔ Munches w (.origin file) source.toList r := by
  refine ⟨fun text p taken rest h => ?_, fun r => scan_eq_iff_munches⟩
  obtain ⟨hp, htake⟩ := first?_eq_some h
  have htext := take?_append htake
  exact ⟨htext, hp, take?_reads htake, fun hq htext' hreads =>
    (first?_longest h hq hreads (htext'.trans htext)).1⟩

end Token

end Frontend
