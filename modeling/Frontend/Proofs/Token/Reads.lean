import Frontend.Proofs.Token.Prefix

/-!
# What patterns match

`Reads` says which texts a pattern matches, without saying how a match is found: runs may stop
early, and the `u` behind a number asks for the end of a word. What ends a word outside ASCII is
left open (`WordClass`). What `take?` finds is a match (`take?_reads`), and there is no longer one
(`Reads.exists_take?`).
-/

namespace Frontend.Pattern

open Text

variable {c : Char} {p : Pattern} {quote : Char} {text taken rest run body : List Char}

/-! ### Classes of characters -/

theorem isAlpha_toNat (h : c.isAlpha = true) :
    65 ≤ c.toNat ∧ c.toNat ≤ 90 ∨ 97 ≤ c.toNat ∧ c.toNat ≤ 122 := by
  have hletter : (decide (c.val ≥ 65 ∧ c.val ≤ 90) ||
      (decide (c.val ≥ 97) && decide (c.val ≤ 122))) = true := h
  simp only [Bool.or_eq_true, Bool.and_eq_true, decide_eq_true_eq, ge_iff_le,
    UInt32.le_iff_toNat_le] at hletter
  exact hletter

theorem isDigit_toNat (h : c.isDigit = true) : 48 ≤ c.toNat ∧ c.toNat ≤ 57 :=
  Char.isDigit_iff_toNat.1 h

/-- What continues a word is a character of ASCII, and no white space. -/
theorem isWordRest_toNat (h : isWordRest c = true) : c.toNat < 128 ∧ isBlank c = false := by
  have hword : 97 ≤ c.toNat ∧ c.toNat ≤ 122 ∨ 65 ≤ c.toNat ∧ c.toNat ≤ 90 ∨
      48 ≤ c.toNat ∧ c.toNat ≤ 57 ∨ c.toNat = 95 := by
    simp only [isWordRest, Char.isAlphanum, Bool.or_eq_true, decide_eq_true_eq] at h
    rcases h with (h | h) | rfl
    · have := isAlpha_toNat h
      omega
    · exact .inr (.inr (.inl (isDigit_toNat h)))
    · exact .inr (.inr (.inr rfl))
  refine ⟨by omega, ?_⟩
  simp only [isBlank, inRanges, blankRanges, List.any_cons, List.any_nil, Bool.or_false,
    Bool.or_eq_false_iff, Bool.and_eq_false_iff, decide_eq_false_iff_not]
  omega

theorem isWordRest_of_isBlank (h : isBlank c = true) : isWordRest c = false := by
  by_contra hword
  rw [(isWordRest_toNat (Bool.not_eq_false _ ▸ hword)).2] at h
  cases h

theorem isWordRest_of_isWordStart (h : isWordStart c = true) : isWordRest c = true := by
  simp only [isWordStart, Bool.or_eq_true] at h
  simp only [isWordRest, Char.isAlphanum, Bool.or_eq_true]
  exact h.imp .inl id

theorem isWordRest_of_isDigit (h : c.isDigit = true) : isWordRest c = true := by
  simp [isWordRest, Char.isAlphanum, h]

theorem isDigit_of_isWordStart (h : isWordStart c = true) : c.isDigit = false := by
  by_contra hdigit
  have hrange := isDigit_toNat (Bool.not_eq_false _ ▸ hdigit)
  simp only [isWordStart, Bool.or_eq_true, decide_eq_true_eq] at h
  rcases h with h | rfl
  · have := isAlpha_toNat h
    omega
  · exact absurd hrange (by decide)

/-- The characters that count as part of a word where the end of one is asked for. In ASCII they are
those that continue a word, and white space is never one of them. -/
structure WordClass where
  holds : Char → Bool
  ascii : ∀ c : Char, c.toNat < 128 → holds c = isWordRest c
  blank : ∀ c : Char, isBlank c = true → holds c = false

/-- No characters outside ASCII are parts of words. -/
def WordClass.ofAscii : WordClass where
  holds := isWordRest
  ascii _ _ := rfl
  blank _ h := isWordRest_of_isBlank h

variable {w : WordClass}

/-- A character that ends a word continues none. -/
theorem WordClass.isWordRest (h : w.holds c = false) : isWordRest c = false := by
  by_contra hword
  have hword : Pattern.isWordRest c = true := Bool.not_eq_false _ ▸ hword
  rw [w.ascii c (isWordRest_toNat hword).1, hword] at h
  cases h

/-! ### Matches -/

/-- What may stand between two quotes: characters other than the quote and the backslash, and
backslashes with any character behind them but a line feed. -/
inductive Enclosed (quote : Char) : List Char → Prop
  | nil : Enclosed quote []
  | plain {c : Char} {text : List Char} : c ≠ quote → c ≠ '\\' → Enclosed quote text →
    Enclosed quote (c :: text)
  | escape {c : Char} {text : List Char} : c ≠ '\n' → Enclosed quote text →
    Enclosed quote ('\\' :: c :: text)

/-- What may stand between the digits of a number and `rest`. -/
inductive Tail (w : WordClass) (rest : List Char) : List Char → Prop
  | none : Tail w rest []
  | fraction {digits : List Char} : digits ≠ [] → (∀ c ∈ digits, c.isDigit = true) →
    Tail w rest ('.' :: digits)
  | unsigned : (∀ c ∈ rest.head?, w.holds c = false) → Tail w rest ['u']

/-- The texts that a pattern matches in front of `rest`. -/
inductive Reads (w : WordClass) (rest : List Char) : Pattern → List Char → Prop
  | word {c : Char} {run : List Char} : isWordStart c = true → (∀ c ∈ run, isWordRest c = true) →
    Reads w rest .word (c :: run)
  | number {digits tail : List Char} : digits ≠ [] → (∀ c ∈ digits, c.isDigit = true) →
    Tail w rest tail → Reads w rest .number (digits ++ tail)
  | blank {run : List Char} : run ≠ [] → (∀ c ∈ run, isBlank c = true) → Reads w rest .blank run
  | string {body : List Char} : Enclosed '\x22' body →
    Reads w rest .string ('\x22' :: (body ++ ['\x22']))
  | char {c : Char} : c ≠ '\\' → c ≠ '\x27' → Reads w rest .char ['\x27', c, '\x27']
  | escape {c : Char} : c ≠ '\n' → Reads w rest .char ['\x27', '\\', c, '\x27']
  | comment {body : List Char} : '\n' ∉ body → Reads w rest .comment ('/' :: '/' :: body)
  | symbol {kind : TokenKind} {spelling : String} :
    Reads w rest (.symbol kind spelling) spelling.toList

/-! ### What is taken is a match -/

theorem takeRun?_reads {f : Char → Bool} (h : takeRun? f text = some (run, rest)) :
    run ≠ [] ∧ ∀ c ∈ run, f c = true := by
  obtain ⟨hne, htext⟩ := takeRun?_eq_some h
  rw [← htext] at h
  exact ⟨hne, (takeWhile_append_eq_left_iff.1 (takeRun?_append_eq_some_iff.1 h).2).1⟩

theorem numberTail_reads : Tail .ofAscii (numberTail text).2 (numberTail text).1 := by
  unfold numberTail
  split
  · split
    · rename_i hrun
      obtain ⟨hne, hdigits⟩ := takeRun?_reads hrun
      exact .fraction hne hdigits
    · exact .none
  · rename_i rest
    split
    · exact .none
    · rename_i hword
      refine .unsigned fun c hc => ?_
      cases rest with
      | nil => cases hc
      | cons d rest =>
        obtain rfl : d = c := Option.some.inj hc
        exact Bool.not_eq_true _ ▸ hword
  · exact .none

/-- What closes behind a quote is enclosed by it. -/
theorem takeClosed?_enclosed (h : takeClosed? quote text = some (body, rest)) :
    ∃ inner, body = inner ++ [quote] ∧ Enclosed quote inner := by
  fun_induction takeClosed? quote text generalizing body rest with
  | case1 | case3 | case5 => cases h
  | case2 | case4 =>
    cases h
    exact ⟨[], rfl, .nil⟩
  | case6 d rest' hfeed hquote ih =>
    obtain ⟨⟨_, _⟩, hbody, heq⟩ := Option.map_eq_some_iff.mp h
    cases heq
    obtain ⟨inner, rfl, hinner⟩ := ih hbody
    exact ⟨'\\' :: d :: inner, rfl, .escape hfeed hinner⟩
  | case7 c d rest' hquote hslash ih =>
    obtain ⟨⟨_, _⟩, hbody, heq⟩ := Option.map_eq_some_iff.mp h
    cases heq
    obtain ⟨inner, rfl, hinner⟩ := ih hbody
    exact ⟨c :: inner, rfl, .plain hquote hslash hinner⟩

/-- What a pattern takes is a match of it, where only the characters of ASCII make words. -/
theorem take?_reads (h : p.take? text = some (taken, rest)) : p.Reads .ofAscii rest taken := by
  cases p with
  | word =>
    cases text with
    | nil => cases h
    | cons c text =>
      simp only [take?, Option.ite_none_right_eq_some, Option.some.injEq, Prod.mk.injEq] at h
      obtain ⟨hc, rfl, -⟩ := h
      have htake : (text.takeWhile isWordRest ++ text.dropWhile isWordRest).takeWhile isWordRest =
          text.takeWhile isWordRest := by rw [List.takeWhile_append_dropWhile]
      exact .word hc (takeWhile_append_eq_left_iff.1 htake).1
  | number =>
    obtain ⟨⟨digits, tail⟩, hdigits, heq⟩ := Option.map_eq_some_iff.mp h
    obtain ⟨hne, hall⟩ := takeRun?_reads hdigits
    cases heq
    exact .number hne hall numberTail_reads
  | blank =>
    obtain ⟨hne, hall⟩ := takeRun?_reads h
    exact .blank hne hall
  | string =>
    simp only [take?] at h
    split at h
    · obtain ⟨⟨body, after⟩, hbody, heq⟩ := Option.map_eq_some_iff.mp h
      cases heq
      obtain ⟨inner, rfl, hinner⟩ := takeClosed?_enclosed hbody
      exact .string hinner
    · cases h
  | char =>
    simp only [take?] at h
    split at h
    · obtain ⟨⟨body, after⟩, hbody, heq⟩ := Option.map_eq_some_iff.mp h
      cases heq
      obtain ⟨-, ⟨c, hc, rfl⟩ | ⟨c, hc, rfl⟩⟩ := takeCharClosed?_eq_some_iff.mp hbody
      · exact .escape hc
      · exact .char hc.1 hc.2
    · cases h
  | comment =>
    obtain ⟨body, rfl, -, hrun⟩ := take?_comment h
    have hall := (takeWhile_append_eq_left_iff.1 hrun).1
    exact .comment fun hfeed => by simpa using hall _ hfeed
  | symbol kind spelling =>
    obtain ⟨_, -, heq⟩ := Option.map_eq_some_iff.mp h
    cases heq
    exact .symbol

@[simp] theorem inner_quoted (quote : Char) (text : List Char) :
    inner (quote :: (text ++ [quote])) = text := by
  simp [inner]

/-- The quote that opens a literal is the one that closes it. -/
theorem take?_eq_quoted (hp : p = .string ∧ quote = '\x22' ∨ p = .char ∧ quote = '\x27')
    (h : p.take? text = some (taken, rest)) : taken = quote :: (inner taken ++ [quote]) := by
  have hreads := take?_reads h
  obtain ⟨rfl, rfl⟩ | ⟨rfl, rfl⟩ := hp
  · cases hreads with
    | string => rw [inner_quoted]
  · cases hreads <;> rfl

/-- A string or a character is taken with the quotes around it: two different characters of the
text, of one byte each. -/
theorem take?_quoted (hp : p = .string ∨ p = .char) (h : p.take? text = some (taken, rest)) :
    ∃ quote, quote.utf8Size = 1 ∧ taken = quote :: (inner taken ++ [quote]) := by
  rcases hp with rfl | rfl
  · exact ⟨_, by decide, take?_eq_quoted (.inl ⟨rfl, rfl⟩) h⟩
  · exact ⟨_, by decide, take?_eq_quoted (.inr ⟨rfl, rfl⟩) h⟩

/-! ### No match is longer than what is taken -/

theorem length_le_takeWhile {f : Char → Bool} (h : ∀ c ∈ run, f c = true) (rest : List Char) :
    run.length ≤ ((run ++ rest).takeWhile f).length := by
  rw [List.takeWhile_append_of_pos h, List.length_append]
  exact Nat.le_add_right _ _

theorem exists_takeRun? {f : Char → Bool} (hne : run ≠ []) (h : ∀ c ∈ run, f c = true)
    (rest : List Char) : ∃ run' rest', takeRun? f (run ++ rest) = some (run', rest') ∧
      run.length ≤ run'.length := by
  have hlength := length_le_takeWhile h rest
  unfold takeRun?
  split
  · rename_i hnil
    rw [hnil, List.length_nil, Nat.le_zero, List.length_eq_zero_iff] at hlength
    exact absurd hlength hne
  · exact ⟨_, _, rfl, hlength⟩

theorem Tail.length_le (h : Tail w rest taken) :
    taken.length ≤ (numberTail (taken ++ rest)).1.length := by
  cases h with
  | none => exact Nat.zero_le _
  | @fraction digits hne hall =>
    obtain ⟨c, more, rfl⟩ := List.exists_cons_of_ne_nil hne
    have hrun := length_le_takeWhile hall rest
    rw [List.forall_mem_cons] at hall
    simp only [List.cons_append, List.takeWhile_cons, hall.1, if_true] at hrun
    simp only [List.cons_append, numberTail, takeRun?, List.takeWhile_cons, hall.1, if_true,
      List.length_cons] at hrun ⊢
    omega
  | unsigned hends =>
    have hhead : (rest.head?.any isWordRest) = false := by
      cases rest with
      | nil => rfl
      | cons c rest => exact WordClass.isWordRest (hends c rfl)
    simp [numberTail, hhead]

theorem Enclosed.takeClosed? (h : Enclosed quote body) (hquote : quote ≠ '\\') (rest : List Char) :
    takeClosed? quote (body ++ quote :: rest) = some (body ++ [quote], rest) := by
  induction h with
  | nil => cases rest <;> simp [Pattern.takeClosed?]
  | @plain c text hc hslash _ ih =>
    cases htext : text ++ quote :: rest with
    | nil => cases text <;> cases htext
    | cons d more =>
      rw [htext] at ih
      simp [htext, Pattern.takeClosed?, hc, hslash, ih]
  | @escape c text hfeed _ ih =>
    simp [Pattern.takeClosed?, hquote.symm, hfeed, ih]

/-- Strings, characters and fixed spellings end by themselves: they are taken whatever follows. -/
theorem Reads.take?_closed (h : p.Reads w rest taken) (hp : p ∉ [.word, .number, .blank, .comment])
    (rest' : List Char) : p.take? (taken ++ rest') = some (taken, rest') := by
  cases h with
  | word | number | blank | comment => exact absurd hp (by decide)
  | string hbody => simp [take?, hbody.takeClosed? (by decide) rest']
  | @char c hslash hquote =>
    have hbody : takeCharClosed? ([c, '\x27'] ++ rest') = some ([c, '\x27'], rest') :=
      takeCharClosed?_eq_some_iff.mpr ⟨rfl, .inr ⟨c, ⟨hslash, hquote⟩, rfl⟩⟩
    exact Option.map_eq_some_iff.mpr ⟨_, hbody, rfl⟩
  | @escape c hfeed =>
    have hbody : takeCharClosed? (['\\', c, '\x27'] ++ rest') = some (['\\', c, '\x27'], rest') :=
      takeCharClosed?_eq_some_iff.mpr ⟨rfl, .inl ⟨c, hfeed, rfl⟩⟩
    exact Option.map_eq_some_iff.mpr ⟨_, hbody, rfl⟩
  | symbol => exact Option.map_eq_some_iff.mpr ⟨rest', dropSpelling?_eq_some_iff.mpr rfl, rfl⟩

/-- Where a text is a match of a pattern, the pattern takes at least that text. -/
theorem Reads.exists_take? (h : p.Reads w rest taken) :
    ∃ taken' rest', p.take? (taken ++ rest) = some (taken', rest') ∧
      taken.length ≤ taken'.length := by
  by_cases hends : p ∈ [.word, .number, .blank, .comment]
  case neg => exact ⟨taken, rest, h.take?_closed hends rest, Nat.le_refl _⟩
  cases h with
  | @word c run hc hrun =>
    refine ⟨_, _, by rw [List.cons_append]; exact if_pos hc, ?_⟩
    exact Nat.succ_le_succ (length_le_takeWhile hrun rest)
  | @number digits tail hne hall htail =>
    have hdigits : ∃ run after, takeRun? Char.isDigit (digits ++ (tail ++ rest)) =
        some (run, after) ∧ (digits ++ tail).length ≤ (run ++ (numberTail after).1).length := by
      have htaken := htail.length_le
      cases htail with
      | none =>
        obtain ⟨run, after, hrun, hlength⟩ := exists_takeRun? hne hall rest
        refine ⟨run, after, hrun, ?_⟩
        rw [List.append_nil, List.length_append]
        omega
      | fraction | unsigned =>
        refine ⟨digits, _, takeRun?_append_eq_some_iff.2 ⟨hne, ?_⟩, ?_⟩
        · refine takeWhile_append_eq_left_iff.2 ⟨hall, ?_⟩
          rintro _ ⟨⟩
          decide
        · rw [List.length_append, List.length_append]
          exact Nat.add_le_add_left htaken _
    obtain ⟨run, after, hrun, hlength⟩ := hdigits
    refine ⟨run ++ (numberTail after).1, (numberTail after).2, ?_, hlength⟩
    rw [List.append_assoc, take?, hrun]
    rfl
  | @blank run hne hall => exact exists_takeRun? hne hall rest
  | @comment body hfeed =>
    refine ⟨_, _, rfl, ?_⟩
    have hbody : ∀ c ∈ body, decide (c ≠ '\n') = true :=
      fun c hc => decide_eq_true fun heq => hfeed (heq ▸ hc)
    exact Nat.succ_le_succ (Nat.succ_le_succ (length_le_takeWhile hbody rest))
  | string | char | escape | symbol => exact absurd hends (by simp)

end Frontend.Pattern
