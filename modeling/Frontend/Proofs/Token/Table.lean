import Frontend.Proofs.Token.Reads

/-!
# Patterns that match at one place

A match begins with one of the characters that its pattern `begins` with, and with the `opening`
of the pattern. Along the table, two patterns begin with a common character only if the later one is
a fixed spelling that does not go on from the opening of the earlier one (`Precedes`). So of two
patterns that match at one place the earlier one has the longer match (`Precedes.length_lt`), and
the first pattern that matches takes more than any other does (`first?_longest`).
-/

namespace Frontend.Pattern

open Text

/-- The characters that a match of a pattern begins with. -/
def begins : Pattern → Char → Bool
  | .word, c => isWordStart c
  | .number, c => c.isDigit
  | .blank, c => isBlank c
  | .string, c => c = '\x22'
  | .char, c => c = '\x27'
  | .comment, c => c = '/'
  | .symbol _ spelling, c => spelling.toList.head? = some c

/-- The text that every match of a pattern begins with. -/
def opening : Pattern → List Char
  | .word | .number | .blank => []
  | .string => ['\x22']
  | .char => ['\x27']
  | .comment => ['/', '/']
  | .symbol _ spelling => spelling.toList

/-- Whether a pattern matches nothing but one spelling. -/
def isSymbol : Pattern → Bool
  | .symbol _ _ => true
  | .word | .number | .blank | .string | .char | .comment => false

/-- The patterns of the table with first characters of their own. -/
def classes : List Pattern := table.take 5

/-- The other patterns of the table, which begin with a fixed spelling. -/
def spelled : List Pattern := table.drop 5

/-- Where both patterns could begin, the second is a fixed spelling, which does not go on from the
opening of the first. -/
def Precedes (p q : Pattern) : Prop :=
  ∀ c, p.begins c = true → q.begins c = true → q.isSymbol = true ∧ ¬ p.opening <+: q.opening

variable {p q : Pattern} {c : Char} {w w' : WordClass} {text taken rest taken' rest' : List Char}

/-! ### The order of the table -/

theorem table_eq : table = classes ++ spelled := (List.take_append_drop 5 table).symm

/-- No character begins two of the classes. -/
theorem classes_pairwise :
    classes.Pairwise fun p q => ∀ c, p.begins c = true → q.begins c = false := by
  have hquote : ∀ c, isBlank c = true ∨ isWordRest c = true → c ≠ '\x22' ∧ c ≠ '\x27' := by
    refine fun c h => ⟨?_, ?_⟩ <;>
    · rintro rfl
      exact absurd h (by decide)
  have hword : ∀ c, isWordRest c = true → isBlank c = false ∧ c ≠ '\x22' ∧ c ≠ '\x27' :=
    fun c hc => ⟨(isWordRest_toNat hc).2, hquote c (.inr hc)⟩
  simp only [classes, table, List.take_succ_cons, List.take_zero, List.pairwise_cons,
    List.mem_cons, List.not_mem_nil, or_false, forall_eq_or_imp, forall_eq, begins,
    decide_eq_false_iff_not, decide_eq_true_eq]
  refine ⟨⟨fun c => isDigit_of_isWordStart, ?_⟩, ?_, ?_, by decide, fun _ h => h.elim, .nil⟩
  · have hstart := fun c hc => hword c (isWordRest_of_isWordStart hc)
    exact ⟨fun c hc => (hstart c hc).1, fun c hc => (hstart c hc).2.1,
      fun c hc => (hstart c hc).2.2⟩
  · have hdigit := fun c hc => hword c (isWordRest_of_isDigit hc)
    exact ⟨fun c hc => (hdigit c hc).1, fun c hc => (hdigit c hc).2.1,
      fun c hc => (hdigit c hc).2.2⟩
  · exact ⟨fun c hc => (hquote c (.inl hc)).1, fun c hc => (hquote c (.inl hc)).2⟩

/-- A fixed spelling begins with its first character, which begins none of the classes. -/
theorem spelled_begins (hq : q ∈ spelled) (hc : q.begins c = true) :
    q.opening.head? = some c ∧ ∀ p ∈ classes, p.begins c = false := by
  have hhead : q.opening.head? = some c := by
    cases q with
    | word | number | blank | string | char => exact absurd hq (by decide)
    | comment => exact congrArg some (of_decide_eq_true hc).symm
    | symbol kind spelling => exact of_decide_eq_true hc
  have hclasses : ∀ q ∈ spelled,
      (q.opening.head?.all fun c => classes.all (!·.begins c)) = true := by decide
  have hall := hclasses q hq
  rw [hhead, Option.all_some, List.all_eq_true] at hall
  exact ⟨hhead, fun p hp => Bool.not_eq_true' _ ▸ hall p hp⟩

/-- None of the fixed spellings goes on from one that stands in front of it. -/
theorem spelled_pairwise :
    spelled.Pairwise fun p q => q.isSymbol = true ∧ ¬ p.opening <+: q.opening := by
  decide

/-- Each pattern precedes those that are tried after it. -/
theorem table_pairwise : table.Pairwise Precedes := by
  rw [table_eq, List.pairwise_append]
  refine ⟨classes_pairwise.imp fun h c hp hq => ?_, spelled_pairwise.imp fun h _ _ _ => h,
    fun p hp q hq c hpc hqc => ?_⟩
  · rw [h c hp] at hq
    cases hq
  · rw [(spelled_begins hq hqc).2 p hp] at hpc
    cases hpc

/-- Of two patterns one precedes the other. -/
theorem precedes_or (hp : p ∈ table) (hq : q ∈ table) (hne : p ≠ q) :
    Precedes p q ∨ Precedes q p := by
  obtain ⟨earlier, later, htable⟩ := List.append_of_mem hp
  have hpairwise := table_pairwise
  rw [htable] at hq hpairwise
  obtain ⟨-, hlater, hcross⟩ := List.pairwise_append.1 hpairwise
  rcases List.mem_append.1 hq with hq | hq
  · exact .inr (hcross q hq p List.mem_cons_self)
  · rcases List.mem_cons.1 hq with rfl | hq
    · exact absurd rfl hne
    · exact .inl ((List.pairwise_cons.1 hlater).1 q hq)

/-- A class shares none of its first characters with another pattern. -/
theorem eq_of_begins (hp : p ∈ classes) (hq : q ∈ table) (hpc : p.begins c = true)
    (hqc : q.begins c = true) : p = q := by
  have hclasses : ∀ p ∈ classes, p ∈ table ∧ p.isSymbol = false := by decide
  obtain ⟨hpt, hp'⟩ := hclasses p hp
  rw [table_eq, List.mem_append] at hq
  rcases hq with hq | hq
  · obtain ⟨hqt, hq'⟩ := hclasses q hq
    by_contra hne
    rcases precedes_or hpt hqt hne with hprecedes | hprecedes
    · have hsymbol := (hprecedes c hpc hqc).1
      rw [hq'] at hsymbol
      cases hsymbol
    · have hsymbol := (hprecedes c hqc hpc).1
      rw [hp'] at hsymbol
      cases hsymbol
  · rw [(spelled_begins hq hqc).2 p hp] at hpc
    cases hpc

/-! ### What a match begins with -/

theorem Reads.opening_isPrefix (h : p.Reads w rest taken) : p.opening <+: taken := by
  cases h with
  | word | number | blank => exact List.nil_prefix
  | string | char | escape | comment => exact ⟨_, rfl⟩
  | symbol => exact List.prefix_rfl

/-- A fixed spelling is all that is matched. -/
theorem Reads.eq_opening (h : p.Reads w rest taken) (hp : p.isSymbol = true) :
    taken = p.opening := by
  cases h with
  | symbol => rfl
  | _ => cases hp

/-- A match begins with a character that its pattern begins with. -/
theorem Reads.begins (hp : p ∈ table) (h : p.Reads w rest taken) :
    ∃ c more, taken = c :: more ∧ p.begins c = true := by
  cases h with
  | word hc => exact ⟨_, _, rfl, hc⟩
  | number hne hall =>
    obtain ⟨c, more, rfl⟩ := List.exists_cons_of_ne_nil hne
    exact ⟨c, _, rfl, hall c List.mem_cons_self⟩
  | blank hne hall =>
    obtain ⟨c, more, rfl⟩ := List.exists_cons_of_ne_nil hne
    exact ⟨c, more, rfl, hall c List.mem_cons_self⟩
  | string | char | escape | comment => exact ⟨_, _, rfl, by decide⟩
  | symbol =>
    obtain ⟨c, more, hspelling⟩ := List.exists_cons_of_ne_nil (spelling_ne_nil hp)
    exact ⟨c, more, hspelling, by simp [Pattern.begins, hspelling]⟩

/-- What begins a match is a character of ASCII or white space. -/
theorem begins_ascii (hp : p ∈ table) (h : p.begins c = true) :
    c.toNat < 128 ∨ isBlank c = true := by
  cases p with
  | word => exact .inl (isWordRest_toNat (isWordRest_of_isWordStart h)).1
  | number => exact .inl (isWordRest_toNat (isWordRest_of_isDigit h)).1
  | blank => exact .inr h
  | string | char | comment =>
    obtain rfl := of_decide_eq_true h
    exact .inl (by decide)
  | symbol kind spelling =>
    have htable : ∀ q ∈ table, (q.opening.head?.all (·.toNat < 128)) = true := by decide
    have hall := htable _ hp
    rw [opening, of_decide_eq_true h, Option.all_some] at hall
    exact .inl (of_decide_eq_true hall)

/-- Where two patterns match, the opening of the one that precedes the other goes on from what the
other matches. -/
theorem Precedes.exists_opening (hprecedes : Precedes p q) (hp : p ∈ table) (hq : q ∈ table)
    (h : p.Reads w rest taken) (h' : q.Reads w' rest' taken')
    (htext : taken ++ rest = taken' ++ rest') : ∃ c more, p.opening = taken' ++ c :: more := by
  obtain ⟨c, more, hc, hpc⟩ := h.begins hp
  obtain ⟨d, more', hd, hqd⟩ := h'.begins hq
  obtain rfl : c = d := by
    rw [hc, hd, List.cons_append, List.cons_append] at htext
    exact (List.cons.inj htext).1
  obtain ⟨hsymbol, hnot⟩ := hprecedes c hpc hqd
  rw [h'.eq_opening hsymbol] at htext ⊢
  -- Both openings begin the text, so the second is a proper part of the first.
  have hprefix : p.opening <+: q.opening ++ rest' := htext ▸ h.opening_isPrefix.trans ⟨rest, rfl⟩
  rcases List.prefix_or_prefix_of_prefix hprefix ⟨rest', rfl⟩ with hle | ⟨behind, hbehind⟩
  · exact absurd hle hnot
  · cases behind with
    | nil => exact absurd ⟨[], by rw [← hbehind, List.append_nil, List.append_nil]⟩ hnot
    | cons e behind => exact ⟨e, behind, hbehind.symm⟩

/-- Where two patterns match, the one that precedes the other has the longer match. -/
theorem Precedes.length_lt (hprecedes : Precedes p q) (hp : p ∈ table) (hq : q ∈ table)
    (h : p.Reads w rest taken) (h' : q.Reads w' rest' taken')
    (htext : taken ++ rest = taken' ++ rest') : taken'.length < taken.length := by
  obtain ⟨c, more, hopening⟩ := hprecedes.exists_opening hp hq h h' htext
  have hle := h.opening_isPrefix.length_le
  rw [hopening, List.length_append, List.length_cons] at hle
  omega

/-- The same text is a match of one pattern only. -/
theorem Reads.unique (hp : p ∈ table) (hq : q ∈ table) (h : p.Reads w rest taken)
    (h' : q.Reads w' rest taken) : p = q := by
  by_contra hne
  rcases precedes_or hp hq hne with hprecedes | hprecedes
  · exact absurd (hprecedes.length_lt hp hq h h' rfl) (Nat.lt_irrefl _)
  · exact absurd (hprecedes.length_lt hq hp h' h rfl) (Nat.lt_irrefl _)

/-! ### The first match -/

/-- The first pattern that matches has a longer match than any other pattern, and no pattern matches
more than it takes. -/
theorem first?_longest (h : first? text = some (p, taken, rest)) (hq : q ∈ table)
    (hreads : q.Reads w rest' taken') (htext : taken' ++ rest' = text) :
    taken'.length ≤ taken.length ∧ (q ≠ p → taken'.length < taken.length) := by
  obtain ⟨taken₁, rest₁, hmatch, hlength⟩ := hreads.exists_take?
  rw [htext] at hmatch
  obtain ⟨earlier, p', later, htable, hp, hearlier⟩ := List.findSome?_eq_some_iff.1 h
  obtain ⟨⟨_, _⟩, htake, heq⟩ := Option.map_eq_some_iff.mp hp
  cases heq
  have hpt : p ∈ table := (first?_eq_some h).1
  have hcases := hq
  rw [htable] at hcases
  rcases List.mem_append.1 hcases with hcases | hcases
  · have hnone := hearlier q hcases
    rw [hmatch] at hnone
    cases hnone
  rcases List.mem_cons.1 hcases with rfl | hlater
  · rw [htake] at hmatch
    cases hmatch
    exact ⟨hlength, fun hne => absurd rfl hne⟩
  · have hpairwise := table_pairwise
    rw [htable] at hpairwise
    have hprecedes := (List.pairwise_cons.1 (List.pairwise_append.1 hpairwise).2.1).1 q hlater
    have hlt := hprecedes.length_lt hpt hq (take?_reads htake) hreads
      ((take?_append htake).trans htext.symm)
    exact ⟨Nat.le_of_lt hlt, fun _ => hlt⟩

/-- Where no pattern takes anything, none matches. -/
theorem not_reads_of_first?_eq_none (h : first? text = none) (hq : q ∈ table)
    (htext : taken ++ rest = text) : ¬ q.Reads w rest taken := by
  intro hreads
  obtain ⟨taken', rest', hmatch, -⟩ := hreads.exists_take?
  rw [htext] at hmatch
  have hnone := Option.map_eq_none_iff.1 (List.findSome?_eq_none_iff.1 h q hq)
  rw [hmatch] at hnone
  cases hnone

/-- Where a class matches, no pattern matches before it. -/
theorem first?_of_mem_classes (hp : p ∈ classes) (h : p.take? text = some (taken, rest)) :
    first? text = some (p, taken, rest) := by
  have hpt : p ∈ table := table_eq ▸ List.mem_append_left _ hp
  have htext := take?_append h
  cases hfirst : first? text with
  | none => exact absurd (take?_reads h) (not_reads_of_first?_eq_none hfirst hpt htext)
  | some cut =>
    obtain ⟨q, taken', rest'⟩ := cut
    obtain ⟨hq, h'⟩ := first?_eq_some hfirst
    obtain ⟨c, more, hc, hpc⟩ := (take?_reads h).begins hpt
    obtain ⟨d, others, hd, hqd⟩ := (take?_reads h').begins hq
    obtain rfl : c = d := by
      rw [← take?_append h', hc, hd] at htext
      exact (List.cons.inj htext).1
    obtain rfl := eq_of_begins hp hq hpc hqd
    rw [h] at h'
    cases h'
    rfl

/-- A match is the first one in front of a character that is in no opening: no pattern goes on into
what follows. -/
theorem first?_of_take? (hp : p ∈ table) (h : p.take? (taken ++ rest) = some (taken, rest))
    (hrest : ∀ c ∈ rest.head?, ∀ q ∈ table, c ∉ q.opening) :
    first? (taken ++ rest) = some (p, taken, rest) := by
  have hreads := take?_reads h
  cases hfirst : first? (taken ++ rest) with
  | none => exact absurd hreads (not_reads_of_first?_eq_none hfirst hp rfl)
  | some cut =>
    obtain ⟨q, taken', rest'⟩ := cut
    obtain ⟨hq, h'⟩ := first?_eq_some hfirst
    have htext := take?_append h'
    by_cases hne : q = p
    · subst hne
      rw [h] at h'
      cases h'
      rfl
    have hlonger := (first?_longest hfirst hp hreads rfl).2 (Ne.symm hne)
    rcases precedes_or hq hp hne with hprecedes | hprecedes
    · -- The opening of `q` goes on into what follows, where no opening holds the first character.
      obtain ⟨c, more, hopening⟩ := hprecedes.exists_opening hq hp (take?_reads h') hreads htext
      obtain ⟨behind, hbehind⟩ := (take?_reads h').opening_isPrefix
      rw [← hbehind, hopening, List.append_assoc, List.append_assoc, List.append_cancel_left_eq]
        at htext
      exact absurd (by simp [hopening]) (hrest c (by rw [← htext]; rfl) q hq)
    · exact absurd (hprecedes.length_lt hp hq hreads (take?_reads h') htext.symm) (by omega)

/-- White space is taken up to where it ends. -/
theorem first?_blank (hne : taken ≠ []) (hblank : ∀ c ∈ taken, isBlank c = true)
    (hrest : ∀ c ∈ rest.head?, isBlank c = false) :
    first? (taken ++ rest) = some (.blank, taken, rest) :=
  first?_of_mem_classes (by decide)
    (takeRun?_append_eq_some_iff.2 ⟨hne, takeWhile_append_eq_left_iff.2 ⟨hblank, hrest⟩⟩)

end Frontend.Pattern
