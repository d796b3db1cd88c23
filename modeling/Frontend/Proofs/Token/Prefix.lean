import Mathlib.Tactic.ByContra
import Frontend.Token.Pattern

/-!
# Matching the beginning of a text

Where no pattern matches, the text in front of that place can be cut off: the first pattern that
matches there and what it takes stay the same (`first?_front`). Patterns look at the character
behind what they take only to see that it continues no word and no number.
-/

namespace Frontend.Pattern

variable {p : Char → Bool} {run front back text taken rest more body : List Char}

/-- A run is the longest one exactly if nothing that belongs to it follows. -/
theorem takeWhile_append_eq_left_iff : (run ++ rest).takeWhile p = run ↔
    (∀ c ∈ run, p c = true) ∧ ∀ c ∈ rest.head?, p c = false := by
  induction run with
  | nil => cases rest <;> simp [List.takeWhile_cons]
  | cons c run ih => by_cases hc : p c = true <;> simp [hc, ih]

theorem dropWhile_of_takeWhile (h : (run ++ rest).takeWhile p = run) :
    (run ++ rest).dropWhile p = rest := by
  have hall := List.takeWhile_append_dropWhile (p := p) (l := run ++ rest)
  rw [h] at hall
  exact List.append_cancel_left hall

/-- A longest run stays one when text is cut off behind it. -/
theorem takeWhile_front (h : (run ++ (front ++ back)).takeWhile p = run) :
    (run ++ front).takeWhile p = run := by
  obtain ⟨hall, hstop⟩ := takeWhile_append_eq_left_iff.1 h
  refine takeWhile_append_eq_left_iff.2 ⟨hall, fun c hc => hstop c ?_⟩
  rw [List.head?_append, hc]
  rfl

theorem takeRun?_append_eq_some_iff : takeRun? p (run ++ rest) = some (run, rest) ↔
    run ≠ [] ∧ (run ++ rest).takeWhile p = run := by
  constructor
  · intro h
    refine ⟨(takeRun?_eq_some h).1, ?_⟩
    unfold takeRun? at h
    split at h
    · cases h
    · exact (Prod.mk.inj (Option.some.inj h)).1
  · rintro ⟨hne, htake⟩
    unfold takeRun?
    split
    · rename_i hnil
      exact absurd (htake.symm.trans hnil) hne
    · rw [htake, dropWhile_of_takeWhile htake]

theorem takeRun?_front (h : takeRun? p (run ++ (front ++ back)) = some (run, front ++ back)) :
    takeRun? p (run ++ front) = some (run, front) := by
  obtain ⟨hne, htake⟩ := takeRun?_append_eq_some_iff.1 h
  exact takeRun?_append_eq_some_iff.2 ⟨hne, takeWhile_front htake⟩

theorem takeRun?_eq_none_iff :
    takeRun? p text = none ↔ ∀ c ∈ text.head?, p c = false := by
  cases text with
  | nil => simp [takeRun?]
  | cons c text => by_cases hc : p c = true <;> simp [takeRun?, hc]

theorem takeRun?_eq_none_front (h : takeRun? p (front ++ back) = none) :
    takeRun? p front = none := by
  rw [takeRun?_eq_none_iff] at h ⊢
  intro c hc
  exact h c (by rw [List.head?_append, hc]; rfl)

/-- What follows the digits of a number is found again when text is cut off behind it, unless
the cut is inside a word. -/
theorem numberTail_front {c : Char} (hc : isWordRest c = false)
    (h : numberTail (taken ++ (front ++ c :: back)) = (taken, front ++ c :: back)) :
    numberTail (taken ++ front) = (taken, front) := by
  generalize hmid : taken ++ (front ++ c :: back) = mid at h
  unfold numberTail at h
  split at h
  · rename_i digits
    split at h
    · rename_i run rest hrun
      cases h
      rw [List.cons_append, List.cons.injEq] at hmid
      rw [← hmid.2] at hrun
      simp [numberTail, takeRun?_front hrun]
    · rename_i hrun
      obtain ⟨rfl, hmid⟩ := Prod.mk.inj h
      cases front with
      | nil => rfl
      | cons d front =>
        obtain ⟨rfl, rfl⟩ := List.cons.inj hmid
        simp [numberTail, takeRun?_eq_none_front hrun]
  · rename_i rest
    split at h
    · rename_i hword
      obtain ⟨rfl, hmid⟩ := Prod.mk.inj h
      cases front with
      | nil => rfl
      | cons d front =>
        obtain ⟨rfl, rfl⟩ := List.cons.inj hmid
        cases front with
        | nil => simp [hc] at hword
        | cons d front =>
          have hd : isWordRest d = true := hword
          simp [numberTail, hd]
    · rename_i hword
      cases h
      have hfront : (front.head?.any isWordRest) = false := by
        cases front with
        | nil => rfl
        | cons d front => simpa using hword
      simp [numberTail, hfront]
  · rename_i hdot hu
    obtain ⟨rfl, hmid⟩ := Prod.mk.inj h
    cases front with
    | nil => rfl
    | cons d front =>
      subst hmid
      unfold numberTail
      split
      · rename_i heq
        obtain ⟨rfl, rfl⟩ := List.cons.inj heq
        exact absurd rfl (hdot _)
      · rename_i heq
        obtain ⟨rfl, rfl⟩ := List.cons.inj heq
        exact absurd rfl (hu _)
      · rfl

/-- What a quote closes does not depend on the text behind it. -/
theorem takeClosed?_append_of_eq_some {quote : Char}
    (h : takeClosed? quote text = some (body, rest)) :
    takeClosed? quote (text ++ more) = some (body, rest ++ more) := by
  fun_induction takeClosed? quote text generalizing body rest with
  | case1 | case3 | case5 => cases h
  | case2 =>
    cases h
    cases more <;> simp [takeClosed?]
  | case4 =>
    cases h
    simp [takeClosed?]
  | case6 d rest' hq hd ih =>
    obtain ⟨⟨b, r⟩, hb, heq⟩ := Option.map_eq_some_iff.mp h
    cases heq
    simp [takeClosed?, hq, hd, ih hb]
  | case7 c d rest' hq hc ih =>
    obtain ⟨⟨b, r⟩, hb, heq⟩ := Option.map_eq_some_iff.mp h
    cases heq
    have hmore := ih hb
    rw [List.cons_append] at hmore
    simp [takeClosed?, hq, hc, hmore]

theorem takeClosed?_self {quote : Char} (h : takeClosed? quote text = some (body, rest)) :
    takeClosed? quote body = some (body, []) := by
  fun_induction takeClosed? quote text generalizing body rest with
  | case1 | case3 | case5 => cases h
  | case2 | case4 =>
    cases h
    simp [takeClosed?]
  | case6 d rest' hq hd ih =>
    obtain ⟨⟨b, r⟩, hb, heq⟩ := Option.map_eq_some_iff.mp h
    cases heq
    simp [takeClosed?, hq, hd, ih hb]
  | case7 c d rest' hq hc ih =>
    obtain ⟨⟨b, r⟩, hb, heq⟩ := Option.map_eq_some_iff.mp h
    cases heq
    have hself := ih hb
    have hne : b ≠ [] := by
      rintro rfl
      simp [takeClosed?] at hself
    obtain ⟨e, b, rfl⟩ := List.exists_cons_of_ne_nil hne
    simp [takeClosed?, hq, hc, hself]

theorem takeCharClosed?_eq_some_iff : takeCharClosed? text = some (body, rest) ↔
    text = body ++ rest ∧ ((∃ c, c ≠ '\n' ∧ body = ['\\', c, '\x27']) ∨
      ∃ c, (c ≠ '\\' ∧ c ≠ '\x27') ∧ body = [c, '\x27']) := by
  constructor
  · intro h
    refine ⟨(takeCharClosed?_append h).symm, ?_⟩
    unfold takeCharClosed? at h
    split at h
    · split at h <;> cases h
      exact .inl ⟨_, ‹_›, rfl⟩
    · split at h <;> cases h
      exact .inr ⟨_, not_or.mp ‹_›, rfl⟩
    · cases h
  · rintro ⟨rfl, ⟨c, hc, rfl⟩ | ⟨c, hc, rfl⟩⟩
    · simp [takeCharClosed?, hc]
    · simp [takeCharClosed?, hc]

/-- A comment is two slashes and what follows them in front of a line feed. -/
theorem take?_comment (h : take? .comment text = some (taken, rest)) :
    ∃ body, taken = '/' :: '/' :: body ∧ text = '/' :: '/' :: (body ++ rest) ∧
      (body ++ rest).takeWhile (· ≠ '\n') = body := by
  have happend := take?_append h
  simp only [take?] at h
  split at h
  · simp only [Option.some.injEq, Prod.mk.injEq] at h
    obtain ⟨rfl, -⟩ := h
    simp only [List.cons_append, List.cons.injEq, true_and] at happend
    exact ⟨_, rfl, by rw [happend], by rw [happend]⟩
  · cases h

/-- A pattern that matches still does when more text follows. -/
theorem exists_take?_append {q : Pattern} {cut : List Char × List Char}
    (h : q.take? text = some cut) : ∃ cut', q.take? (text ++ more) = some cut' := by
  have hrun {p : Char → Bool} {cut : List Char × List Char} (h : takeRun? p text = some cut) :
      ∃ cut', takeRun? p (text ++ more) = some cut' := by
    by_contra hnone
    have hnone := Option.eq_none_iff_forall_ne_some.2 fun cut' h => hnone ⟨cut', h⟩
    rw [takeRun?_eq_none_front hnone] at h
    cases h
  cases q with
  | word =>
    cases text with
    | nil => cases h
    | cons c text =>
      simp only [take?, Option.ite_none_right_eq_some] at h
      exact ⟨_, if_pos h.1⟩
  | number =>
    obtain ⟨digits, hdigits, -⟩ := Option.map_eq_some_iff.mp h
    obtain ⟨digits', hdigits'⟩ := hrun hdigits
    exact ⟨_, Option.map_eq_some_iff.mpr ⟨digits', hdigits', rfl⟩⟩
  | blank => exact hrun h
  | string =>
    simp only [take?] at h
    split at h
    · obtain ⟨_, hbody, -⟩ := Option.map_eq_some_iff.mp h
      exact ⟨_, Option.map_eq_some_iff.mpr ⟨_, takeClosed?_append_of_eq_some hbody, rfl⟩⟩
    · cases h
  | char =>
    simp only [take?] at h
    split at h
    · obtain ⟨⟨body, rest⟩, hbody, -⟩ := Option.map_eq_some_iff.mp h
      obtain ⟨rfl, hform⟩ := takeCharClosed?_eq_some_iff.mp hbody
      exact ⟨_, Option.map_eq_some_iff.mpr
        ⟨_, takeCharClosed?_eq_some_iff.mpr ⟨List.append_assoc .., hform⟩, rfl⟩⟩
    · cases h
  | comment =>
    simp only [take?] at h
    split at h
    · exact ⟨_, rfl⟩
    · cases h
  | symbol kind spelling =>
    obtain ⟨rest, hrest, -⟩ := Option.map_eq_some_iff.mp h
    refine ⟨_, Option.map_eq_some_iff.mpr ⟨rest ++ more, ?_, rfl⟩⟩
    rw [dropSpelling?_eq_some_iff, ← dropSpelling?_eq_some_iff.mp hrest, List.append_assoc]

/-- A pattern takes the same when text is cut off behind what it takes, unless the cut is inside
a word. -/
theorem take?_front {q : Pattern} {c : Char} (hc : isWordRest c = false)
    (h : q.take? (taken ++ (front ++ c :: back)) = some (taken, front ++ c :: back)) :
    q.take? (taken ++ front) = some (taken, front) := by
  generalize htext : taken ++ (front ++ c :: back) = text at h
  cases q with
  | word =>
    cases text with
    | nil => cases h
    | cons d text =>
      simp only [take?, Option.ite_none_right_eq_some, Option.some.injEq, Prod.mk.injEq] at h
      obtain ⟨hd, rfl, -⟩ := h
      generalize hrun : text.takeWhile isWordRest = run at htext
      obtain ⟨-, rfl⟩ := List.cons.inj htext
      have htake := takeWhile_front hrun
      rw [List.cons_append]
      exact (if_pos hd).trans (by rw [htake, dropWhile_of_takeWhile htake])
  | number =>
    obtain ⟨⟨digits, mid⟩, hdigits, heq⟩ := Option.map_eq_some_iff.mp h
    have hmid := numberTail_append mid
    rcases htail : numberTail mid with ⟨tail, rest⟩
    simp only [htail, Prod.mk.injEq] at heq hmid
    obtain ⟨rfl, rfl⟩ := heq
    subst hmid
    have hsplit : text = digits ++ (tail ++ front ++ c :: back) := by
      rw [← htext]
      simp only [List.append_assoc]
    rw [hsplit, ← List.append_assoc tail] at hdigits
    refine Option.map_eq_some_iff.mpr ⟨(digits, tail ++ front), ?_, ?_⟩
    · rw [List.append_assoc]
      exact takeRun?_front hdigits
    · simp only [numberTail_front hc htail]
  | blank =>
    subst htext
    exact takeRun?_front h
  | string =>
    simp only [take?] at h
    split at h
    · obtain ⟨⟨body, rest⟩, hbody, heq⟩ := Option.map_eq_some_iff.mp h
      cases heq
      have hself : takeClosed? '"' (body ++ front) = some (body, front) :=
        takeClosed?_append_of_eq_some (takeClosed?_self hbody)
      simp [take?, hself]
    · cases h
  | char =>
    simp only [take?] at h
    split at h
    · obtain ⟨⟨body, rest⟩, hbody, heq⟩ := Option.map_eq_some_iff.mp h
      cases heq
      have hself := takeCharClosed?_eq_some_iff.mpr
        ⟨rfl (a := body ++ front), (takeCharClosed?_eq_some_iff.mp hbody).2⟩
      simp [take?, hself]
    · cases h
  | comment =>
    obtain ⟨body, rfl, -, hrun⟩ := take?_comment h
    have htake := takeWhile_front hrun
    simp only [List.cons_append, take?]
    rw [htake, dropWhile_of_takeWhile htake]
  | symbol kind spelling =>
    obtain ⟨rest, -, heq⟩ := Option.map_eq_some_iff.mp h
    cases heq
    exact Option.map_eq_some_iff.mpr ⟨front, dropSpelling?_eq_some_iff.mpr rfl, rfl⟩

/-- A character at which nothing can be taken continues no word. -/
theorem isWordRest_of_first?_eq_none {c : Char} (h : first? (c :: back) = none) :
    isWordRest c = false := by
  have htable : ∀ q ∈ table, q.take? (c :: back) = none := fun q hq =>
    Option.map_eq_none_iff.1 (List.findSome?_eq_none_iff.1 h q hq)
  have hword : isWordStart c = false := by
    simpa [take?] using htable .word (by decide)
  have hnumber : c.isDigit = false := by
    simpa [take?, takeRun?_eq_none_iff] using htable .number (by decide)
  simp only [isWordStart, Bool.or_eq_false_iff] at hword
  simp [isWordRest, Char.isAlphanum, hword, hnumber]

/-- The first match stays what it is when a text is cut off at a place where nothing matches. -/
theorem first?_front {q : Pattern} {c : Char} (hstuck : first? (c :: back) = none)
    (h : first? (taken ++ (front ++ c :: back)) = some (q, taken, front ++ c :: back)) :
    first? (taken ++ front) = some (q, taken, front) := by
  obtain ⟨earlier, q', later, htable, hq, hearlier⟩ := List.findSome?_eq_some_iff.1 h
  obtain ⟨⟨_, _⟩, htake, heq⟩ := Option.map_eq_some_iff.mp hq
  cases heq
  refine List.findSome?_eq_some_iff.2 ⟨earlier, q, later, htable, ?_, fun r hr => ?_⟩
  · rw [take?_front (isWordRest_of_first?_eq_none hstuck) htake]
    rfl
  · have hnone := Option.map_eq_none_iff.1 (hearlier r hr)
    refine Option.map_eq_none_iff.2 (Option.eq_none_iff_forall_ne_some.2 fun cut hcut => ?_)
    obtain ⟨cut', hcut'⟩ : ∃ cut', r.take? (taken ++ front ++ c :: back) = some cut' :=
      exists_take?_append hcut
    rw [List.append_assoc, hnone] at hcut'
    cases hcut'

end Frontend.Pattern
