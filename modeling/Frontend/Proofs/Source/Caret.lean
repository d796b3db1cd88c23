import Frontend.Proofs.Source.Line
import Frontend.Proofs.Token.Respacing

/-!
# The caret of a report

The caret stands behind a rule that is as long as what is printed above it: the gutter with the
number of the line, and the part of the line between its indentation and the reported place. That
this part reaches as far as the place rests on what errors point at: a character that is no white
space (`PointsAt.exists_char`), so it is neither taken for indentation nor cut off at the end.
-/

namespace Frontend

open Source Text

section

variable {p : Char → Bool} {c : Char} (hc : p c = false) (front back : List Char)
include hc

theorem takeWhile_append_cons : (front ++ c :: back).takeWhile p = front.takeWhile p := by
  induction front with
  | nil => simp [hc]
  | cons d front ih => by_cases hd : p d = true <;> simp [hd, ih]

theorem dropWhile_append_cons :
    (front ++ c :: back).dropWhile p = front.dropWhile p ++ c :: back := by
  induction front with
  | nil => simp [hc]
  | cons d front ih => by_cases hd : p d = true <;> simp [hd, ih]

end

/-- Up to a character that is no white space a text is left as it is. -/
theorem Text.trimRight_append_cons {c : Char} (hc : isBlank c = false) (front back : List Char) :
    trimRight (front ++ c :: back) = front ++ c :: trimRight back := by
  have hreverse : (front ++ c :: back).reverse = back.reverse ++ c :: front.reverse := by simp
  rw [trimRight, hreverse, dropWhile_append_cons hc]
  simp [trimRight]

namespace Report

/-- Indentation is white space. -/
theorem isIndent_eq_false {c : Char} (h : isBlank c = false) : isIndent c = false := by
  by_contra hindent
  rw [Bool.not_eq_false, isIndent, Bool.or_eq_true, beq_iff_eq, beq_iff_eq] at hindent
  rcases hindent with rfl | rfl <;> exact absurd h (by decide)

theorem padLeft_length {fill : Char} {width : Nat} {text : String} (h : text.length ≤ width) :
    (padLeft fill width text).length = width := by
  rw [padLeft, String.length_append, String.length_ofList, List.length_replicate]
  omega

/-- A text of one character on the right of a field that is wide enough. -/
theorem padLeft_succ (fill : Char) (width : Nat) {text : String} (h : text.length = 1) :
    padLeft fill (width + 1) text = String.ofList (List.replicate width fill) ++ text := by
  rw [padLeft, h, Nat.add_sub_cancel]

variable {x : Excerpt} {indent seen behind : List Char} {c : Char}

/-- The excerpt and the caret below it: in front of both stands as much, a gutter and the characters
that have been seen in the one, a rule in the other. -/
theorem quote_eq (htext : x.text.toList = indent ++ seen ++ c :: behind)
    (hcolumn : x.column = (indent ++ seen).length)
    (hindent : indent = (indent ++ seen).takeWhile isIndent) (hc : isBlank c = false) :
    ∃ bar rule : String, quote x =
        [bar, x.number.repr ++ " | " ++ String.ofList (seen ++ c :: trimRight behind),
          rule ++ "^"] ∧
      rule.length = (x.number.repr ++ " | ").length + seen.length ∧ '^' ∉ rule.toList := by
  have htake : x.text.toList.takeWhile isIndent = indent := by
    rw [htext, takeWhile_append_cons (isIndent_eq_false hc), ← hindent]
  have hdrop : x.text.toList.dropWhile isIndent = seen ++ c :: behind := by
    have hparts := List.takeWhile_append_dropWhile (p := isIndent) (l := x.text.toList)
    rw [htake] at hparts
    exact List.append_cancel_left (hparts.trans (htext.trans (List.append_assoc ..)))
  have hwidth : x.column - indent.length + 1 = seen.length + 1 := by
    rw [hcolumn, List.length_append, Nat.add_sub_cancel_left]
  let bar := padLeft ' ' (x.number.repr.length + 2) "|"
  let rule := bar ++ " " ++ String.ofList (List.replicate seen.length '-')
  refine ⟨bar, rule, ?_, ?_, ?_⟩
  · rw [quote, htake, hdrop, hwidth, padLeft_succ '-' seen.length rfl,
      trimRight_append_cons hc, ← String.append_assoc]
  · have hbar : bar.length = x.number.repr.length + 2 := padLeft_length (Nat.le_add_left 1 _)
    simp only [rule, String.length_append, hbar, String.length_ofList, List.length_replicate]
    rfl
  · simp [rule, bar, padLeft, List.mem_replicate]

end Report

variable {source file : String} {builtins : Bool} {firstId : Nat} {e : Error}

/-- In front of the end of a source an error points at a character that is no white space. -/
theorem PointsAt.exists_char (h : PointsAt source file e)
    (hlt : e.position.offset < byteLength source.toList) :
    ∃ front c back, source.toList = front ++ c :: back ∧ e.position.offset = byteLength front ∧
      isBlank c = false := by
  cases h with
  | @token tokens t htokens hmem hstart =>
    have htiled := Token.tiled_of_tokenize htokens
    obtain ⟨eof, hlast, -, -, -, hend⟩ := htiled.last
    rw [← List.dropLast_append_getLast? eof hlast, List.mem_append, List.mem_singleton] at hmem
    obtain hmem | rfl := hmem
    · obtain ⟨c, more, htext, hc⟩ := (Token.tokenize_alone htokens t hmem).exists_cons
      obtain ⟨front, back, hsource, hoffset⟩ :=
        (htiled.places t (List.mem_of_mem_dropLast hmem)).1.boundary
      have hspan := (htiled.spelled t hmem).2.1
      have hslice := slice_append_after (Nat.le_of_lt hspan) source.toList
      rw [← Token.text, htext, hoffset, hsource, after_byteLength_append] at hslice
      exact ⟨front, c, _, by rw [hsource, ← hslice, List.cons_append],
        by rw [← hstart, hoffset], hc⟩
    · rw [← hstart, hend] at hlt
      exact absurd hlt (Nat.lt_irrefl _)
  | stopped hstuck _ =>
    obtain ⟨front, c, back, hsource, hnone, rfl, -⟩ := Token.scan_front hstuck
    refine ⟨front, c, back, hsource, origin_pastAll_offset .., ?_⟩
    by_contra hblank
    rw [Bool.not_eq_false] at hblank
    have hreads : Pattern.Reads .ofAscii back .blank [c] :=
      .blank (List.cons_ne_nil c []) (by simpa using hblank)
    exact Pattern.not_reads_of_first?_eq_none hnone (by decide) rfl hreads

/-- The last lines of a report are the line with the error, without the white space around it and
behind its number, and a caret under the character that the error points at: what is in front of the
character in the one is as long as what is in front of the caret in the other. -/
theorem caret_under (h : analyzeSource source file builtins firstId = .error (.error e))
    (hlt : e.position.offset < byteLength source.toList) (path : String) :
    ∃ front line back, source.toList = front ++ line ++ back ∧ IsLine front line back ∧
      e.position.line = front.count '\n' + 1 ∧
    ∃ indent seen c behind trailing, line = indent ++ (seen ++ c :: behind) ++ trailing ∧
      (∀ c ∈ indent, Report.isIndent c = true) ∧ (∀ c ∈ trailing, isBlank c = true) ∧
      e.position.offset = byteLength (front ++ indent ++ seen) ∧
    ∃ (others : List String) (rule : String), Report.lines e path source = others ++
        [e.position.line.repr ++ " | " ++ String.ofList (seen ++ c :: behind), rule ++ "^"] ∧
      rule.length = (e.position.line.repr ++ " | ").length + seen.length ∧
      '^' ∉ rule.toList := by
  obtain ⟨-, -, hcounted, hpoints⟩ := analyzeSource_error_place h
  obtain ⟨text, c, rest, hsource, hoffset, hc⟩ := hpoints.exists_char hlt
  obtain ⟨front, tail, back, htext, hrest, htail, hline, hcount⟩ :=
    exists_isLine_at text (List.cons_ne_nil c rest)
  obtain ⟨d, more, rfl⟩ := List.exists_cons_of_ne_nil htail
  obtain ⟨rfl, rfl⟩ := List.cons.inj hrest
  have hparted : source.toList = front ++ (lastLine text ++ c :: more) ++ back := by
    rw [hsource]
    nth_rewrite 1 [htext]
    simp
  have hx := hline.excerpt? htail hparted
  rw [← htext, ← hoffset] at hx
  have hnumber : e.position.line = front.count '\n' + 1 := by
    rw [hoffset, positionOf_byteLength hsource, hcount] at hcounted
    exact (Prod.mk.inj hcounted).1
  let indent := (lastLine text).takeWhile Report.isIndent
  let seen := (lastLine text).dropWhile Report.isIndent
  have hparts : indent ++ seen = lastLine text := List.takeWhile_append_dropWhile
  obtain ⟨trailing, htrailing, hblank⟩ := exists_trimRight more
  obtain ⟨bar, rule, hquote, hrule⟩ := Report.quote_eq
    (x := ⟨front.count '\n' + 1, String.ofList (lastLine text ++ c :: more),
      (lastLine text).length⟩)
    (by rw [String.toList_ofList, hparts]) (by rw [hparts]) (by rw [hparts]) hc
  rw [← hnumber] at hquote hrule hx
  refine ⟨front, _, back, hparted, hline, hnumber, indent, seen, c, trimRight more, trailing, ?_,
    fun c hc => List.mem_takeWhile_imp hc, hblank, ?_, ?_⟩
  · rw [← List.append_assoc, hparts, List.append_assoc, List.cons_append, ← htrailing]
  · rw [List.append_assoc, hparts, ← htext, hoffset]
  · refine ⟨[Report.title e.cause,
      "-> " ++ path ++ ":" ++ e.position.line.repr ++ ":" ++ e.position.col.repr,
      "   " ++ e.message, bar], rule, ?_, hrule⟩
    rw [Report.lines, hx]
    exact congrArg _ hquote

/-- The caret stands under the name that is unknown, behind indentation that is left out and a
character of two bytes. -/
theorem caret_under_name : ∃ e,
    analyzeSource "func f() \x7b\n\tvar s = \x22é\x22; y;\n\x7d\n" "main" false 0 =
      .error (.error e) ∧
    e.position.offset = 26 ∧
    ∃ front line back,
      "func f() \x7b\n\tvar s = \x22é\x22; y;\n\x7d\n".toList = front ++ line ++ back ∧
      IsLine front line back ∧ e.position.line = front.count '\n' + 1 ∧
    ∃ indent seen c behind trailing, line = indent ++ (seen ++ c :: behind) ++ trailing ∧
      (∀ c ∈ indent, Report.isIndent c = true) ∧ (∀ c ∈ trailing, isBlank c = true) ∧
      e.position.offset = byteLength (front ++ indent ++ seen) ∧
    ∃ (others : List String) (rule : String),
      Report.lines e "main" "func f() \x7b\n\tvar s = \x22é\x22; y;\n\x7d\n" = others ++
        [e.position.line.repr ++ " | " ++ String.ofList (seen ++ c :: behind), rule ++ "^"] ∧
      rule.length = (e.position.line.repr ++ " | ").length + seen.length ∧
      '^' ∉ rule.toList := by
  have hrun : (match analyzeSource "func f() \x7b\n\tvar s = \x22é\x22; y;\n\x7d\n" "main" false
        0 with
      | .error (.error e) => e.position.offset == 26
      | _ => false) = true := by decide +kernel
  split at hrun
  · next e h =>
    have hoffset : e.position.offset = 26 := eq_of_beq hrun
    exact ⟨e, h, hoffset, caret_under h (by rw [hoffset]; decide) "main"⟩
  · cases hrun

end Frontend
