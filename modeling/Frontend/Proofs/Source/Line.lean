import Mathlib.Data.List.Infix
import Mathlib.Data.List.TakeWhile
import Frontend.Proofs.Source.Errors
import Frontend.Report

/-!
# Lines of a source

A line of a text is said without cutting the text: it stands behind a line feed, or begins the
text, and goes on up to the next line feed or the end (`IsLine`). The excerpt at an offset shows
the line that `positionOf` counts to, with the same column (`excerpt?_lineAt`); behind a line feed
at the end of a source there is no line any more, and the excerpt is of the one that the feed ends
(`excerpt?_behind`). So is the excerpt in a report on an error (`excerpt_agrees`).
-/

namespace Frontend

open Source

namespace Source

/-- A line of a text, with what stands in front of it and behind it. -/
structure IsLine (front line back : List Char) : Prop where
  /-- It has a character, if only the line feed. -/
  filled : line ≠ []
  /-- It begins the text, or a line feed stands in front of it. -/
  begins : front = [] ∨ front.getLast? = some '\n'
  /-- A line feed is nowhere but at its end. -/
  sole : '\n' ∉ line.dropLast
  /-- It ends the text, or a line feed ends it. -/
  ends : back = [] ∨ line.getLast? = some '\n'

/-- The line of a text that has a number, counted from one. -/
def LineAt (text : List Char) (number : Nat) (line : List Char) : Prop :=
  ∃ front back, text = front ++ line ++ back ∧ IsLine front line back ∧
    number = front.count '\n' + 1

variable {source : String} {text front seen more line back : List Char} {ls : List (List Char)}
  {number offset : Nat}

/-- A text that is not empty begins with a line. -/
theorem exists_isLine (h : text ≠ []) : ∃ line back, text = line ++ back ∧ IsLine [] line back := by
  induction text with
  | nil => exact absurd rfl h
  | cons c text ih =>
    by_cases hc : c = '\n'
    · subst hc
      exact ⟨['\n'], text, rfl, List.cons_ne_nil _ _, .inl rfl, by simp, .inr rfl⟩
    by_cases htext : text = []
    · subst htext
      exact ⟨[c], [], rfl, List.cons_ne_nil _ _, .inl rfl, by simp, .inl rfl⟩
    obtain ⟨line, back, rfl, hline⟩ := ih htext
    refine ⟨c :: line, back, rfl, List.cons_ne_nil _ _, .inl rfl, ?_, hline.ends.imp_right ?_⟩
    · rw [List.dropLast_cons_of_ne_nil hline.filled, List.mem_cons, not_or]
      exact ⟨fun h => hc h.symm, hline.sole⟩
    · exact fun hend => by rw [List.getLast?_cons, hend, Option.getD_some]

/-- No line feed is in the last line. -/
theorem notMem_lastLine (text : List Char) : '\n' ∉ lastLine text := by
  intro hmem
  simpa using List.mem_takeWhile_imp (List.mem_reverse.1 hmem)

theorem filter_lastLine (text : List Char) :
    (lastLine text).filter (· ≠ '\n') = lastLine text :=
  List.filter_eq_self.2 fun _ hc => decide_eq_true fun h => notMem_lastLine text (h ▸ hc)

/-- The last line begins the text, or a line feed stands in front of it. -/
theorem exists_append_lastLine (text : List Char) :
    ∃ front, text = front ++ lastLine text ∧ (front = [] ∨ front.getLast? = some '\n') ∧
      text.count '\n' = front.count '\n' := by
  suffices h : ∃ front, text = front ++ lastLine text ∧
      (front = [] ∨ front.getLast? = some '\n') by
    obtain ⟨front, htext, hfront⟩ := h
    refine ⟨front, htext, hfront, ?_⟩
    have hcount : (front ++ lastLine text).count '\n' = front.count '\n' := by
      rw [List.count_append, List.count_eq_zero.2 (notMem_lastLine text), Nat.add_zero]
    rwa [← htext] at hcount
  induction text using List.reverseRecOn with
  | nil => exact ⟨[], rfl, .inl rfl⟩
  | append_singleton text c ih =>
    rw [lastLine_concat]
    by_cases hc : c = '\n'
    · subst hc
      exact ⟨text ++ ['\n'], by simp, .inr (by simp)⟩
    · obtain ⟨front, htext, hfront⟩ := ih
      exact ⟨front, by rw [if_neg hc, ← List.append_assoc, ← htext], hfront⟩

/-- At a place with characters behind it a text is parted where the line begins and where it
ends. -/
theorem exists_isLine_at (front : List Char) (hmore : more ≠ []) :
    ∃ head tail back, front = head ++ lastLine front ∧ more = tail ++ back ∧ tail ≠ [] ∧
      IsLine head (lastLine front ++ tail) back ∧ front.count '\n' = head.count '\n' := by
  obtain ⟨head, hfront, hbegins, hcount⟩ := exists_append_lastLine front
  obtain ⟨tail, back, rfl, htail⟩ := exists_isLine hmore
  refine ⟨head, tail, back, hfront, rfl, htail.filled, ?_, hcount⟩
  constructor
  case filled => exact List.append_ne_nil_of_right_ne_nil _ htail.filled
  case begins => exact hbegins
  case sole =>
    rw [List.dropLast_append_of_ne_nil htail.filled, List.mem_append, not_or]
    exact ⟨notMem_lastLine front, htail.sole⟩
  case ends => exact htail.ends.imp_right fun h => by rw [List.getLast?_append, h, Option.or]

/-- A character that is no line feed is in the line of what follows. -/
theorem exists_lines_cons {c : Char} (hc : c ≠ '\n') (htext : text ≠ []) :
    ∃ first others, lines text = first :: others ∧ lines (c :: text) = (c :: first) :: others := by
  obtain ⟨first, others, hlines⟩ : ∃ first others, lines text = first :: others := by
    refine List.exists_cons_of_ne_nil fun hnil => htext ?_
    rw [← flatten_lines text, hnil, List.flatten_nil]
  exact ⟨first, others, hlines, by rw [lines, if_neg hc, hlines]⟩

/-- What ends with a line feed has as many lines as line feeds, and is cut apart from what
follows. -/
theorem lines_closed (h : front = [] ∨ front.getLast? = some '\n') :
    (lines front).length = front.count '\n' ∧
      ∀ text, lines (front ++ text) = lines front ++ lines text := by
  induction front with
  | nil => exact ⟨rfl, fun _ => rfl⟩
  | cons c front ih =>
    by_cases hc : c = '\n'
    · have hfront : front = [] ∨ front.getLast? = some '\n' := by
        cases front with
        | nil => exact .inl rfl
        | cons d front => simpa using h
      obtain ⟨hlength, happend⟩ := ih hfront
      subst hc
      simp [lines, hlength, happend]
    -- The line goes on, for its line feed is still to come.
    have hne : front ≠ [] := by
      rintro rfl
      simp [hc] at h
    have hfront : front.getLast? = some '\n' := by
      rw [List.getLast?_cons_of_ne_nil hne] at h
      simpa using h
    obtain ⟨hlength, happend⟩ := ih (.inr hfront)
    obtain ⟨first, others, hlines, hcons⟩ := exists_lines_cons hc hne
    refine ⟨?_, fun text => ?_⟩
    · rw [hcons, List.length_cons, List.count_cons_of_ne hc, ← hlength, hlines,
        List.length_cons]
    · obtain ⟨first', others', hlines', hcons'⟩ :=
        exists_lines_cons hc (List.append_ne_nil_of_left_ne_nil hne text)
      rw [happend, hlines, List.cons_append, List.cons.injEq] at hlines'
      rw [List.cons_append, hcons', hcons, ← hlines'.1, ← hlines'.2, List.cons_append]

theorem lines_line (h : line ≠ []) (hsole : '\n' ∉ line.dropLast) : lines line = [line] := by
  induction line with
  | nil => exact absurd rfl h
  | cons c line ih =>
    cases line with
    | nil => simp [lines]
    | cons d line =>
      rw [List.dropLast_cons_of_ne_nil (List.cons_ne_nil d line), List.mem_cons, not_or] at hsole
      rw [lines, if_neg fun hc => hsole.1 hc.symm, ih (List.cons_ne_nil d line) hsole.2]

/-- A line is one of the lines that its text is cut into. -/
theorem IsLine.lines (h : IsLine front line back) :
    lines (front ++ line ++ back) = lines front ++ line :: lines back := by
  have hline : Source.lines (line ++ back) = line :: Source.lines back := by
    obtain rfl | hfeed := h.ends
    · rw [List.append_nil, lines_line h.filled h.sole]
      rfl
    · rw [(lines_closed (.inr hfeed)).2, lines_line h.filled h.sole]
      rfl
  rw [List.append_assoc, (lines_closed h.begins).2, hline]

/-- An offset behind some lines is looked for among the others. -/
theorem excerptFrom_append (number offset : Nat) (others rest : List (List Char)) :
    excerptFrom number (byteLength others.flatten + offset) (others ++ rest) =
      excerptFrom (number + others.length) offset rest := by
  induction others generalizing number with
  | nil => simp [byteLength]
  | cons line others ih =>
    rw [List.flatten_cons, byteLength_append, List.cons_append, excerptFrom, if_neg (by omega),
      Nat.add_assoc (byteLength line), Nat.add_sub_cancel_left, ih, List.length_cons]
    congr 1
    omega

theorem excerptFrom_eq_none (h : byteLength ls.flatten ≤ offset) :
    excerptFrom number offset ls = none := by
  have hall := excerptFrom_append number (offset - byteLength ls.flatten) ls []
  rwa [List.append_nil, Nat.add_sub_cancel' h] at hall

/-- The excerpt at a place in a line is that line, with the characters in front of the place
counted. -/
theorem IsLine.excerpt? (h : IsLine front (seen ++ more) back) (hmore : more ≠ [])
    (hsource : source.toList = front ++ (seen ++ more) ++ back) :
    excerpt? source (byteLength (front ++ seen)) =
      some ⟨front.count '\n' + 1, String.ofList (seen ++ more), seen.length⟩ := by
  have hlt : byteLength seen < byteLength (seen ++ more) := by
    have := byteLength_pos hmore
    rw [byteLength_append]
    omega
  have hfound : excerptFrom 1 (byteLength (front ++ seen)) (Source.lines source.toList) =
      some ⟨front.count '\n' + 1, String.ofList (seen ++ more), seen.length⟩ := by
    have hbehind := excerptFrom_append 1 (byteLength seen) (Source.lines front)
      ((seen ++ more) :: Source.lines back)
    rw [flatten_lines] at hbehind
    rw [hsource, h.lines, byteLength_append, hbehind, excerptFrom, if_pos hlt,
      before_byteLength_append, (lines_closed h.begins).1, Nat.add_comm 1]
  simp only [Source.excerpt?, hfound]

/-- Past the end of a source the excerpt is the last line, with all its characters counted but a
line feed. -/
theorem IsLine.excerpt?_end (h : IsLine front line []) (hsource : source.toList = front ++ line)
    (hoffset : byteLength source.toList ≤ offset) :
    Source.excerpt? source offset = some ⟨front.count '\n' + 1, String.ofList line,
      (line.filter (· ≠ '\n')).length⟩ := by
  have hlines : Source.lines source.toList = Source.lines front ++ [line] := by
    have hline := h.lines
    rwa [List.append_nil, ← hsource] at hline
  have hnone : excerptFrom 1 offset (Source.lines source.toList) = none :=
    excerptFrom_eq_none (by rwa [flatten_lines])
  rw [Source.excerpt?, hnone, hlines]
  simp only [List.getLast?_concat, Option.map_some, List.length_append, (lines_closed h.begins).1,
    List.length_singleton]

theorem positionOf_byteLength (hsource : source.toList = front ++ back) :
    positionOf source (byteLength front) = (front.count '\n' + 1, (lastLine front).length + 1) := by
  rw [positionOf, hsource, before_byteLength_append]

/-- The excerpt at a place shows the line that the place is counted to lie in, with the same
column; at the end of a source only if no line feed ends it. -/
theorem excerpt?_lineAt (hsource : source.toList ≠ []) (h : IsBoundary source.toList offset)
    (hend : offset < byteLength source.toList ∨ source.toList.getLast? ≠ some '\n') :
    ∃ x, excerpt? source offset = some x ∧ LineAt source.toList x.number x.text.toList ∧
      (x.number, x.column + 1) = positionOf source offset := by
  obtain ⟨front, back, htext, rfl⟩ := h
  rw [positionOf_byteLength htext]
  by_cases hback : back = []
  · subst hback
    rw [List.append_nil] at htext
    obtain ⟨head, hfront, hbegins, hcount⟩ := exists_append_lastLine front
    have hfilled : lastLine front ≠ [] := by
      intro hnil
      rw [hnil, List.append_nil] at hfront
      obtain rfl | hlast := hfront ▸ hbegins
      · exact hsource htext
      · rw [htext] at hend
        exact hend.elim (Nat.lt_irrefl _) fun hne => hne hlast
    have hline : IsLine head (lastLine front) [] :=
      ⟨hfilled, hbegins, fun h => notMem_lastLine front (List.mem_of_mem_dropLast h), .inl rfl⟩
    refine ⟨_, hline.excerpt?_end (htext.trans hfront) (Nat.le_of_eq (by rw [htext])),
      ?_, ?_⟩
    · exact ⟨head, [], by rw [String.toList_ofList, List.append_nil, ← hfront, htext],
        by rwa [String.toList_ofList], rfl⟩
    · rw [filter_lastLine, hcount]
  · obtain ⟨head, tail, behind, hfront, rfl, htail, hline, hcount⟩ := exists_isLine_at front hback
    have hparted : source.toList = head ++ (lastLine front ++ tail) ++ behind := by
      rw [htext]
      nth_rewrite 1 [hfront]
      simp only [List.append_assoc]
    have hx := hline.excerpt? htail hparted
    rw [← hfront] at hx
    refine ⟨_, hx, ?_, ?_⟩
    · exact ⟨head, behind, by rwa [String.toList_ofList], by rwa [String.toList_ofList], rfl⟩
    · rw [hcount]

/-- Behind a line feed that ends a source the excerpt shows the line in front of it, past all
characters but that line feed. -/
theorem excerpt?_behind (hfeed : source.toList.getLast? = some '\n') :
    ∃ x, excerpt? source (byteLength source.toList) = some x ∧
      LineAt source.toList x.number x.text.toList ∧
      positionOf source (byteLength source.toList) = (x.number + 1, 1) ∧
      x.text.toList.length = x.column + 1 := by
  obtain ⟨body, hbody⟩ := List.getLast?_eq_some_iff.1 hfeed
  obtain ⟨head, hfront, hbegins, hcount⟩ := exists_append_lastLine body
  have hline : IsLine head (lastLine body ++ ['\n']) [] :=
    ⟨by simp, hbegins, by simpa using notMem_lastLine body, .inl rfl⟩
  have hsource : source.toList = head ++ (lastLine body ++ ['\n']) := by
    rw [hbody, ← List.append_assoc, ← hfront]
  have hfilter : (lastLine body ++ ['\n']).filter (· ≠ '\n') = lastLine body := by
    rw [List.filter_append, filter_lastLine]
    simp
  refine ⟨_, hline.excerpt?_end hsource (Nat.le_refl _), ?_, ?_, ?_⟩
  · exact ⟨head, [], by rw [String.toList_ofList, List.append_nil, hsource],
      by rwa [String.toList_ofList], rfl⟩
  · rw [positionOf_byteLength (List.append_nil _).symm, hbody, lastLine_concat, if_pos rfl,
      List.count_append, hcount]
    rfl
  · rw [hfilter, String.toList_ofList, List.length_append]
    rfl

end Source

namespace Text

variable {c : Char} {front back : List Char}

/-- White space is left out at the end of a text and nowhere else. -/
theorem exists_trimRight (text : List Char) :
    ∃ trailing, text = trimRight text ++ trailing ∧ ∀ c ∈ trailing, isBlank c = true := by
  refine ⟨(text.reverse.takeWhile isBlank).reverse, ?_, fun c hc => ?_⟩
  · rw [trimRight, ← List.reverse_append, List.takeWhile_append_dropWhile, List.reverse_reverse]
  · exact List.mem_takeWhile_imp (List.mem_reverse.1 hc)

end Text

namespace Report

/-- A report shows a numbered line of the source under a header with the place of the error; the
white space around the line is left out. -/
def ShowsLine (e : Error) (path : String) (number : Nat) (line : List Char)
    (report : List String) : Prop :=
  ∃ bar shown caret indent trailing,
    report = [title e.cause,
      "-> " ++ path ++ ":" ++ e.position.line.repr ++ ":" ++ e.position.col.repr,
      "   " ++ e.message, bar, number.repr ++ " | " ++ String.ofList shown, caret] ∧
    line = indent ++ shown ++ trailing ∧ (∀ c ∈ indent, isIndent c = true) ∧
    ∀ c ∈ trailing, Text.isBlank c = true

/-- The line a report shows is the one of the excerpt. -/
theorem lines_showsLine {e : Error} {source : String} {x : Excerpt} (path : String)
    (h : excerpt? source e.position.offset = some x) :
    ShowsLine e path x.number x.text.toList (Report.lines e path source) := by
  obtain ⟨trailing, htrailing, hblank⟩ :=
    Text.exists_trimRight (x.text.toList.dropWhile isIndent)
  have hreport : Report.lines e path source = [title e.cause,
      "-> " ++ path ++ ":" ++ e.position.line.repr ++ ":" ++ e.position.col.repr,
      "   " ++ e.message] ++ quote x := by
    rw [Report.lines, h]
  refine ⟨_, _, _, x.text.toList.takeWhile isIndent, trailing, hreport, ?_,
    fun c hc => List.mem_takeWhile_imp hc, hblank⟩
  rw [List.append_assoc, ← htrailing, List.takeWhile_append_dropWhile]

end Report

variable {source : String}

/-- The excerpt at every place of a source shows the line and the column that the place is counted
to have, and a report on an error shows the line that its header names. Only behind a line feed that
ends the source there is no line to show: the line that the feed ends is shown in its stead, with
the column behind its last character. -/
theorem excerpt_agrees (hsource : source ≠ "") :
    (∀ offset, IsBoundary source.toList offset →
      (offset < byteLength source.toList ∨ source.toList.getLast? ≠ some '\n') →
      ∃ x, excerpt? source offset = some x ∧ LineAt source.toList x.number x.text.toList ∧
        (x.number, x.column + 1) = positionOf source offset) ∧
    (source.toList.getLast? = some '\n' →
      ∃ x, excerpt? source (byteLength source.toList) = some x ∧
        LineAt source.toList x.number x.text.toList ∧
        positionOf source (byteLength source.toList) = (x.number + 1, 1) ∧
        x.text.toList.length = x.column + 1) ∧
    ∀ (file path : String) (builtins : Bool) (firstId : Nat) (e : Error),
      analyzeSource source file builtins firstId = .error (.error e) →
      ∃ number line, Report.ShowsLine e path number line (Report.lines e path source) ∧
        LineAt source.toList number line ∧
        if e.position.offset = byteLength source.toList ∧ source.toList.getLast? = some '\n'
        then e.position.line = number + 1 ∧ e.position.col = 1
        else e.position.line = number := by
  have hne : source.toList ≠ [] := fun h => hsource (String.toList_eq_nil_iff.1 h)
  refine ⟨fun offset h hend => excerpt?_lineAt hne h hend, excerpt?_behind, ?_⟩
  intro file path builtins firstId e herror
  obtain ⟨-, hle, hcounted, hpoints⟩ := analyzeSource_error_place herror
  by_cases hend : e.position.offset = byteLength source.toList ∧ source.toList.getLast? = some '\n'
  · obtain ⟨x, hx, hline, hposition, -⟩ := excerpt?_behind hend.2
    rw [← hend.1] at hx hposition
    refine ⟨x.number, x.text.toList, Report.lines_showsLine path hx, hline, ?_⟩
    rw [if_pos hend]
    exact Prod.mk.inj (hcounted.trans hposition)
  · have hwithin : e.position.offset < byteLength source.toList ∨
        source.toList.getLast? ≠ some '\n' := by
      obtain hlt | heq := Nat.lt_or_eq_of_le hle
      · exact .inl hlt
      · exact .inr fun hfeed => hend ⟨heq, hfeed⟩
    obtain ⟨x, hx, hline, hposition⟩ := excerpt?_lineAt hne hpoints.isPlace.boundary hwithin
    refine ⟨x.number, x.text.toList, Report.lines_showsLine path hx, hline, ?_⟩
    rw [if_neg hend]
    exact (Prod.mk.inj (hcounted.trans hposition.symm)).1

/-- A function that is left open is reported behind the line feed, under the line it ends. -/
theorem excerpt_agrees_open : "func f() \x7b\n" ≠ "" ∧
    (∃ x, excerpt? "func f() \x7b\n" 10 = some x ∧
      LineAt "func f() \x7b\n".toList x.number x.text.toList ∧
      (x.number, x.column + 1) = positionOf "func f() \x7b\n" 10) ∧
    (∃ x, excerpt? "func f() \x7b\n" (byteLength "func f() \x7b\n".toList) = some x ∧
      LineAt "func f() \x7b\n".toList x.number x.text.toList ∧
      positionOf "func f() \x7b\n" (byteLength "func f() \x7b\n".toList) = (x.number + 1, 1) ∧
      x.text.toList.length = x.column + 1) ∧
    ∃ e, analyzeSource "func f() \x7b\n" "main" false 0 = .error (.error e) ∧
      ∃ number line, Report.ShowsLine e "main" number line
          (Report.lines e "main" "func f() \x7b\n") ∧
        LineAt "func f() \x7b\n".toList number line ∧
        e.position.line = number + 1 ∧ e.position.col = 1 := by
  have hne : "func f() \x7b\n" ≠ "" := by decide
  obtain ⟨hplaces, hbehind, hreports⟩ := excerpt_agrees hne
  have hboundary : IsBoundary "func f() \x7b\n".toList 10 :=
    ⟨"func f() \x7b".toList, ['\n'], by decide, by decide⟩
  refine ⟨hne, hplaces 10 hboundary (.inl (by decide)), hbehind (by decide), ?_⟩
  have hrun : (match analyzeSource "func f() \x7b\n" "main" false 0 with
      | .error (.error e) => e.position.offset == 11
      | _ => false) = true := by decide +kernel
  split at hrun
  · next e h =>
    obtain ⟨number, line, hreport, hline, hposition⟩ := hreports "main" "main" false 0 e h
    have hend : e.position.offset = byteLength "func f() \x7b\n".toList ∧
        "func f() \x7b\n".toList.getLast? = some '\n' := ⟨eq_of_beq hrun, by decide⟩
    rw [if_pos hend] at hposition
    exact ⟨e, h, number, line, hreport, hline, hposition⟩
  · cases hrun

/-- The end of a text is counted to the line behind its last line feed, and no line is there. -/
theorem not_excerpt_agrees_at_end : ¬ ∀ (source : String) (offset : Nat), source ≠ "" →
    IsBoundary source.toList offset →
    ∃ x, excerpt? source offset = some x ∧ LineAt source.toList x.number x.text.toList ∧
      (x.number, x.column + 1) = positionOf source offset := by
  intro h
  obtain ⟨x, hx, -, hposition⟩ := h "a\n" 2 (by decide) ⟨['a', '\n'], [], by decide, by decide⟩
  have hfound : excerpt? "a\n" 2 = some ⟨1, "a\n", 1⟩ := by decide
  rw [hfound] at hx
  cases hx
  exact absurd hposition (by decide)

end Frontend
