import Mathlib.Data.List.Basic
import Frontend.Proofs.Source.Place
import Frontend.Proofs.Token.Reads
import Frontend.Proofs.Token.Scan

/-!
# Tokens tile the source

The spans of the tokens lie one behind the other on places of the source, what is between them
is white space and comments, and each token spells the text it spans (`Tiled`). Where lexing
stops, the text in front of that place can be cut into tokens and the character there is the one
that is reported (`Stopped`). `tokenize_tiled` is the statement over all sources; the end of the
file spans no text, yet its token has one (`tokenize_empty`).
-/

namespace Frontend.Token

open Source Text

/-- Text in front of `rest` that holds no token: white space, and comments up to a line feed or
the end of the source. -/
inductive Gap (rest : List Char) : List Char → Prop
  | nil : Gap rest []
  | blank {c : Char} {text : List Char} : isBlank c = true → Gap rest text → Gap rest (c :: text)
  | comment {body text : List Char} : '\n' ∉ body → (∀ c ∈ (text ++ rest).head?, c = '\n') →
      Gap rest text → Gap rest ('/' :: '/' :: body ++ text)

/-- The stretches in front of the tokens of a list, each from where the token before it ends. -/
def gaps (start : Nat) : List Token → List (Nat × Nat)
  | [] => []
  | t :: tokens => (start, t.span.start.offset) :: gaps t.span.stop.offset tokens

/-- The value of a token is its text, without the final `u` of an unsigned number; of a literal
between quotes it is what the text between them stands for. -/
def Spells (t : Token) (text : List Char) : Prop :=
  match t.kind with
  | .uint => text = t.value.toList ++ ['u']
  | .string => ∃ between, text = '\x22' :: (between ++ ['\x22']) ∧
      t.value = String.ofList (unescapeChars between)
  | .char => ∃ between, text = '\x27' :: (between ++ ['\x27']) ∧
      t.value = String.ofList (unescapeChars between)
  | _ => text = t.value.toList

/-- The text that a token spans. -/
def text (source : String) (t : Token) : List Char :=
  slice t.span.start.offset t.span.stop.offset source.toList

/-- A list of tokens covers a source from an offset on. -/
structure Tiled (source file : String) (start : Nat) (tokens : List Token) : Prop where
  /-- The last token is the end of the file: it spans nothing at the end of the source. -/
  last : ∃ eof, tokens.getLast? = some eof ∧ eof.kind = .eof ∧ eof.value = "EOF" ∧
    eof.span.start = eof.span.stop ∧ eof.span.start.offset = byteLength source.toList
  /-- Every other token spans some text and spells it. -/
  spelled : ∀ t ∈ tokens.dropLast, t.kind ≠ .eof ∧
    t.span.start.offset < t.span.stop.offset ∧ t.Spells (t.text source)
  /-- Each token begins where the one before it ends, or later. -/
  increasing : tokens.Pairwise fun t u => t.span.start.offset < u.span.start.offset ∧
    t.span.stop.offset ≤ u.span.start.offset
  /-- Both ends of every span are places of the source. -/
  places : ∀ t ∈ tokens, IsPlace source file t.span.start ∧ IsPlace source file t.span.stop
  /-- What is in front of a token and behind the one before it holds no token. -/
  gaps : ∀ gap ∈ Token.gaps start tokens,
    Gap (after gap.2 source.toList) (slice gap.1 gap.2 source.toList)
  /-- No token begins before the offset. -/
  within : ∀ t ∈ tokens, start ≤ t.span.start.offset

/-- An error names the character at a place of the source in front of which all is tokens. -/
structure Stopped (source file : String) (e : Error) : Prop where
  place : IsPlace source file e.position
  found : ∃ c back, after e.position.offset source.toList = c :: back ∧
    e.cause = .unrecognisedToken (String.singleton c)
  front : ∃ tokens,
    tokenize (String.ofList (before e.position.offset source.toList)) file = .ok tokens

variable {source file : String} {tokens : List Token} {front taken rest : List Char}
  {q : Pattern}

/-- White space in front of a gap belongs to it. -/
theorem Gap.append_blank {text : List Char} (hblank : ∀ c ∈ taken, isBlank c = true)
    (h : Gap rest text) : Gap rest (taken ++ text) := by
  induction taken with
  | nil => exact h
  | cons c taken ih =>
    exact .blank (hblank c List.mem_cons_self)
      (ih fun d hd => hblank d (List.mem_cons_of_mem c hd))

/-- What white space and comments take belongs to the gap behind it. -/
theorem Gap.append_taken {text : List Char} (hq : q.token? taken = none)
    (htake : q.take? (taken ++ (text ++ rest)) = some (taken, text ++ rest))
    (h : Gap rest text) : Gap rest (taken ++ text) := by
  cases q with
  | blank =>
    obtain ⟨-, hrun⟩ := Pattern.takeRun?_append_eq_some_iff.1 htake
    exact .append_blank (Pattern.takeWhile_append_eq_left_iff.1 hrun).1 h
  | comment =>
    obtain ⟨body, rfl, -, hrun⟩ := Pattern.take?_comment htake
    obtain ⟨hbody, hstop⟩ := Pattern.takeWhile_append_eq_left_iff.1 hrun
    exact .comment (fun hfeed => by simpa using hbody _ hfeed)
      (fun c hc => by simpa using hstop c hc) h
  | word | string | char | symbol => cases hq
  | number =>
    simp only [Pattern.token?] at hq
    split_ifs at hq

/-- The kinds whose value is not the very text of the token. -/
def unlike : List TokenKind := [.eof, .uint, .string, .char]

theorem spells_toList {t : Token} (h : t.kind ∉ unlike) : t.Spells t.value.toList := by
  unfold Spells
  split <;> simp_all [unlike]

theorem ofWord_notMem_unlike (word : String) : TokenKind.ofWord word ∉ unlike := by
  have hreserved : ∀ entry ∈ TokenKind.reservedWords, entry.2 ∉ unlike := by decide
  unfold TokenKind.ofWord
  cases h : TokenKind.reservedWords.lookup word with
  | none => decide
  | some kind =>
    obtain ⟨_, _, hsplit, -⟩ := List.lookup_eq_some_iff.mp h
    exact hreserved _ (hsplit ▸ List.mem_append_right _ List.mem_cons_self)

theorem symbol_notMem_unlike {kind : TokenKind} {spelling : String}
    (h : .symbol kind spelling ∈ Pattern.table) : kind ∉ unlike := by
  have htable : (Pattern.table.all fun
      | .symbol kind _ => kind ∉ unlike
      | _ => true) = true := by decide
  simpa using List.all_eq_true.mp htable _ h

/-- A token spells what its pattern took. -/
theorem spells_of_token? (hq : q ∈ Pattern.table) {t : Token}
    (htake : q.take? (taken ++ rest) = some (taken, rest))
    (htoken : q.token? taken = some (t.kind, t.value)) : t.kind ≠ .eof ∧ t.Spells taken := by
  -- Most patterns leave the text as it is, under a kind that is not one of the others.
  have hlike (hkind : t.kind ∉ unlike) (hvalue : t.value.toList = taken) :
      t.kind ≠ .eof ∧ t.Spells taken :=
    ⟨fun heof => hkind (heof ▸ by decide), hvalue ▸ spells_toList hkind⟩
  cases q with
  | blank | comment => cases htoken
  | word =>
    simp only [Pattern.token?, Option.some.injEq, Prod.mk.injEq] at htoken
    exact hlike (htoken.1 ▸ ofWord_notMem_unlike _) (by simp [← htoken.2])
  | symbol kind spelling =>
    simp only [Pattern.token?, Option.some.injEq, Prod.mk.injEq] at htoken
    obtain ⟨_, -, heq⟩ := Option.map_eq_some_iff.mp htake
    exact hlike (htoken.1 ▸ symbol_notMem_unlike hq)
      (htoken.2 ▸ (Prod.mk.inj heq).1)
  | number =>
    simp only [Pattern.token?] at htoken
    split_ifs at htoken with hu
    · simp only [Option.some.injEq, Prod.mk.injEq] at htoken
      refine ⟨fun heof => absurd (htoken.1.trans heof) (by decide), ?_⟩
      simp only [Spells, ← htoken.1, ← htoken.2, String.toList_ofList]
      exact (List.dropLast_append_getLast? _ hu).symm
    all_goals
      simp only [Option.some.injEq, Prod.mk.injEq] at htoken
      exact hlike (htoken.1 ▸ by decide) (by simp [← htoken.2])
  | string | char =>
    simp only [Pattern.token?, Option.some.injEq, Prod.mk.injEq] at htoken
    refine ⟨fun heof => absurd (htoken.1.trans heof) (by decide), ?_⟩
    simp only [Spells, ← htoken.1]
    exact ⟨_, Pattern.take?_eq_quoted (by simp) htake, htoken.2.symm⟩

/-- White space or a comment in front of tokens leaves them where they are. -/
theorem Tiled.skip (hsource : source.toList = front ++ (taken ++ rest))
    (hq : q.token? taken = none) (htake : q.take? (taken ++ rest) = some (taken, rest))
    (h : Tiled source file (byteLength (front ++ taken)) tokens) :
    Tiled source file (byteLength front) tokens where
  last := h.last
  spelled := h.spelled
  increasing := h.increasing
  places := h.places
  within t ht := by
    have := h.within t ht
    rw [byteLength_append] at this
    omega
  gaps := by
    cases tokens with
    | nil => exact fun _ hgap => absurd hgap List.not_mem_nil
    | cons t tokens =>
      obtain ⟨hfirst, hothers⟩ := List.forall_mem_cons.1 h.gaps
      have hle := h.within t List.mem_cons_self
      rw [← List.append_assoc] at hsource
      have hpart :
          slice (byteLength front) (byteLength (front ++ taken)) source.toList = taken := by
        rw [hsource, slice_byteLength_append]
      have hmeet : byteLength front ≤ byteLength (front ++ taken) := by
        rw [byteLength_append]
        omega
      have hrest := slice_append_after hle source.toList
      rw [hsource, after_byteLength_append, ← hsource] at hrest
      refine List.forall_mem_cons.2 ⟨?_, hothers⟩
      simp only at hfirst ⊢
      rw [← slice_append_slice hmeet hle, hpart]
      exact hfirst.append_taken hq (by rw [hrest]; exact htake)

theorem Tiled.ne_nil {start : Nat} (h : Tiled source file start tokens) : tokens ≠ [] := by
  obtain ⟨eof, heof, -⟩ := h.last
  rintro rfl
  cases heof

theorem text_eq {t : Token} (hsource : source.toList = front ++ (taken ++ rest))
    (hspan : t.span = ⟨(Position.origin file).pastAll front,
      (Position.origin file).pastAll (front ++ taken)⟩) : t.text source = taken := by
  rw [text, hspan, origin_pastAll_offset, origin_pastAll_offset, hsource, ← List.append_assoc,
    slice_byteLength_append]

/-- A token in front of tokens that cover what follows it. -/
theorem Tiled.cons {t : Token} (hsource : source.toList = front ++ (taken ++ rest))
    (hne : taken ≠ []) (hkind : t.kind ≠ .eof) (hspells : t.Spells taken)
    (hspan : t.span = ⟨(Position.origin file).pastAll front,
      (Position.origin file).pastAll (front ++ taken)⟩)
    (h : Tiled source file (byteLength (front ++ taken)) tokens) :
    Tiled source file (byteLength front) (t :: tokens) := by
  have hstart : t.span.start.offset = byteLength front := by rw [hspan, origin_pastAll_offset]
  have hstop : t.span.stop.offset = byteLength (front ++ taken) := by
    rw [hspan, origin_pastAll_offset]
  have hlt : byteLength front < byteLength (front ++ taken) := by
    have := byteLength_pos hne
    rw [byteLength_append]
    omega
  have hsource' : source.toList = front ++ taken ++ rest := by rw [hsource, List.append_assoc]
  have htext : t.text source = taken := text_eq hsource hspan
  constructor
  case last =>
    obtain ⟨eof, heof, hend⟩ := h.last
    exact ⟨eof, by rw [List.getLast?_cons, heof, Option.getD_some], hend⟩
  case spelled =>
    rw [List.dropLast_cons_of_ne_nil h.ne_nil]
    exact List.forall_mem_cons.2
      ⟨⟨hkind, by omega, by rwa [htext]⟩, h.spelled⟩
  case increasing =>
    refine List.pairwise_cons.2 ⟨fun u hu => ?_, h.increasing⟩
    have := h.within u hu
    omega
  case places =>
    exact List.forall_mem_cons.2
      ⟨hspan ▸ ⟨isPlace_pastAll hsource, isPlace_pastAll hsource'⟩, h.places⟩
  case gaps =>
    refine List.forall_mem_cons.2 ⟨?_, hstop ▸ h.gaps⟩
    simpa only [hstart, slice_self] using Gap.nil
  case within =>
    refine List.forall_mem_cons.2 ⟨Nat.le_of_eq hstart.symm, fun u hu => ?_⟩
    have := h.within u hu
    omega

/-- At the end of a source only the end of the file is left. -/
theorem Tiled.eof : Tiled source file (byteLength source.toList)
    [⟨.eof, "EOF", ⟨(Position.origin file).pastAll source.toList,
      (Position.origin file).pastAll source.toList⟩⟩] where
  last := ⟨_, rfl, rfl, rfl, rfl, origin_pastAll_offset ..⟩
  spelled := by simp
  increasing := List.pairwise_singleton ..
  places := by
    have hplace : IsPlace source file ((Position.origin file).pastAll source.toList) :=
      isPlace_pastAll (List.append_nil source.toList).symm
    simpa using hplace
  gaps := by simpa [Token.gaps] using Gap.nil
  within := by simp

/-- What is scanned behind a part of the source covers the rest of it. -/
theorem Scanned.tiled {p : Position} {text : List Char} (h : Scanned p text tokens)
    (hsource : source.toList = front ++ text) (hp : p = (Position.origin file).pastAll front) :
    Tiled source file (byteLength front) tokens := by
  induction h generalizing front with
  | eof =>
    rw [List.append_nil] at hsource
    subst hp hsource
    exact Tiled.eof
  | @token p q taken rest kind value tokens hfound htoken _ ih =>
    obtain ⟨hq, htake⟩ := Pattern.first?_eq_some hfound
    have hstop : p.pastAll taken = (Position.origin file).pastAll (front ++ taken) := by
      rw [Position.pastAll_append, ← hp]
    have hothers := ih (by rw [hsource, List.append_assoc]) hstop
    obtain ⟨hkind, hspells⟩ :=
      spells_of_token? (t := ⟨kind, value, ⟨p, p.pastAll taken⟩⟩) hq htake htoken
    exact hothers.cons hsource (Pattern.take?_ne_nil hq htake) hkind hspells (by rw [← hstop, hp])
  | skip hfound htoken _ ih =>
    obtain ⟨-, htake⟩ := Pattern.first?_eq_some hfound
    have hothers := ih (by rw [hsource, List.append_assoc]) (by rw [Position.pastAll_append, ← hp])
    exact hothers.skip hsource htoken htake

theorem scan_of_first? {p : Position} {text : List Char}
    (h : Pattern.first? text = some (q, taken, rest)) :
    scan p text = (scan (p.pastAll taken) rest).bind fun tokens =>
      match q.token? taken with
      | some (kind, value) => .ok (⟨kind, value, ⟨p, p.pastAll taken⟩⟩ :: tokens)
      | none => .ok tokens := by
  cases text with
  | nil => exact absurd (Pattern.length_lt_of_first? h) (Nat.not_lt_zero _)
  | cons c text =>
    rw [scan]
    split
    · rename_i hnone
      rw [hnone] at h
      cases h
    · rename_i hsome
      rw [hsome] at h
      cases h
      rfl

/-- Where scanning stops nothing matches, and what is in front of that place can be scanned. -/
theorem scan_front {p : Position} {text : List Char} {e : Error} (h : scan p text = .error e) :
    ∃ front c back, text = front ++ c :: back ∧ Pattern.first? (c :: back) = none ∧
      e = ⟨.unrecognisedToken (String.singleton c), p.pastAll front⟩ ∧
      ∃ tokens, scan p front = .ok tokens := by
  fun_induction scan p text generalizing e with
  | case1 => cases h
  | case2 p c text hnone =>
    cases h
    exact ⟨[], c, text, rfl, hnone, rfl, _, by rw [scan]⟩
  | case3 =>
    rename_i p c text q taken rest hfound stop ih
    have herror : scan stop rest = .error e := by
      cases hscan : scan stop rest with
      | error e' =>
        rw [hscan] at h
        cases h
        rfl
      | ok tokens =>
        rw [hscan] at h
        dsimp only [bind, Except.bind] at h
        split at h <;> cases h
    obtain ⟨front, c', back, rfl, hstuck, rfl, tokens, htokens⟩ := ih herror
    have htext := Pattern.take?_append (Pattern.first?_eq_some hfound).2
    rw [← htext] at hfound
    refine ⟨taken ++ front, c', back, by rw [← htext, List.append_assoc], hstuck,
      by rw [Position.pastAll_append], ?_⟩
    rw [scan_of_first? (Pattern.first?_front hstuck hfound), htokens]
    cases q.token? taken with
    | none => exact ⟨_, rfl⟩
    | some token => exact ⟨_, rfl⟩

theorem tiled_of_tokenize (h : tokenize source file = .ok tokens) :
    Tiled source file 0 tokens := by
  have htiled : Tiled source file (byteLength []) tokens := (scanned_of_scan h).tiled rfl rfl
  exact htiled

theorem stopped_of_tokenize {e : Error} (h : tokenize source file = .error e) :
    Stopped source file e := by
  obtain ⟨front, c, back, hsource, -, rfl, tokens, htokens⟩ := scan_front h
  have hafter : after (byteLength front) source.toList = c :: back := by
    rw [hsource, after_byteLength_append]
  have hbefore : before (byteLength front) source.toList = front := by
    rw [hsource, before_byteLength_append]
  refine ⟨isPlace_pastAll hsource, ⟨c, back, ?_, rfl⟩, tokens, ?_⟩
  · rw [origin_pastAll_offset, hafter]
  · rw [origin_pastAll_offset, hbefore, tokenize, String.toList_ofList, htokens]

end Frontend.Token
