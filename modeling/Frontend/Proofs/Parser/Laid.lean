import Frontend.Decimal.Numeral
import Frontend.Proofs.Tree.Pieces
import Frontend.Token

/-!
# Pieces laid over tokens

`Laid tokens pieces` says that the pieces stand in the tokens one behind the other: a token with a
word has it as a leaf, any other token has none, and a node runs from the start of a token to the
end of one not before it, with its parts laid over the tokens between these two. So the words of the
pieces are those of the tokens (`Laid.words`), and where the tokens stand one behind the other the
nodes nest (`Laid.nests`).
-/

namespace Frontend

/-- Whether tokens of this kind stand for a name or a literal. -/
def TokenKind.holdsWord : TokenKind → Bool
  | .identifier | .int | .uint | .float | .char | .string | .true | .false => Bool.true
  | _ => Bool.false

namespace Token

/-- The name or literal that a token stands for: a numeral for its value, and a character literal
for its first character. -/
def word? (t : Token) : Option Word :=
  match t.kind with
  | .identifier => some (.name t.value)
  | .int => (Numeral.int? t.value).map fun n => .literal (.int n)
  | .uint => (Numeral.uint? t.value).map fun n => .literal (.uint n)
  | .float => (Numeral.double? t.value).map fun x => .literal (.float x)
  | .char => t.value.toList.head?.map fun c => .literal (.char c)
  | .string => some (.literal (.string t.value))
  | .true => some (.literal (.bool true))
  | .false => some (.literal (.bool false))
  | _ => none

theorem holdsWord_of_word? {t : Token} {w : Word} (h : t.word? = some w) :
    t.kind.holdsWord = true := by
  unfold word? at h
  split at h <;> first | cases h; done | simp [TokenKind.holdsWord, *]

/-- The tokens stand one behind the other. -/
structure Ordered (tokens : List Token) : Prop where
  forward : ∀ t ∈ tokens, t.span.start.offset ≤ t.span.stop.offset
  increasing : tokens.Pairwise fun t u => t.span.stop.offset ≤ u.span.start.offset

namespace Ordered

variable {tokens run front back : List Token} {t u : Token}

theorem sublist (h : Ordered tokens) (hrun : run.Sublist tokens) : Ordered run :=
  ⟨fun t ht => h.forward t (hrun.subset ht), h.increasing.sublist hrun⟩

/-- The first token begins before all others. -/
theorem first_le (h : Ordered tokens) (hu : tokens.head? = some u) (ht : t ∈ tokens) :
    u.span.start.offset ≤ t.span.start.offset := by
  obtain ⟨rest, rfl⟩ := List.head?_eq_some_iff.mp hu
  obtain rfl | hrest := List.mem_cons.mp ht
  · exact Nat.le_refl _
  · have hle := h.forward u List.mem_cons_self
    have hle' := List.rel_of_pairwise_cons h.increasing hrest
    omega

/-- The last token ends behind all others. -/
theorem le_last (h : Ordered tokens) (hu : tokens.getLast? = some u) (ht : t ∈ tokens) :
    t.span.stop.offset ≤ u.span.stop.offset := by
  obtain ⟨rest, rfl⟩ := List.getLast?_eq_some_iff.mp hu
  obtain hrest | hlast := List.mem_append.mp ht
  · have hle := h.forward u (List.mem_append_right _ List.mem_cons_self)
    have hle' := (List.pairwise_append.mp h.increasing).2.2 t hrest u List.mem_cons_self
    omega
  · obtain rfl := List.mem_singleton.mp hlast
    exact Nat.le_refl _

end Ordered

end Token

namespace Span

/-- A span runs from the start of the first token to the end of the last one. -/
structure Covers (span : Span) (tokens : List Token) : Prop where
  start : tokens.head?.map (·.span.start) = some span.start
  stop : tokens.getLast?.map (·.span.stop) = some span.stop

/-- Spans lie inside another one, each behind the one before it. -/
structure Nests (outer : Span) (spans : List Span) : Prop where
  inside : ∀ span ∈ spans,
    outer.start.offset ≤ span.start.offset ∧ span.stop.offset ≤ outer.stop.offset
  apart : spans.Pairwise fun a b => a.stop.offset ≤ b.start.offset

theorem Covers.ends {span : Span} {tokens : List Token} (h : span.Covers tokens) :
    ∃ first last, tokens.head? = some first ∧ first.span.start = span.start ∧
      tokens.getLast? = some last ∧ last.span.stop = span.stop := by
  obtain ⟨first, hfirst, hstart⟩ := Option.map_eq_some_iff.mp h.start
  obtain ⟨last, hlast, hstop⟩ := Option.map_eq_some_iff.mp h.stop
  exact ⟨first, last, hfirst, hstart, hlast, hstop⟩

end Span

/-- The pieces stand in the tokens one behind the other. -/
inductive Laid : List Token → List Piece → Prop
  | nil : Laid [] []
  | mark {t : Token} : t.kind.holdsWord = false → Laid [t] []
  | word {t : Token} {w : Word} : t.word? = some w → Laid [t] [.word w]
  | node {tokens : List Token} {info : NodeInfo} {parts : List Piece} :
      info.span.Covers tokens → Laid tokens parts → Laid tokens [.node info parts]
  | append {front back : List Token} {ps qs : List Piece} :
      Laid front ps → Laid back qs → Laid (front ++ back) (ps ++ qs)

namespace Laid

variable {tokens : List Token} {pieces : List Piece}

/-- The words of the pieces are those of the tokens, in their order. -/
theorem words (h : Laid tokens pieces) :
    (tokens.filter (·.kind.holdsWord)).map Token.word? =
      (Piece.wordsOfAll pieces).map some := by
  rw [Piece.wordsOfAll_eq]
  induction h with
  | nil => rfl
  | mark hkind => simp [hkind]
  | word hword => simp [Token.holdsWord_of_word? hword, hword, Piece.words]
  | node _ _ ih => simpa [Piece.words, Piece.wordsOfAll_eq] using ih
  | append _ _ ih ih' => simp [ih, ih']

/-- Pieces need tokens to stand in. -/
theorem tokens_ne_nil (h : Laid tokens pieces) (hpieces : pieces ≠ []) : tokens ≠ [] := by
  induction h with
  | nil => exact absurd rfl hpieces
  | mark | word => exact List.cons_ne_nil _ _
  | node hcovers =>
    rintro rfl
    cases hcovers.start
  | @append front back ps qs _ _ ih ih' =>
    rw [ne_eq, List.append_eq_nil_iff, not_and_or] at hpieces ⊢
    exact hpieces.imp ih ih'

/-- What is in front of a first node does not hold any word, and the tokens from the start of that
node on hold all pieces. -/
theorem split_node {info : NodeInfo} {parts rest : List Piece}
    (h : Laid tokens (.node info parts :: rest)) :
    ∃ front back, tokens = front ++ back ∧ Laid front [] ∧
      Laid back (.node info parts :: rest) ∧
        back.head?.map (·.span.start) = some info.span.start := by
  generalize hall : Piece.node info parts :: rest = all at h
  induction h generalizing info parts rest with
  | nil | mark | word => cases hall
  | node hcovers hlaid =>
    cases hall
    exact ⟨[], _, rfl, .nil, .node hcovers hlaid, hcovers.start⟩
  | @append front back ps qs hfront hback ih ih' =>
    cases ps with
    | nil =>
      obtain ⟨mid, last, rfl, hmid, hlast, hstart⟩ := ih' hall
      exact ⟨front ++ mid, last, (List.append_assoc ..).symm, .append hfront hmid, hlast, hstart⟩
    | cons p ps =>
      obtain ⟨rfl, rfl⟩ := List.cons.inj hall
      obtain ⟨first, mid, rfl, hfirst, hmid, hstart⟩ := ih rfl
      refine ⟨first, mid ++ back, List.append_assoc .., hfirst, .append hmid hback, ?_⟩
      cases mid with
      | nil => cases hstart
      | cons => exact hstart

/-- A node stands on its own in a run of the tokens. -/
theorem of_mem_nodes (h : Laid tokens pieces) :
    ∀ node ∈ Piece.nodesOfAll pieces,
      ∃ run, run <:+: tokens ∧ node.1.span.Covers run ∧ Laid run node.2 := by
  induction h with
  | nil | mark | word => nofun
  | node hcovers hlaid ih =>
    simp only [Piece.nodesOfAll, Piece.nodes, List.append_nil, List.forall_mem_cons]
    exact ⟨⟨_, List.infix_rfl, hcovers, hlaid⟩, ih⟩
  | append _ _ ih ih' =>
    simp only [Piece.nodesOfAll_eq, List.flatMap_append, List.forall_mem_append] at ih ih' ⊢
    refine ⟨fun node hnode => ?_, fun node hnode => ?_⟩
    · obtain ⟨run, hrun, hnode⟩ := ih node hnode
      exact ⟨run, hrun.trans (List.prefix_append ..).isInfix, hnode⟩
    · obtain ⟨run, hrun, hnode⟩ := ih' node hnode
      exact ⟨run, hrun.trans (List.suffix_append ..).isInfix, hnode⟩

/-- Each span among the pieces covers some of the tokens. -/
theorem of_mem_spans (h : Laid tokens pieces) :
    ∀ span ∈ pieces.filterMap Piece.span?, ∃ run, run <:+: tokens ∧ span.Covers run := by
  intro span hspan
  obtain ⟨p, hp, hspan⟩ := List.mem_filterMap.mp hspan
  cases p with
  | word => cases hspan
  | node info parts =>
    cases hspan
    have hnode : (info, parts) ∈ Piece.nodesOfAll pieces := by
      rw [Piece.nodesOfAll_eq]
      exact List.mem_flatMap.mpr ⟨_, hp, List.mem_cons_self⟩
    obtain ⟨run, hrun, hcovers, -⟩ := h.of_mem_nodes _ hnode
    exact ⟨run, hrun, hcovers⟩

/-- In tokens that stand one behind the other, so do the pieces. -/
theorem spans_apart (h : Laid tokens pieces) (ho : Token.Ordered tokens) :
    (pieces.filterMap Piece.span?).Pairwise fun a b => a.stop.offset ≤ b.start.offset := by
  induction h with
  | nil | mark | word => exact .nil
  | node => exact List.pairwise_singleton ..
  | append hfront hback ih ih' =>
    rw [List.filterMap_append, List.pairwise_append]
    refine ⟨ih (ho.sublist (List.sublist_append_left ..)),
      ih' (ho.sublist (List.sublist_append_right ..)), fun a ha b hb => ?_⟩
    -- the end of the one is that of a token in front, the start of the other that of one behind
    obtain ⟨run, hrun, hcovers⟩ := hfront.of_mem_spans a ha
    obtain ⟨run', hrun', hcovers'⟩ := hback.of_mem_spans b hb
    obtain ⟨-, last, -, -, hlast, hstop⟩ := hcovers.ends
    obtain ⟨first, -, hfirst, hstart, -⟩ := hcovers'.ends
    rw [← hstop, ← hstart]
    exact (List.pairwise_append.mp ho.increasing).2.2 last
      (hrun.subset (List.mem_of_getLast? hlast)) first (hrun'.subset (List.mem_of_head? hfirst))

/-- In tokens that stand one behind the other, a node has its parts inside and one behind the
other. -/
theorem nests {span : Span} (h : Laid tokens pieces) (hspan : span.Covers tokens)
    (ho : Token.Ordered tokens) : span.Nests (pieces.filterMap Piece.span?) := by
  refine ⟨fun part hpart => ?_, h.spans_apart ho⟩
  obtain ⟨run, hrun, hcovers⟩ := h.of_mem_spans part hpart
  obtain ⟨first, last, hfirst, hstart, hlast, hstop⟩ := hspan.ends
  obtain ⟨first', last', hfirst', hstart', hlast', hstop'⟩ := hcovers.ends
  rw [← hstart, ← hstop, ← hstart', ← hstop']
  exact ⟨ho.first_le hfirst (hrun.subset (List.mem_of_head? hfirst')),
    ho.le_last hlast (hrun.subset (List.mem_of_getLast? hlast'))⟩

end Laid

end Frontend
