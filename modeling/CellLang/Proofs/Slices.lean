import CellLang.Proofs.Arrangement
import CellLang.Proofs.Balance
import CellLang.Proofs.Shifting
import Mathlib.Data.String.Basic

/-!
# Slices of a text

The span of a form, at any depth, is the part of the text that spells it: cut out and read alone,
that part is the same form, only further to the left. This rests on two facts about the tokens of a
text. They stand one after the other, so the first and the last token of a form bound it and its
items lie strictly between; and the text may be cut before and behind any of them, since what the
scanner makes of a text does not depend on what stands to its left, or to its right behind a lexeme.
-/

namespace CellLang

open Text

namespace Token

/-! ## Tokens in order -/

/-- No token is empty, and they stand one after the other. -/
structure InOrder (ts : List Token) : Prop where
  nonempty : ∀ t ∈ ts, t.span.start < t.span.stop
  apart : ts.Pairwise fun t u => t.span.stop ≤ u.span.start

theorem InOrder.of_append {a b : List Token} (h : InOrder (a ++ b)) : InOrder a ∧ InOrder b := by
  obtain ⟨ha, hb, _⟩ := List.pairwise_append.1 h.apart
  exact ⟨⟨fun t ht => h.nonempty t (List.mem_append_left b ht), ha⟩,
    ⟨fun t ht => h.nonempty t (List.mem_append_right a ht), hb⟩⟩

theorem InOrder.inside {t u : Token} {inside rest : List Token}
    (h : InOrder (t :: (inside ++ u :: rest))) : InOrder inside := by
  have hsplit : InOrder ([t] ++ (inside ++ u :: rest)) := h
  exact hsplit.of_append.2.of_append.1

theorem byteLength_lexeme_pos {l : Lexeme} (hl : IsLexeme l) : 0 < byteLength l.text.toList := by
  cases l with
  | opening => decide
  | closing => decide
  | atom t =>
    obtain ⟨c, cs, hcs⟩ := List.exists_cons_of_ne_nil hl.1
    show 0 < byteLength t.toList
    rw [hcs, byteLength]
    have hpos := c.utf8Size_pos
    omega

theorem le_start_of_mem_placed {offset : Nat} {ps : List Piece} {t : Token}
    (h : t ∈ placed offset ps) : offset ≤ t.span.start := by
  induction ps generalizing offset with
  | nil => cases h
  | cons p ps ih =>
    rcases List.mem_cons.1 h with h | h
    · rw [h]
      exact Nat.le_add_right _ _
    · have hle := ih h
      omega

theorem inOrder_placed {ps : List Piece} {last : List Char} (h : Arranged ps last)
    (offset : Nat) : InOrder (placed offset ps) := by
  induction ps generalizing offset with
  | nil => exact ⟨nofun, .nil⟩
  | cons p ps ih =>
    obtain ⟨_, hlexeme, _, hrest⟩ := h
    have hpos := byteLength_lexeme_pos hlexeme
    obtain ⟨hnonempty, hapart⟩ := ih hrest
      (offset + byteLength p.gap + byteLength p.lexeme.text.toList)
    constructor
    · intro t ht
      rcases List.mem_cons.1 ht with ht | ht
      · rw [ht]
        show offset + byteLength p.gap <
          offset + byteLength p.gap + byteLength p.lexeme.text.toList
        omega
      · exact hnonempty t ht
    · exact List.pairwise_cons.2 ⟨fun t => le_start_of_mem_placed, hapart⟩

theorem inOrder_scan (source : String) : InOrder (scan source) := by
  obtain ⟨ps, last, harranged, _, hplaces⟩ := exists_placed source
  rw [← hplaces]
  exact inOrder_placed harranged 0

/-- Tokens behind the last gap end where the text does. -/
theorem stop_of_placed {offset : Nat} {ps : List Piece} {t : Token}
    (h : (placed offset ps).getLast? = some t) :
    t.span.stop = offset + byteLength (chars ps []) := by
  induction ps generalizing offset with
  | nil => cases h
  | cons p ps ih =>
    cases ps with
    | nil =>
      have ht := Option.some.inj h
      show t.span.stop = offset + byteLength (p.gap ++ (p.lexeme.text.toList ++ []))
      rw [← ht, List.append_nil, byteLength_append, ← Nat.add_assoc]
      rfl
    | cons q ps =>
      have hlast := ih (h : (placed _ (q :: ps)).getLast? = some t)
      show t.span.stop =
        offset + byteLength (p.gap ++ (p.lexeme.text.toList ++ chars (q :: ps) []))
      rw [hlast, byteLength_append, byteLength_append]
      omega

end Token

namespace Form

open Token

/-! ## The tokens of a form -/

theorem Spelt.of_cons {ts : List Token} {f : Form} {fs : List Form} (h : Spelt ts (f :: fs)) :
    ∃ a b, ts = a ++ b ∧ Spelt a [f] ∧ Spelt b fs := by
  cases h with
  | @atom t s ts _ hrest => exact ⟨[⟨.atom t, s⟩], ts, rfl, .atom t s .nil, hrest⟩
  | @list first last inside ts items _ hinside hrest =>
    refine ⟨⟨.opening, first⟩ :: (inside ++ [⟨.closing, last⟩]), ts, by simp, ?_, hrest⟩
    exact .list first last hinside .nil

theorem Spelt.nil_of_nil {ts : List Token} (h : Spelt ts []) : ts = [] := by
  cases h
  rfl

/-- A form reaches from its first token to its last one. -/
theorem Spelt.span_eq {ts : List Token} {f : Form} (h : Spelt ts [f]) (horder : InOrder ts) :
    ∃ first last, ts.head? = some first ∧ ts.getLast? = some last ∧
      f.span = ⟨first.span.start, last.span.stop⟩ ∧ first.span.start < last.span.stop := by
  cases h with
  | atom t s hrest =>
    rw [hrest.nil_of_nil] at horder ⊢
    exact ⟨_, _, rfl, rfl, rfl, horder.nonempty _ List.mem_cons_self⟩
  | @list first last inside ts items _ hinside hrest =>
    rw [hrest.nil_of_nil] at horder ⊢
    obtain ⟨hnonempty, hapart⟩ := horder
    have hfirst := hnonempty ⟨.opening, first⟩ List.mem_cons_self
    have hlast := hnonempty ⟨.closing, last⟩ (by simp)
    have hbetween := (List.pairwise_cons.1 hapart).1 ⟨.closing, last⟩ (by simp)
    have hend : (⟨.opening, first⟩ :: (inside ++ [⟨.closing, last⟩])).getLast? =
        some ⟨.closing, last⟩ := by
      rw [← List.cons_append, List.getLast?_concat]
    refine ⟨⟨.opening, first⟩, ⟨.closing, last⟩, rfl, hend, ?_, ?_⟩
    · show (⟨min first.start last.start, max first.stop last.stop⟩ : Span) = _
      dsimp only at hfirst hlast hbetween
      rw [Nat.min_eq_left (by omega), Nat.max_eq_right (by omega)]
    · dsimp only at hfirst hlast hbetween ⊢
      omega

theorem Spelt.span_of_mem {ts : List Token} {fs : List Form} (h : Spelt ts fs)
    (horder : InOrder ts) {f : Form} (hf : f ∈ fs) :
    ∃ first ∈ ts, ∃ last ∈ ts, f.span = ⟨first.span.start, last.span.stop⟩ := by
  induction fs generalizing ts with
  | nil => cases hf
  | cons g fs ih =>
    obtain ⟨a, b, rfl, ha, hb⟩ := h.of_cons
    obtain ⟨horderA, horderB⟩ := horder.of_append
    rcases List.mem_cons.1 hf with rfl | hf
    · obtain ⟨first, last, hfirst, hlast, hspan, _⟩ := ha.span_eq horderA
      exact ⟨first, List.mem_append_left b (List.mem_of_head? hfirst), last,
        List.mem_append_left b (List.mem_of_getLast? hlast), hspan⟩
    · obtain ⟨first, hfirst, last, hlast, hspan⟩ := ih hb horderB hf
      exact ⟨first, List.mem_append_right a hfirst, last, List.mem_append_right a hlast, hspan⟩

/-- The forms stand one after the other. -/
def Apart (fs : List Form) : Prop := fs.Pairwise fun f g => f.span.stop ≤ g.span.start

theorem Spelt.apart {ts : List Token} {fs : List Form} (h : Spelt ts fs) (horder : InOrder ts) :
    Apart fs := by
  induction fs generalizing ts with
  | nil => exact .nil
  | cons f fs ih =>
    obtain ⟨a, b, rfl, ha, hb⟩ := h.of_cons
    obtain ⟨horderA, horderB⟩ := horder.of_append
    refine List.pairwise_cons.2 ⟨fun g hg => ?_, ih hb horderB⟩
    obtain ⟨_, _, last, hlast, hspan⟩ := ha.span_of_mem horderA (List.mem_singleton_self f)
    obtain ⟨first, hfirst, _, _, hspan'⟩ := hb.span_of_mem horderB hg
    rw [hspan, hspan']
    exact (List.pairwise_append.1 horder.apart).2.2 last hlast first hfirst

/-- The items of a list stand one after the other, strictly between its parentheses. -/
theorem Spelt.items {ts : List Token} {items : List Form} {s : Span}
    (h : Spelt ts [.list items s]) (horder : InOrder ts) :
    Apart items ∧ ∀ y ∈ items, s.start < y.span.start ∧ y.span.stop < s.stop := by
  cases h with
  | @list first last inside ts _ _ hinside hrest =>
    rw [hrest.nil_of_nil] at horder
    obtain ⟨hopening, hothers⟩ := List.pairwise_cons.1 horder.apart
    obtain ⟨_, _, hclosing⟩ := List.pairwise_append.1 hothers
    have hfirst := horder.nonempty ⟨.opening, first⟩ List.mem_cons_self
    have hlast := horder.nonempty ⟨.closing, last⟩ (by simp)
    have horderInside : InOrder inside := horder.inside
    refine ⟨hinside.apart horderInside, fun y hy => ?_⟩
    obtain ⟨t, ht, u, hu, hspan⟩ := hinside.span_of_mem horderInside hy
    have hleft := hopening t (List.mem_append_left _ ht)
    have hright := hclosing u hu ⟨.closing, last⟩ (by simp)
    rw [hspan]
    dsimp only at *
    omega

/-! ## Forms at any depth -/

/-- The form is one of the given ones or is nested in one of them. -/
inductive Within (x : Form) : List Form → Prop
  | here {fs : List Form} : x ∈ fs → Within x fs
  | inside {fs items : List Form} {s : Span} : .list items s ∈ fs → Within x items → Within x fs

theorem Spelt.exists_tokens {ts : List Token} {fs : List Form} (h : Spelt ts fs) {f : Form}
    (hf : f ∈ fs) : ∃ front middle back, ts = front ++ (middle ++ back) ∧ Spelt middle [f] := by
  induction fs generalizing ts with
  | nil => cases hf
  | cons g fs ih =>
    obtain ⟨a, b, rfl, ha, hb⟩ := h.of_cons
    rcases List.mem_cons.1 hf with rfl | hf
    · exact ⟨[], a, b, rfl, ha⟩
    · obtain ⟨front, middle, back, rfl, hmiddle⟩ := ih hb hf
      exact ⟨a ++ front, middle, back, by simp, hmiddle⟩

/-- A form at any depth is spelt by tokens in a row. -/
theorem Within.exists_tokens {x : Form} {fs : List Form} (h : Within x fs) {ts : List Token}
    (hts : Spelt ts fs) :
    ∃ front middle back, ts = front ++ (middle ++ back) ∧ Spelt middle [x] := by
  induction h generalizing ts with
  | here hx => exact hts.exists_tokens hx
  | inside hlist _ ih =>
    obtain ⟨front, middle, back, rfl, hmiddle⟩ := hts.exists_tokens hlist
    cases hmiddle with
    | @list first last inside rest _ _ hinside _ =>
      obtain ⟨front', middle', back', rfl, hx⟩ := ih hinside
      refine ⟨front ++ ⟨.opening, first⟩ :: front', middle',
        back' ++ ⟨.closing, last⟩ :: (rest ++ back), ?_, hx⟩
      simp

/-! ## Reading a slice -/

theorem opens_map_shift (k : Nat) (ts : List Token) :
    opens (ts.map (Token.shift k)) = opens ts := by
  rw [opens, List.map_map]
  rfl

theorem closes_map_shift (k : Nat) (ts : List Token) :
    closes (ts.map (Token.shift k)) = closes ts := by
  rw [closes, List.map_map]
  rfl

/-- What tokens spell further to the right, they spell further to the left. -/
theorem exists_ofTokens_of_shift {k : Nat} {ts : List Token} {fs : List Form}
    (h : Spelt (ts.map (Token.shift k)) fs) :
    ∃ gs, ofTokens ts = .ok gs ∧ gs.map (shift k) = fs := by
  have hbalanced : Balanced ts := by
    obtain ⟨hno, hlevel⟩ := h.balanced
    rw [opens_map_shift, closes_map_shift] at hlevel
    refine ⟨fun p hp => ?_, hlevel⟩
    have hle := hno _ (hp.map (Token.shift k))
    rw [opens_map_shift, closes_map_shift] at hle
    exact hle
  obtain ⟨gs, hgs⟩ := (exists_ofTokens_iff ts).2 hbalanced
  have hshifted := readWith_shift k hgs
  have hfs := ofTokens_eq_ok_iff.2 h
  exact ⟨gs, hgs, Except.ok.inj (hshifted.symm.trans hfs)⟩

/-- The span of a form is the part of the text that is read as that form. -/
theorem exists_part {source : String} {forms : List Form} (h : read source = .ok forms) {x : Form}
    (hx : Within x forms) :
    ∃ part y, x.span.Covers source part ∧ x.span.start < x.span.stop ∧
      read part = .ok [y] ∧ y.shift x.span.start = x := by
  obtain ⟨front, middle, back, hts, hmiddle⟩ := hx.exists_tokens (ofTokens_eq_ok_iff.1 h)
  have horder : InOrder middle := by
    have hall := inOrder_scan source
    rw [hts] at hall
    exact hall.of_append.2.of_append.1
  obtain ⟨first, last, hfirst, hlast, hspan, hlt⟩ := hmiddle.span_eq horder
  obtain ⟨ps, gap, harranged, hchars, hplaces⟩ := exists_placed source
  rw [hts] at hplaces
  cases middle with
  | nil => cases hfirst
  | cons t middle =>
    obtain ⟨before, qs, after, hcut, hpart, hplaced⟩ := exists_cut harranged hplaces
    rw [hchars] at hcut
    generalize hinner : chars (⟨[], t.lexeme⟩ :: qs) [] = inner at hcut
    have hstart : first.span.start = byteLength before := by
      obtain ⟨ht, _⟩ := List.cons.inj hplaced
      rw [← Option.some.inj hfirst, ← ht]
      rfl
    have hstop : last.span.stop = byteLength before + byteLength inner := by
      rw [← hinner]
      apply stop_of_placed
      rw [hplaced]
      exact hlast
    rw [hstart, hstop] at hspan
    -- the tokens of the part, counted from its own beginning
    have htokens : (scanFrom 0 inner).map (Token.shift (byteLength before)) = t :: middle := by
      rw [← scanFrom_add, Nat.zero_add, ← hinner, scanFrom_chars hpart, hplaced]
    rw [← htokens] at hmiddle
    obtain ⟨gs, hgs, hshift⟩ := exists_ofTokens_of_shift hmiddle
    obtain ⟨y, rfl, hy⟩ := List.map_eq_singleton_iff.1 hshift
    refine ⟨String.ofList inner, y, ?_, ?_, ?_, ?_⟩
    · rw [hspan]
      exact Span.covers_of_toList hcut
    · rw [hspan]
      dsimp only
      omega
    · rw [read, scan, String.toList_ofList]
      exact hgs
    · rw [hspan]
      exact hy

end Form

/-! ## Byte ranges of a text -/

namespace Span

/-- The bytes of the text in the span. -/
def slice (s : Span) (source : String) : String :=
  String.Pos.Raw.extract source ⟨s.start⟩ ⟨s.stop⟩

/-- Both ends of the span are between two characters of the text, or at one of its ends. -/
def OnBoundaries (s : Span) (source : String) : Prop :=
  String.Pos.Raw.IsValid source ⟨s.start⟩ ∧ String.Pos.Raw.IsValid source ⟨s.stop⟩

theorem Covers.stop_le {s : Span} {source part : String} (h : s.Covers source part) :
    s.stop ≤ source.utf8ByteSize := by
  obtain ⟨before, after, rfl, rfl⟩ := h
  rw [String.utf8ByteSize_append, String.utf8ByteSize_append]
  exact Nat.le_add_right _ _

theorem Covers.onBoundaries {s : Span} {source part : String} (h : s.Covers source part) :
    s.OnBoundaries source := by
  obtain ⟨before, after, rfl, rfl⟩ := h
  constructor
  · apply String.Pos.Raw.isValid_iff_exists_append.2
    exact ⟨before, part ++ after, by rw [String.append_assoc], rfl⟩
  · apply String.Pos.Raw.isValid_iff_exists_append.2
    refine ⟨before ++ part, after, rfl, ?_⟩
    apply String.Pos.Raw.ext
    show _ = (before ++ part).utf8ByteSize
    rw [String.utf8ByteSize_append]

theorem Covers.slice_eq {s : Span} {source part : String} (h : s.Covers source part) :
    s.slice source = part := by
  obtain ⟨before, after, rfl, rfl⟩ := h
  have hbefore : before.utf8ByteSize = String.utf8Len before.toList + 0 := by
    rw [Nat.add_zero, ← String.utf8ByteSize_ofList, String.ofList_toList]
  have hpart : before.utf8ByteSize + part.utf8ByteSize =
      String.utf8Len part.toList + before.utf8ByteSize := by
    rw [Nat.add_comm, ← String.utf8ByteSize_ofList, String.ofList_toList]
  rw [slice, String.Pos.Raw.extract]
  split
  · next hempty =>
    have hzero : part.utf8ByteSize = 0 := by
      dsimp only at hempty
      omega
    exact (String.utf8ByteSize_eq_zero_iff.1 hzero).symm
  · rw [String.toList_append, String.toList_append, List.append_assoc]
    have hskip := String.Pos.Raw.extract.go₁_append_right before.toList
      (part.toList ++ after.toList) 0 before.utf8ByteSize
      ⟨before.utf8ByteSize + part.utf8ByteSize⟩ hbefore
    have htake := String.Pos.Raw.extract.go₂_append_left part.toList after.toList
      before.utf8ByteSize (before.utf8ByteSize + part.utf8ByteSize) hpart
    show String.ofList (String.Pos.Raw.extract.go₁ _ ⟨0⟩ _ _) = part
    rw [hskip, htake, String.ofList_toList]

end Span

namespace Form

/-- Spans are exact. For every text that can be read, the span of each form and of each form nested
in one is a range of bytes of the text, not empty and between characters. The text in it is read as
that form alone, which stands further to the right in the whole text by the start of the span. The
items of a list stand one after the other strictly inside its span, and so do the forms of the
text. -/
theorem spans_are_exact {source : String} {forms : List Form} (h : read source = .ok forms) :
    (∀ x, Within x forms →
      x.span.start < x.span.stop ∧ x.span.stop ≤ source.utf8ByteSize ∧
      x.span.OnBoundaries source ∧
      (∃ y, read (x.span.slice source) = .ok [y] ∧ y.shift x.span.start = x) ∧
      ∀ items s, x = .list items s →
        Apart items ∧ ∀ y ∈ items, s.start < y.span.start ∧ y.span.stop < s.stop) ∧
    Apart forms := by
  have hspelt : Spelt (Token.scan source) forms := ofTokens_eq_ok_iff.1 h
  have horder := Token.inOrder_scan source
  refine ⟨fun x hx => ?_, hspelt.apart horder⟩
  obtain ⟨part, y, hcovers, hlt, hread, hy⟩ := exists_part h hx
  refine ⟨hlt, hcovers.stop_le, hcovers.onBoundaries, ⟨y, ?_, hy⟩, fun items s hlist => ?_⟩
  · rw [hcovers.slice_eq]
    exact hread
  · obtain ⟨front, middle, back, hts, hmiddle⟩ := hx.exists_tokens hspelt
    rw [hts] at horder
    rw [hlist] at hmiddle
    exact hmiddle.items horder.of_append.2.of_append.1

theorem spans_are_exact_around_comment :
    let source := "a (é ;)\n (b))"
    let inner : Form := .list [.atom "b" ⟨11, 12⟩] ⟨10, 13⟩
    let forms : List Form := [.atom "a" ⟨0, 1⟩, .list [.atom "é" ⟨3, 5⟩, inner] ⟨2, 14⟩]
    read source = .ok forms ∧ Within inner forms ∧ inner.span.stop ≤ source.utf8ByteSize ∧
      ∃ y, read (inner.span.slice source) = .ok [y] ∧ y.shift 10 = inner := by
  intro source inner forms
  have hread : read source = .ok forms := by
    unfold source forms inner
    with_unfolding_all rfl
  have hwithin : Within inner forms := by
    have houter : Form.list [.atom "é" ⟨3, 5⟩, inner] ⟨2, 14⟩ ∈ forms := by simp [forms]
    have hinner : inner ∈ [.atom "é" ⟨3, 5⟩, inner] := by simp
    exact .inside houter (.here hinner)
  obtain ⟨_, hstop, _, hslice, _⟩ := (spans_are_exact hread).1 inner hwithin
  exact ⟨hread, hwithin, hstop, hslice⟩

end Form

end CellLang
