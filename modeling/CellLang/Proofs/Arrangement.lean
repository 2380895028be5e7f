import CellLang.Proofs.Spelling

/-!
# Arrangements of tokens

A text is an arrangement of tokens with gaps before, between and behind them. A gap consists of
blanks and comments, and may only be empty where no two atoms would run together. Every text has
such an arrangement, and the scanner gives back the tokens of any arrangement of the text, each at
its byte range; so they are the same for all of them.

The scanner is also compared with one that takes the longest match of five rules again and again and
gives up where none of them matches. The two have the same outcome: no text is refused.
-/

namespace CellLang

namespace Token

open Text

/-! ## The scanner on what may stand in a text -/

/-- A comment ends before the given text: at a line feed, or because nothing follows. -/
def LineEnds (rest : List Char) : Prop := ∀ c ∈ rest.head?, c = '\n'

theorem scanFrom_opening (offset : Nat) (cs : List Char) :
    scanFrom offset ('(' :: cs) = ⟨.opening, offset, offset + 1⟩ :: scanFrom (offset + 1) cs := by
  rw [scanFrom, if_pos rfl]

theorem scanFrom_closing (offset : Nat) (cs : List Char) :
    scanFrom offset (')' :: cs) = ⟨.closing, offset, offset + 1⟩ :: scanFrom (offset + 1) cs := by
  rw [scanFrom, if_neg (by decide), if_pos rfl]

theorem scanFrom_blanks {run : List Char} (hrun : ∀ c ∈ run, isBlank c = true) (offset : Nat)
    (rest : List Char) :
    scanFrom offset (run ++ rest) = scanFrom (offset + byteLength run) rest := by
  induction run generalizing offset with
  | nil => rfl
  | cons c run ih =>
    have hc := hrun c List.mem_cons_self
    have hnext := ih (fun a ha => hrun a (List.mem_cons_of_mem c ha)) (offset + c.utf8Size)
    rw [List.cons_append, scanFrom_blank hc, hnext, byteLength, Nat.add_assoc]

theorem scanFrom_comment {body rest : List Char} (hbody : ∀ c ∈ body, c ≠ '\n')
    (hrest : LineEnds rest) (offset : Nat) :
    scanFrom offset (';' :: (body ++ rest)) =
      scanFrom (offset + byteLength (';' :: body)) rest := by
  have hrun : ∀ c ∈ body, isCommentChar c = true := by
    intro c hc
    simp [isCommentChar, hbody c hc]
  have hends : ∀ c ∈ rest.head?, isCommentChar c = false := by
    intro c hc
    rw [hrest c hc]
    decide
  obtain ⟨htake, hdrop⟩ := takeWhile_dropWhile_run hrun hends
  have hsize : ';'.utf8Size = 1 := by decide
  rw [scanFrom, if_neg (by decide), if_neg (by decide), if_pos rfl, htake, hdrop, byteLength, hsize,
    Nat.add_assoc]

/-! ## Longest match -/

/-- What may stand at one place of a text: three kinds of tokens, and two kinds of text to skip. -/
inductive Rule where
  | opening
  | closing
  | word
  | blanks
  | comment

namespace Rule

def Matches : Rule → List Char → Prop
  | .opening, w => w = ['(']
  | .closing, w => w = [')']
  | .word, w => w ≠ [] ∧ ∀ c ∈ w, isAtomChar c = true
  | .blanks, w => w ≠ [] ∧ ∀ c ∈ w, isBlank c = true
  | .comment, w => ∃ body, w = ';' :: body ∧ ∀ c ∈ body, c ≠ '\n'

/-- The token that a match stands for, if it is not skipped. -/
def lexeme? : Rule → List Char → Option Lexeme
  | .opening, _ => some .opening
  | .closing, _ => some .closing
  | .word, w => some (.atom (String.ofList w))
  | .blanks, _ => none
  | .comment, _ => none

theorem Matches.ne_nil {r : Rule} {w : List Char} (h : r.Matches w) : w ≠ [] := by
  cases r with
  | opening => rw [h]; simp
  | closing => rw [h]; simp
  | word => exact h.1
  | blanks => exact h.1
  | comment =>
    obtain ⟨body, hw, _⟩ := h
    simp [hw]

/-- Every character is matched by some rule. -/
theorem exists_matches (c : Char) : ∃ r : Rule, r.Matches [c] := by
  by_cases hopen : c = '('
  · exact ⟨.opening, by rw [hopen]; rfl⟩
  by_cases hclose : c = ')'
  · exact ⟨.closing, by rw [hclose]; rfl⟩
  by_cases hcomment : c = ';'
  · exact ⟨.comment, [], by rw [hcomment], nofun⟩
  by_cases hblank : isBlank c = true
  · exact ⟨.blanks, by simp, by simpa using hblank⟩
  · have hatom := (isAtomChar_iff c).2 ⟨by simpa using hblank, hopen, hclose, hcomment⟩
    exact ⟨.word, by simp, by simpa using hatom⟩

end Rule

/-- The rule matches `w` at the start of the text, and no rule matches anything longer there. -/
structure Longest (cs : List Char) (r : Rule) (w rest : List Char) : Prop where
  split : cs = w ++ rest
  fits : r.Matches w
  longest : ∀ r' w', w' <+: cs → Rule.Matches r' w' → w'.length ≤ w.length

/-- Scanning by longest match. The outcome is the tokens, or `none` where no rule matches. -/
inductive Munches : Nat → List Char → Option (List Token) → Prop
  | done (offset : Nat) : Munches offset [] (some [])
  | skip {offset : Nat} {cs w rest : List Char} {r : Rule} {outcome : Option (List Token)} :
      Longest cs r w rest → r.lexeme? w = none → Munches (offset + byteLength w) rest outcome →
      Munches offset cs outcome
  | token {offset : Nat} {cs w rest : List Char} {r : Rule} {l : Lexeme}
      {outcome : Option (List Token)} : Longest cs r w rest → r.lexeme? w = some l →
      Munches (offset + byteLength w) rest outcome →
      Munches offset cs (outcome.map (⟨l, offset, offset + byteLength w⟩ :: ·))
  | stuck {offset : Nat} {cs : List Char} : cs ≠ [] →
      (∀ r w, w <+: cs → ¬ Rule.Matches r w) → Munches offset cs none

/-- A longest match cannot be longer by one character. -/
theorem Longest.not_matches {cs w rest : List Char} {r : Rule} {c : Char}
    (h : Longest cs r w (c :: rest)) : ¬ r.Matches (w ++ [c]) := by
  intro hmatches
  have hprefix : w ++ [c] <+: cs := ⟨rest, by rw [h.split]; simp⟩
  have hle := h.longest r (w ++ [c]) hprefix hmatches
  rw [List.length_append, List.length_singleton] at hle
  omega

/-- The scanner goes on behind a longest match, with its token if it has one. -/
theorem scanFrom_longest {cs w rest : List Char} {r : Rule} (h : Longest cs r w rest)
    (offset : Nat) :
    scanFrom offset cs =
      ((r.lexeme? w).map (⟨·, offset, offset + byteLength w⟩)).toList ++
        scanFrom (offset + byteLength w) rest := by
  rw [h.split]
  cases r with
  | opening =>
    rw [h.fits]
    exact scanFrom_opening offset rest
  | closing =>
    rw [h.fits]
    exact scanFrom_closing offset rest
  | word =>
    have hword : IsWord (String.ofList w) := by
      unfold IsWord
      rw [String.toList_ofList]
      exact h.fits
    have hparted : Parted rest := by
      intro c hc
      cases rest with
      | nil => cases hc
      | cons c' rest =>
        cases hc
        -- an atom character behind the word would make it longer
        cases hatom : isAtomChar c with
        | false => rfl
        | true =>
          refine absurd ⟨by simp, fun a ha => ?_⟩ h.not_matches
          rcases List.mem_append.1 ha with ha | ha
          · exact h.fits.2 a ha
          · rw [List.mem_singleton.1 ha, hatom]
    have hscan := scanFrom_word hword hparted offset
    rw [String.toList_ofList] at hscan
    exact hscan
  | blanks => exact scanFrom_blanks h.fits.2 offset rest
  | comment =>
    obtain ⟨body, hw, hbody⟩ := h.fits
    have hends : LineEnds rest := by
      intro c hc
      cases rest with
      | nil => cases hc
      | cons c' rest =>
        cases hc
        by_cases hc : c = '\n'
        · exact hc
        · refine absurd ⟨body ++ [c], by rw [hw]; rfl, fun a ha => ?_⟩ h.not_matches
          rcases List.mem_append.1 ha with ha | ha
          · exact hbody a ha
          · rw [List.mem_singleton.1 ha]
            exact hc
    rw [hw, List.cons_append]
    exact scanFrom_comment hbody hends offset

theorem eq_scanFrom_of_munches {offset : Nat} {cs : List Char} {outcome : Option (List Token)}
    (h : Munches offset cs outcome) : outcome = some (scanFrom offset cs) := by
  induction h with
  | done offset => simp [scanFrom]
  | skip hlongest hskip _ ih =>
    rw [ih, scanFrom_longest hlongest, hskip]
    rfl
  | token hlongest htoken _ ih =>
    rw [ih, scanFrom_longest hlongest, htoken]
    rfl
  | @stuck offset cs hne hnone =>
    obtain ⟨c, cs', hcs⟩ := List.exists_cons_of_ne_nil hne
    obtain ⟨r, hr⟩ := Rule.exists_matches c
    exact absurd hr (hnone r [c] ⟨cs', by rw [hcs]; rfl⟩)

/-- Where some rule matches, one has a longest match. -/
theorem exists_longest {cs w : List Char} {r : Rule} (hw : w <+: cs) (hr : r.Matches w) :
    ∃ r w rest, Longest cs r w rest := by
  -- the match can grow only as long as text is left
  induction hn : cs.length - w.length using Nat.strongRecOn generalizing r w with
  | ind n ih =>
    by_cases hlonger : ∃ r' w', w' <+: cs ∧ Rule.Matches r' w' ∧ w.length < w'.length
    · obtain ⟨r', w', hw', hr', hlt⟩ := hlonger
      have hle := hw'.length_le
      exact ih (cs.length - w'.length) (by omega) hw' hr' rfl
    · obtain ⟨rest, hrest⟩ := hw
      refine ⟨r, w, rest, hrest.symm, hr, fun r' w' hw' hr' => ?_⟩
      apply Nat.le_of_not_lt
      intro hlt
      exact hlonger ⟨r', w', hw', hr', hlt⟩

theorem exists_munches (offset : Nat) (cs : List Char) : ∃ outcome, Munches offset cs outcome := by
  induction hn : cs.length using Nat.strongRecOn generalizing offset cs with
  | ind n ih =>
    cases cs with
    | nil => exact ⟨_, .done offset⟩
    | cons c cs =>
      obtain ⟨r₀, hr₀⟩ := Rule.exists_matches c
      obtain ⟨r, w, rest, hlongest⟩ := exists_longest ⟨cs, rfl⟩ hr₀
      have hlength : w.length + rest.length = n := by
        rw [← List.length_append, ← hlongest.split]
        exact hn
      have hpos := List.length_pos_iff.2 hlongest.fits.ne_nil
      obtain ⟨outcome, hrest⟩ := ih rest.length (by omega) (offset + byteLength w) rest rfl
      cases hl : r.lexeme? w with
      | none => exact ⟨_, .skip hlongest hl hrest⟩
      | some l => exact ⟨_, .token hlongest hl hrest⟩

theorem munches_iff {offset : Nat} {cs : List Char} {outcome : Option (List Token)} :
    Munches offset cs outcome ↔ outcome = some (scanFrom offset cs) := by
  refine ⟨eq_scanFrom_of_munches, fun h => ?_⟩
  obtain ⟨found, hfound⟩ := exists_munches offset cs
  rw [h, ← eq_scanFrom_of_munches hfound]
  exact hfound

/-! ## Gaps and arrangements -/

/-- A sequence of blanks and comments that stands before the given rest of the text. -/
inductive Gap : List Char → List Char → Prop
  | nil (rest : List Char) : Gap [] rest
  | blank {c : Char} {gap rest : List Char} : isBlank c = true → Gap gap rest →
      Gap (c :: gap) rest
  | comment {body gap rest : List Char} : (∀ c ∈ body, c ≠ '\n') → LineEnds (gap ++ rest) →
      Gap gap rest → Gap (';' :: (body ++ gap)) rest

/-- A lexeme and the gap before it. -/
structure Piece where
  gap : List Char
  lexeme : Lexeme

/-- The lexeme may stand in a text: it is a parenthesis or a word. -/
def IsLexeme : Lexeme → Prop
  | .opening => True
  | .closing => True
  | .atom t => IsWord t

def IsAtom (l : Lexeme) : Prop := ∃ t, l = .atom t

theorem not_isAtom_opening : ¬ IsAtom .opening := by
  intro h
  obtain ⟨t, ht⟩ := h
  cases ht

theorem not_isAtom_closing : ¬ IsAtom .closing := by
  intro h
  obtain ⟨t, ht⟩ := h
  cases ht

/-- The text of the pieces with a last gap behind them. -/
def chars : List Piece → List Char → List Char
  | [], last => last
  | p :: ps, last => p.gap ++ (p.lexeme.text.toList ++ chars ps last)

/-- The gaps are gaps, the lexemes are lexemes, and two atoms next to each other do not touch. -/
def Arranged : List Piece → List Char → Prop
  | [], last => Gap last []
  | p :: ps, last =>
    Gap p.gap (p.lexeme.text.toList ++ chars ps last) ∧ IsLexeme p.lexeme ∧
      (∀ q ∈ ps.head?, IsAtom p.lexeme → IsAtom q.lexeme → q.gap ≠ []) ∧ Arranged ps last

/-- The tokens of the pieces: each lexeme with its byte range, counted from the given offset. -/
def placed : Nat → List Piece → List Token
  | _, [] => []
  | offset, p :: ps =>
    let start := offset + byteLength p.gap
    let stop := start + byteLength p.lexeme.text.toList
    ⟨p.lexeme, start, stop⟩ :: placed stop ps

theorem scanFrom_gap {gap rest : List Char} (h : Gap gap rest) (offset : Nat) :
    scanFrom offset (gap ++ rest) = scanFrom (offset + byteLength gap) rest := by
  induction h generalizing offset with
  | nil rest => rfl
  | blank hc _ ih => rw [List.cons_append, scanFrom_blank hc, ih, byteLength, Nat.add_assoc]
  | @comment body gap rest hbody hends _ ih =>
    rw [List.cons_append, List.append_assoc, scanFrom_comment hbody hends, ih, Nat.add_assoc,
      ← byteLength_append, List.cons_append]

/-- No word goes on into a gap. -/
theorem parted_of_gap {gap rest : List Char} (h : Gap gap rest) (hne : gap ≠ []) :
    Parted (gap ++ rest) := by
  intro a ha
  cases h with
  | nil => exact absurd rfl hne
  | blank hc _ =>
    cases ha
    exact isAtomChar_of_isBlank hc
  | comment _ _ _ =>
    cases ha
    decide

/-- No word goes on into what is arranged behind an atom. -/
theorem parted_of_arranged {ps : List Piece} {last : List Char} (h : Arranged ps last)
    (hnext : ∀ q ∈ ps.head?, IsAtom q.lexeme → q.gap ≠ []) : Parted (chars ps last) := by
  cases ps with
  | nil =>
    by_cases hne : last = []
    · rw [hne]
      exact nofun
    · have hparted := parted_of_gap h hne
      rw [List.append_nil] at hparted
      exact hparted
  | cons q ps =>
    by_cases hne : q.gap = []
    · -- the next piece follows at once, so it is a parenthesis
      rw [chars, hne, List.nil_append]
      cases hl : q.lexeme with
      | opening =>
        intro a ha
        cases ha
        decide
      | closing =>
        intro a ha
        cases ha
        decide
      | atom t => exact absurd hne (hnext q rfl ⟨t, hl⟩)
    · exact parted_of_gap h.1 hne

theorem scanFrom_lexeme {l : Lexeme} (hl : IsLexeme l) {rest : List Char}
    (hrest : IsAtom l → Parted rest) (offset : Nat) :
    scanFrom offset (l.text.toList ++ rest) =
      ⟨l, offset, offset + byteLength l.text.toList⟩ ::
        scanFrom (offset + byteLength l.text.toList) rest := by
  cases l with
  | opening => exact scanFrom_opening offset rest
  | closing => exact scanFrom_closing offset rest
  | atom t => exact scanFrom_word hl (hrest ⟨t, rfl⟩) offset

/-- Any arrangement of the text has the tokens that the scanner finds. -/
theorem scanFrom_chars {ps : List Piece} {last : List Char} (h : Arranged ps last)
    (offset : Nat) : scanFrom offset (chars ps last) = placed offset ps := by
  induction ps generalizing offset with
  | nil =>
    have hscan := scanFrom_gap h offset
    rw [List.append_nil] at hscan
    rw [chars, hscan]
    simp [scanFrom, placed]
  | cons p ps ih =>
    obtain ⟨hgap, hlexeme, hapart, hrest⟩ := h
    have hparted : IsAtom p.lexeme → Parted (chars ps last) :=
      fun hatom => parted_of_arranged hrest fun q hq => hapart q hq hatom
    rw [chars, scanFrom_gap hgap, scanFrom_lexeme hlexeme hparted, ih hrest]
    rfl

/-- Text in front that makes a gap longer. -/
theorem exists_arranged_of_gap {front cs : List Char}
    (hfront : ∀ gap rest, gap ++ rest = cs → Gap gap rest → Gap (front ++ gap) rest)
    (h : ∃ ps last, Arranged ps last ∧ chars ps last = cs) :
    ∃ ps last, Arranged ps last ∧ chars ps last = front ++ cs := by
  obtain ⟨ps, last, harranged, hcs⟩ := h
  cases ps with
  | nil =>
    refine ⟨[], front ++ last, hfront last [] ?_ harranged, ?_⟩
    · rw [List.append_nil]
      exact hcs
    · rw [chars, ← hcs, chars]
  | cons p ps =>
    obtain ⟨hgap, hrest⟩ := harranged
    refine ⟨⟨front ++ p.gap, p.lexeme⟩ :: ps, last, ⟨hfront _ _ hcs hgap, hrest⟩, ?_⟩
    rw [chars, List.append_assoc, ← hcs, chars]

/-- A lexeme in front, with no gap before it. -/
theorem exists_arranged_of_lexeme {l : Lexeme} (hl : IsLexeme l) {cs : List Char}
    (hparted : IsAtom l → Parted cs) (h : ∃ ps last, Arranged ps last ∧ chars ps last = cs) :
    ∃ ps last, Arranged ps last ∧ chars ps last = l.text.toList ++ cs := by
  obtain ⟨ps, last, harranged, hcs⟩ := h
  refine ⟨⟨[], l⟩ :: ps, last, ⟨.nil _, hl, fun q hq hatom hnext hempty => ?_, harranged⟩, ?_⟩
  · -- a touching atom would begin with a character that goes on the word
    obtain ⟨t, ht⟩ := hnext
    cases ps with
    | nil => cases hq
    | cons q' ps =>
      cases hq
      obtain ⟨_, hword, _⟩ := harranged
      rw [ht] at hword
      obtain ⟨c, tail, htext⟩ := List.exists_cons_of_ne_nil hword.1
      have hhead : (chars (q :: ps) last).head? = some c := by
        rw [chars, hempty, ht, List.nil_append, Lexeme.text, htext]
        rfl
      have hc : isAtomChar c = true := hword.2 c (by rw [htext]; exact List.mem_cons_self)
      rw [hcs] at hhead
      have hfalse := hparted hatom c hhead
      rw [hc] at hfalse
      cases hfalse
  · rw [chars, List.nil_append, hcs]

theorem exists_arranged (cs : List Char) : ∃ ps last, Arranged ps last ∧ chars ps last = cs := by
  induction (0 : Nat), cs using scanFrom.induct with
  | case1 => exact ⟨[], [], .nil [], rfl⟩
  | case2 i cs ih =>
    have hopening : IsLexeme .opening := trivial
    exact exists_arranged_of_lexeme hopening (fun hatom => absurd hatom not_isAtom_opening) ih
  | case3 i cs _ ih =>
    have hclosing : IsLexeme .closing := trivial
    exact exists_arranged_of_lexeme hclosing (fun hatom => absurd hatom not_isAtom_closing) ih
  | case4 i cs _ _ ih =>
    have hsplit : ';' :: cs =
        (';' :: cs.takeWhile isCommentChar) ++ cs.dropWhile isCommentChar := by
      rw [List.cons_append, List.takeWhile_append_dropWhile]
    rw [hsplit]
    apply exists_arranged_of_gap _ ih
    intro gap rest hrest hgap
    refine .comment (fun c hc => ?_) (fun c hc => ?_) hgap
    · have hrun := List.all_eq_true.1 List.all_takeWhile c hc
      simpa [isCommentChar] using hrun
    · rw [hrest] at hc
      have hend := List.head?_dropWhile_not isCommentChar cs
      rw [hc] at hend
      simpa [isCommentChar] using hend
  | case5 i c cs hopen hclose hcomment hblank ih =>
    have hfront : ∀ gap rest, gap ++ rest = cs → Gap gap rest → Gap ([c] ++ gap) rest :=
      fun gap rest _ hgap => .blank hblank hgap
    exact exists_arranged_of_gap hfront ih
  | case6 i c cs hopen hclose hcomment hblank word stop ih =>
    have hatom := (isAtomChar_iff c).2 ⟨by simpa using hblank, hopen, hclose, hcomment⟩
    have hword : IsLexeme (.atom (String.ofList word)) := isWord_run hatom cs
    have hparted : Parted (cs.dropWhile isAtomChar) := by
      intro a ha
      have hend := List.head?_dropWhile_not isAtomChar cs
      rw [ha] at hend
      exact hend
    have hfound := exists_arranged_of_lexeme hword (fun _ => hparted) ih
    rw [Lexeme.text, String.toList_ofList, List.cons_append,
      List.takeWhile_append_dropWhile] at hfound
    exact hfound

/-- A text has an arrangement with the tokens that the scanner finds. -/
theorem exists_placed (source : String) :
    ∃ ps last, Arranged ps last ∧ chars ps last = source.toList ∧ placed 0 ps = scan source := by
  obtain ⟨ps, last, harranged, hchars⟩ := exists_arranged source.toList
  refine ⟨ps, last, harranged, hchars, ?_⟩
  rw [scan, ← hchars, scanFrom_chars harranged]

/-! ## Byte ranges -/

theorem chars_append_last (ps : List Piece) (a b : List Char) :
    chars ps (a ++ b) = chars ps a ++ b := by
  induction ps with
  | nil => rfl
  | cons p ps ih => simp only [chars, ih, List.append_assoc]

theorem chars_append (ps qs : List Piece) (last : List Char) :
    chars (ps ++ qs) last = chars ps (chars qs last) := by
  induction ps with
  | nil => rfl
  | cons p ps ih => simp only [List.cons_append, chars, ih]

/-- Tokens in a row are those of pieces in a row. -/
theorem exists_pieces_of_placed {offset : Nat} {ps : List Piece} {a b : List Token}
    (h : placed offset ps = a ++ b) :
    ∃ pa pb, ps = pa ++ pb ∧ placed offset pa = a ∧
      placed (offset + byteLength (chars pa [])) pb = b := by
  induction a generalizing offset ps with
  | nil => exact ⟨[], ps, rfl, rfl, h⟩
  | cons t a ih =>
    cases ps with
    | nil => cases h
    | cons p ps =>
      obtain ⟨ht, h⟩ := List.cons.inj h
      obtain ⟨pa, pb, hps, ha, hb⟩ := ih h
      refine ⟨p :: pa, pb, by rw [hps]; rfl, by rw [← ht, ← ha]; rfl, ?_⟩
      simp only [chars, byteLength_append]
      rw [← hb]
      congr 1
      omega

/-- Only the next character matters to a gap. -/
theorem gap_congr {gap rest rest' : List Char} (h : Gap gap rest)
    (hhead : rest'.head? = rest.head?) : Gap gap rest' := by
  induction h with
  | nil rest => exact .nil rest'
  | blank hc _ ih => exact .blank hc (ih hhead)
  | comment hbody hends _ ih =>
    refine .comment hbody ?_ (ih hhead)
    unfold LineEnds at hends ⊢
    rw [List.head?_append, hhead, ← List.head?_append]
    exact hends

theorem head?_lexeme {l : Lexeme} (hl : IsLexeme l) (rest rest' : List Char) :
    (l.text.toList ++ rest).head? = (l.text.toList ++ rest').head? := by
  cases l with
  | opening => rfl
  | closing => rfl
  | atom t =>
    obtain ⟨c, cs, hcs⟩ := List.exists_cons_of_ne_nil hl.1
    show (t.toList ++ rest).head? = (t.toList ++ rest').head?
    rw [hcs]
    rfl

theorem arranged_back {ps qs : List Piece} {last : List Char} (h : Arranged (ps ++ qs) last) :
    Arranged qs last := by
  induction ps with
  | nil => exact h
  | cons p ps ih => exact ih h.2.2.2

/-- The text may end behind any lexeme. -/
theorem arranged_front {ps qs : List Piece} {last : List Char} (h : Arranged (ps ++ qs) last) :
    Arranged ps [] := by
  induction ps with
  | nil => exact .nil []
  | cons p ps ih =>
    obtain ⟨hgap, hlexeme, hapart, hrest⟩ := h
    refine ⟨gap_congr hgap (head?_lexeme hlexeme _ _), hlexeme, fun q hq => ?_, ih hrest⟩
    apply hapart q
    cases ps with
    | nil => cases hq
    | cons q' ps => exact hq

/-- Tokens in a row, as the tokens of a part of the text that begins and ends with them. -/
theorem exists_cut {ps : List Piece} {last : List Char} (h : Arranged ps last)
    {front middle back : List Token} {t : Token}
    (hp : placed 0 ps = front ++ (t :: middle ++ back)) :
    ∃ before qs after, chars ps last = before ++ (chars (⟨[], t.lexeme⟩ :: qs) [] ++ after) ∧
      Arranged (⟨[], t.lexeme⟩ :: qs) [] ∧
      placed (byteLength before) (⟨[], t.lexeme⟩ :: qs) = t :: middle := by
  obtain ⟨pf, pr, hps, _, hr⟩ := exists_pieces_of_placed hp
  obtain ⟨pm, pb, hpr, hm, _⟩ := exists_pieces_of_placed hr
  rw [hps] at h ⊢
  rw [hpr] at h ⊢
  cases pm with
  | nil => cases hm
  | cons p qs =>
    obtain ⟨ht, hmiddle⟩ := List.cons.inj hm
    have hlexeme : t.lexeme = p.lexeme := by rw [← ht]
    have hfront : Arranged (p :: qs) [] := arranged_front (arranged_back h)
    rw [hlexeme]
    refine ⟨chars pf p.gap, qs, chars pb last, ?_, ⟨.nil _, hfront.2⟩, ?_⟩
    · have hback : chars qs (chars pb last) = chars qs [] ++ chars pb last :=
        chars_append_last qs [] (chars pb last)
      rw [chars_append, chars_append, chars, hback, chars_append_last, chars]
      simp
    · have hbefore : byteLength (chars pf p.gap) = byteLength (chars pf []) + byteLength p.gap := by
        rw [← byteLength_append, ← chars_append_last, List.nil_append]
      rw [placed, ← ht, ← hmiddle, hbefore]
      simp [byteLength]

end Token

/-! ## Parts of a text -/

theorem Text.byteLength_eq (cs : List Char) : byteLength cs = (String.ofList cs).utf8ByteSize := by
  induction cs with
  | nil => rfl
  | cons c cs ih =>
    have hcons : String.ofList (c :: cs) = String.singleton c ++ String.ofList cs := by
      rw [String.singleton_eq_ofList, ← String.ofList_append]
      rfl
    rw [byteLength, ih, hcons, String.utf8ByteSize_append, String.utf8ByteSize_singleton]

/-- The span is the byte range of a part of the text. -/
def Span.Covers (s : Span) (source part : String) : Prop :=
  ∃ before after, source = before ++ part ++ after ∧
    s = ⟨before.utf8ByteSize, before.utf8ByteSize + part.utf8ByteSize⟩

theorem Span.covers_of_toList {source : String} {before part after : List Char}
    (h : source.toList = before ++ (part ++ after)) :
    Covers ⟨Text.byteLength before, Text.byteLength before + Text.byteLength part⟩ source
      (String.ofList part) := by
  refine ⟨String.ofList before, String.ofList after, ?_, ?_⟩
  · rw [← String.ofList_toList (s := source), h, String.ofList_append, String.ofList_append,
      String.append_assoc]
  · rw [Text.byteLength_eq, Text.byteLength_eq]

namespace Token

/-- A token stands in the text where its span says. -/
theorem covers_of_mem_scan {source : String} {t : Token} (h : t ∈ scan source) :
    t.span.Covers source t.lexeme.text := by
  obtain ⟨ps, last, harranged, hchars, hplaces⟩ := exists_placed source
  obtain ⟨front, back, hsplit⟩ := List.append_of_mem h
  have hplaces : placed 0 ps = front ++ ([t] ++ back) := hplaces.trans hsplit
  obtain ⟨before, qs, after, hcut, _, hplaced⟩ := exists_cut harranged hplaces
  obtain ⟨ht, hqs⟩ := List.cons.inj hplaced
  have hnil : qs = [] := by
    cases qs with
    | nil => rfl
    | cons q qs => cases hqs
  rw [hchars, hnil] at hcut
  have hcovers := Span.covers_of_toList hcut
  rw [← ht]
  simpa [chars, Text.byteLength] using hcovers

/-- Scanning by longest match accepts every text, with the tokens that the scanner finds. These are
the tokens of every arrangement of the text, and the text has one: they are the only tokens for
which it splits into tokens and gaps. Each stands in the text where its span says, in bytes. In the
other direction, any arrangement is a text with exactly its tokens. -/
theorem scanning_finds_the_only_arrangement :
    (∀ source : String,
      (∀ outcome, Munches 0 source.toList outcome ↔ outcome = some (scan source)) ∧
      (∀ tokens, (∃ ps last, Arranged ps last ∧ chars ps last = source.toList ∧
        placed 0 ps = tokens) ↔ tokens = scan source) ∧
      ∀ t ∈ scan source, t.span.Covers source t.lexeme.text) ∧
    ∀ ps last, Arranged ps last → scan (String.ofList (chars ps last)) = placed 0 ps := by
  refine ⟨fun source => ⟨fun outcome => munches_iff, fun tokens => ?_, fun t => covers_of_mem_scan⟩,
    fun ps last h => ?_⟩
  · constructor
    · intro h
      obtain ⟨ps, last, harranged, hchars, htokens⟩ := h
      rw [← htokens, scan, ← hchars, scanFrom_chars harranged]
    · intro h
      rw [h]
      exact exists_placed source
  · rw [scan, String.toList_ofList, scanFrom_chars h]

theorem scanning_finds_the_only_arrangement_around_comment :
    let ps : List Piece := [⟨[], .atom "é"⟩, ⟨[';', '(', '\n'], .closing⟩, ⟨['\u3000'], .atom "x"⟩]
    Arranged ps [';'] ∧ String.ofList (chars ps [';']) = "é;(\n)\u3000x;" ∧
      scan "é;(\n)\u3000x;" =
        [⟨.atom "é", 0, 2⟩, ⟨.closing, 5, 6⟩, ⟨.atom "x", 9, 10⟩] := by
  intro ps
  have hfeed : Gap ['\n'] [')', '\u3000', 'x', ';'] := .blank (by decide) (.nil _)
  have hends : LineEnds (['\n'] ++ [')', '\u3000', 'x', ';']) := by
    intro c hc
    cases hc
    rfl
  have hcomment : Gap (';' :: (['('] ++ ['\n'])) [')', '\u3000', 'x', ';'] :=
    .comment (by simp) hends hfeed
  have hlast : Gap (';' :: ([] ++ [])) [] := .comment nofun nofun (.nil [])
  have hspace : Gap ['\u3000'] ['x', ';'] := .blank (by decide) (.nil _)
  have haccented : IsWord "é" := ⟨by decide, List.all_eq_true.1 rfl⟩
  have hplain : IsWord "x" := ⟨by decide, List.all_eq_true.1 rfl⟩
  have harranged : Arranged ps [';'] := by
    refine ⟨.nil _, haccented, ?_, hcomment, trivial, ?_, hspace, hplain, nofun, hlast⟩
    · intro q hq _ hatom
      cases hq
      exact absurd hatom not_isAtom_closing
    · intro q hq hatom
      exact absurd hatom not_isAtom_closing
  have htext : String.ofList (chars ps [';']) = "é;(\n)\u3000x;" := rfl
  refine ⟨harranged, htext, ?_⟩
  rw [← htext, scanning_finds_the_only_arrangement.2 ps [';'] harranged]
  rfl

end Token

end CellLang
