import CellLang.Program.Reading

/-!
# Spelling

A form spells a sequence of lexemes: its atoms in order, and two parentheses around the items of
each list. Reading loses nothing, so the forms of a text spell the lexemes of the text. In the other
direction the text of a form scans to the lexemes that the form spells, and tokens with these
lexemes are read as that form again, with other spans.
-/

namespace CellLang

namespace Token

/-! ## The lexemes of a text -/

/-- What the scanner can make an atom of. -/
def IsWord (text : String) : Prop :=
  text.toList ≠ [] ∧ ∀ c ∈ text.toList, isAtomChar c = true

/-- No word goes on into the given text. -/
def Parted (rest : List Char) : Prop := ∀ c ∈ rest.head?, isAtomChar c = false

theorem isAtomChar_iff (c : Char) :
    isAtomChar c = true ↔ Text.isBlank c = false ∧ c ≠ '(' ∧ c ≠ ')' ∧ c ≠ ';' := by
  simp [isAtomChar, and_assoc]

theorem isAtomChar_of_isBlank {c : Char} (h : Text.isBlank c = true) : isAtomChar c = false := by
  simp [isAtomChar, h]

/-- A run of characters of one kind is taken up to the first one that is not of that kind. -/
theorem takeWhile_dropWhile_run {p : Char → Bool} {run rest : List Char}
    (hrun : ∀ c ∈ run, p c = true) (hrest : ∀ c ∈ rest.head?, p c = false) :
    (run ++ rest).takeWhile p = run ∧ (run ++ rest).dropWhile p = rest := by
  rw [List.takeWhile_append_of_pos hrun, List.dropWhile_append_of_pos hrun]
  cases rest with
  | nil => simp
  | cons c cs => simp [hrest c rfl]

/-- A run of atom characters is a word. -/
theorem isWord_run {c : Char} (hc : isAtomChar c = true) (cs : List Char) :
    IsWord (String.ofList (c :: cs.takeWhile isAtomChar)) := by
  refine ⟨by simp, fun a ha => ?_⟩
  rw [String.toList_ofList] at ha
  rcases List.mem_cons.1 ha with rfl | ha
  · exact hc
  · exact List.all_eq_true.1 List.all_takeWhile a ha

/-- The lexemes of a text, without their places. -/
def lexemes (cs : List Char) : List Lexeme := (scanFrom 0 cs).map Token.lexeme

/-- Where a text begins decides the spans of its tokens only. -/
theorem map_lexeme_scanFrom (i j : Nat) (cs : List Char) :
    (scanFrom i cs).map Token.lexeme = (scanFrom j cs).map Token.lexeme := by
  induction i, cs using scanFrom.induct generalizing j with
  | case1 => simp [scanFrom]
  | case2 i cs ih => simp [scanFrom, ih (j + 1)]
  | case3 i cs _ ih => simp [scanFrom, ih (j + 1)]
  | case4 i cs _ _ ih => simpa [scanFrom] using ih _
  | case5 i c cs hopen hclose hcomment hblank ih =>
    simpa [scanFrom, hopen, hclose, hcomment, hblank] using ih _
  | case6 i c cs hopen hclose hcomment hblank word stop ih =>
    simpa [scanFrom, hopen, hclose, hcomment, hblank] using ih _

@[simp] theorem lexemes_nil : lexemes [] = [] := by
  simp [lexemes, scanFrom]

@[simp] theorem lexemes_opening (cs : List Char) :
    lexemes ('(' :: cs) = .opening :: lexemes cs := by
  simp [lexemes, scanFrom, map_lexeme_scanFrom 1 0]

@[simp] theorem lexemes_closing (cs : List Char) :
    lexemes (')' :: cs) = .closing :: lexemes cs := by
  simp [lexemes, scanFrom, map_lexeme_scanFrom 1 0]

theorem scanFrom_blank {c : Char} (h : Text.isBlank c = true) (offset : Nat) (cs : List Char) :
    scanFrom offset (c :: cs) = scanFrom (offset + c.utf8Size) cs := by
  have hopen : c ≠ '(' := by rintro rfl; revert h; decide
  have hclose : c ≠ ')' := by rintro rfl; revert h; decide
  have hcomment : c ≠ ';' := by rintro rfl; revert h; decide
  simp [scanFrom, h, hopen, hclose, hcomment]

theorem scanFrom_word {word : String} (hword : IsWord word) {rest : List Char}
    (hrest : Parted rest) (offset : Nat) :
    scanFrom offset (word.toList ++ rest) =
      ⟨.atom word, offset, offset + Text.byteLength word.toList⟩ ::
        scanFrom (offset + Text.byteLength word.toList) rest := by
  obtain ⟨hne, hall⟩ := hword
  obtain ⟨c, cs, hword⟩ := List.exists_cons_of_ne_nil hne
  rw [hword] at hall
  obtain ⟨hblank, hopen, hclose, hcomment⟩ := (isAtomChar_iff c).1 (hall c List.mem_cons_self)
  have hcs : ∀ a ∈ cs, isAtomChar a = true := fun a ha => hall a (List.mem_cons_of_mem _ ha)
  obtain ⟨htake, hdrop⟩ := takeWhile_dropWhile_run hcs hrest
  have htext : String.ofList (c :: cs) = word := by rw [← hword, String.ofList_toList]
  rw [hword, List.cons_append, scanFrom]
  simp only [hopen, hclose, hcomment, hblank, if_false, htake, hdrop, htext, Bool.false_eq_true]

theorem lexemes_blank {c : Char} (h : Text.isBlank c = true) (cs : List Char) :
    lexemes (c :: cs) = lexemes cs := by
  rw [lexemes, scanFrom_blank h, lexemes, map_lexeme_scanFrom]

theorem lexemes_word {word : String} (hword : IsWord word) {rest : List Char}
    (hrest : Parted rest) : lexemes (word.toList ++ rest) = .atom word :: lexemes rest := by
  rw [lexemes, scanFrom_word hword hrest, List.map_cons, lexemes, map_lexeme_scanFrom]

/-- The atoms of a text are words. -/
theorem isWord_of_mem_scanFrom (i : Nat) (cs : List Char) :
    ∀ token ∈ scanFrom i cs, ∀ text, token.lexeme = .atom text → IsWord text := by
  induction i, cs using scanFrom.induct with
  | case1 => simp [scanFrom]
  | case2 i cs ih => simpa [scanFrom] using ih
  | case3 i cs _ ih => simpa [scanFrom] using ih
  | case4 i cs _ _ ih => simpa [scanFrom] using ih
  | case5 i c cs hopen hclose hcomment hblank ih =>
    simpa [scanFrom, hopen, hclose, hcomment, hblank] using ih
  | case6 i c cs hopen hclose hcomment hblank word stop ih =>
    have hatom := (isAtomChar_iff c).2 ⟨by simpa using hblank, hopen, hclose, hcomment⟩
    intro token htoken text htext
    rw [scanFrom] at htoken
    simp only [hopen, hclose, hcomment, hblank, if_false] at htoken
    rcases List.mem_cons.1 htoken with rfl | htoken
    · cases htext
      exact isWord_run hatom cs
    · exact ih token htoken text htext

end Token

namespace Form

/-! ## The lexemes of a form -/

mutual

/-- The lexemes that a form spells. -/
def lexemes : Form → List Lexeme
  | .atom t _ => [.atom t]
  | .list items _ => .opening :: (lexemesAll items ++ [.closing])

def lexemesAll : List Form → List Lexeme
  | [] => []
  | f :: fs => f.lexemes ++ lexemesAll fs

end

theorem lexemesAll_append (fs gs : List Form) :
    lexemesAll (fs ++ gs) = lexemesAll fs ++ lexemesAll gs := by
  induction fs with
  | nil => rfl
  | cons f fs ih => rw [List.cons_append, lexemesAll, lexemesAll, ih, List.append_assoc]

/-- Every atom is a word, as in a form that was read from a text. -/
def Wordy (f : Form) : Prop := ∀ t, .atom t ∈ f.lexemes → Token.IsWord t

def WordyAll (fs : List Form) : Prop := ∀ t, .atom t ∈ lexemesAll fs → Token.IsWord t

theorem wordy_atom {t : String} {s : Span} : (Form.atom t s).Wordy ↔ Token.IsWord t := by
  simp [Wordy, lexemes]

theorem wordy_list {items : List Form} {s : Span} : (Form.list items s).Wordy ↔ WordyAll items := by
  simp [Wordy, WordyAll, lexemes]

theorem wordyAll_cons {f : Form} {fs : List Form} :
    WordyAll (f :: fs) ↔ f.Wordy ∧ WordyAll fs := by
  simp only [Wordy, WordyAll, lexemesAll, List.mem_append]
  exact ⟨fun h => ⟨fun t ht => h t (.inl ht), fun t ht => h t (.inr ht)⟩,
    fun h t ht => ht.elim (h.1 t) (h.2 t)⟩

/-! ## Scanning the text of a form -/

mutual

/-- The text of a form scans to what the form spells. -/
theorem lexemes_text (f : Form) (hf : f.Wordy) {rest : List Char} (hrest : Token.Parted rest) :
    Token.lexemes (f.text.toList ++ rest) = f.lexemes ++ Token.lexemes rest := by
  match f with
  | .atom t s => exact Token.lexemes_word (wordy_atom.1 hf) hrest
  | .list items s =>
    have hclosing : Token.Parted (')' :: rest) := by
      rintro c ⟨⟩
      decide
    have hspace : " ".toList = [' '] := rfl
    have hitems := lexemes_joined items (wordy_list.1 hf) hspace (by decide) hclosing
    have htext : (Form.list items s).text.toList ++ rest =
        '(' :: ((String.intercalate " " (texts items)).toList ++ ')' :: rest) := by
      simp [text]
    rw [htext, Token.lexemes_opening, hitems, Token.lexemes_closing, lexemes]
    simp

/-- Forms next to each other, with a blank between each and the next. -/
theorem lexemes_joined (fs : List Form) (hfs : WordyAll fs) {separator : String} {blank : Char}
    (hseparator : separator.toList = [blank]) (hblank : Text.isBlank blank = true)
    {rest : List Char} (hrest : Token.Parted rest) :
    Token.lexemes ((String.intercalate separator (texts fs)).toList ++ rest) =
      lexemesAll fs ++ Token.lexemes rest := by
  match fs with
  | [] => simp [texts, lexemesAll]
  | [f] =>
    rw [texts, texts, String.intercalate_singleton, lexemesAll, lexemesAll, List.append_nil]
    exact lexemes_text f (wordyAll_cons.1 hfs).1 hrest
  | f :: g :: fs =>
    obtain ⟨hf, hgs⟩ := wordyAll_cons.1 hfs
    have hparted : Token.Parted
        (blank :: ((String.intercalate separator (texts (g :: fs))).toList ++ rest)) := by
      rintro c ⟨⟩
      exact Token.isAtomChar_of_isBlank hblank
    have htext : (String.intercalate separator (texts (f :: g :: fs))).toList ++ rest =
        f.text.toList ++
          (blank :: ((String.intercalate separator (texts (g :: fs))).toList ++ rest)) := by
      simp only [texts, String.intercalate_cons_cons, String.toList_append, hseparator,
        List.append_assoc, List.cons_append, List.nil_append]
    rw [htext, lexemes_text f hf hparted, Token.lexemes_blank hblank,
      lexemes_joined (g :: fs) hgs hseparator hblank hrest, ← List.append_assoc]
    rfl

end

/-! ## Reading loses nothing -/

/-- The lexemes of the lists that are open, outermost first. -/
def openLexemes : List Opened → List Lexeme
  | [] => []
  | inner :: outer => openLexemes outer ++ .opening :: lexemesAll inner.items.reverse

/-- Everything read so far. -/
def readLexemes (stack : List Opened) (top : List Form) : List Lexeme :=
  lexemesAll top.reverse ++ openLexemes stack

theorem readLexemes_place (f : Form) (stack : List Opened) (top : List Form) :
    readLexemes (place f stack top).1 (place f stack top).2 =
      readLexemes stack top ++ f.lexemes := by
  cases stack with
  | nil => simp [place, readLexemes, openLexemes, lexemesAll_append, lexemesAll]
  | cons inner outer => simp [place, readLexemes, openLexemes, lexemesAll_append, lexemesAll]

theorem lexemes_readWith {tokens : List Token} {stack : List Opened} {top forms : List Form}
    (h : readWith stack top tokens = .ok forms) :
    lexemesAll forms = readLexemes stack top ++ tokens.map Token.lexeme := by
  induction stack, top, tokens using readWith.induct with
  | case1 top =>
    cases h
    simp [readLexemes, openLexemes]
  | case2 inner outer top => cases h
  | case3 stack top s ts ih =>
    have hopen : readWith (⟨s, []⟩ :: stack) top ts = .ok forms := by
      cases stack <;> exact h
    rw [ih hopen]
    simp [readLexemes, openLexemes, lexemesAll]
  | case4 top s ts => cases h
  | case5 inner outer top s ts stack' top' hplace ih =>
    rw [readWith, hplace] at h
    have hlexemes := readLexemes_place (.list inner.items.reverse (inner.span.merge s)) outer top
    rw [hplace] at hlexemes
    rw [ih h, hlexemes]
    simp [readLexemes, openLexemes, lexemes]
  | case6 stack top t s ts stack' top' hplace ih =>
    have hatom : readWith stack' top' ts = .ok forms := by
      cases stack <;> · rw [readWith, hplace] at h; exact h
    have hlexemes := readLexemes_place (.atom t s) stack top
    rw [hplace] at hlexemes
    rw [ih hatom, hlexemes]
    simp [lexemes]

theorem lexemesAll_of_read {source : String} {forms : List Form} (h : read source = .ok forms) :
    lexemesAll forms = Token.lexemes source.toList :=
  lexemes_readWith h

theorem wordyAll_of_read {source : String} {forms : List Form} (h : read source = .ok forms) :
    WordyAll forms := by
  intro t ht
  rw [lexemesAll_of_read h] at ht
  obtain ⟨token, htoken, htext⟩ := List.mem_map.1 ht
  exact Token.isWord_of_mem_scanFrom 0 source.toList token htoken t htext

/-! ## Reading a form again -/

mutual

/-- The same nesting of the same atoms, wherever they stand and however their numerals are
written. -/
inductive Alike : Form → Form → Prop
  | word (t : String) (s s' : Span) : Alike (.atom t s) (.atom t s')
  | numeral {t u : String} {x : Binary64} (s s' : Span) :
      Expr.literal? t = some x → Expr.literal? u = some x → Alike (.atom t s) (.atom u s')
  | list {fs gs : List Form} (s s' : Span) : AlikeAll fs gs → Alike (.list fs s) (.list gs s')

inductive AlikeAll : List Form → List Form → Prop
  | nil : AlikeAll [] []
  | cons {f g : Form} {fs gs : List Form} :
      Alike f g → AlikeAll fs gs → AlikeAll (f :: fs) (g :: gs)

end

/-- Adds several forms, one after another. -/
def placeAll (forms : List Form) : List Opened → List Form → List Opened × List Form
  | [], top => ([], forms.reverse ++ top)
  | inner :: outer, top => ({ inner with items := forms.reverse ++ inner.items } :: outer, top)

theorem placeAll_cons (f : Form) (fs : List Form) (stack : List Opened) (top : List Form) :
    placeAll (f :: fs) stack top =
      placeAll fs (place f stack top).1 (place f stack top).2 := by
  cases stack <;> simp [placeAll, place]

theorem placeAll_nil (stack : List Opened) (top : List Form) :
    placeAll [] stack top = (stack, top) := by
  cases stack <;> simp [placeAll]

theorem readWith_opening (stack : List Opened) (top : List Form) (s : Span) (ts : List Token) :
    readWith stack top (⟨.opening, s⟩ :: ts) = readWith (⟨s, []⟩ :: stack) top ts := by
  cases stack <;> rfl

theorem readWith_atom (stack : List Opened) (top : List Form) (t : String) (s : Span)
    (ts : List Token) : readWith stack top (⟨.atom t, s⟩ :: ts) =
      readWith (place (.atom t s) stack top).1 (place (.atom t s) stack top).2 ts := by
  cases stack <;> rfl

mutual

/-- Tokens that spell a form are read as that form, and reading goes on after it. -/
theorem readWith_form (f : Form) {tokens : List Token}
    (h : tokens.map Token.lexeme = f.lexemes) :
    ∃ g, f.Alike g ∧ ∀ stack top rest, readWith stack top (tokens ++ rest) =
      readWith (place g stack top).1 (place g stack top).2 rest := by
  match f with
  | .atom t s =>
    rw [lexemes] at h
    obtain ⟨⟨lexeme, s'⟩, rfl, rfl⟩ := List.map_eq_singleton_iff.1 h
    exact ⟨.atom t s', .word t s s', fun stack top rest => readWith_atom stack top t s' rest⟩
  | .list items s =>
    rw [lexemes] at h
    obtain ⟨⟨lexeme, first⟩, others, rfl, rfl, hothers⟩ := List.map_eq_cons_iff.1 h
    obtain ⟨inside, closing, rfl, hinside, hclosing⟩ := List.map_eq_append_iff.1 hothers
    obtain ⟨⟨lexeme, last⟩, rfl, rfl⟩ := List.map_eq_singleton_iff.1 hclosing
    obtain ⟨gs, halike, hread⟩ := readWith_forms items hinside
    refine ⟨.list gs (first.merge last), .list s _ halike, fun stack top rest => ?_⟩
    rw [List.cons_append, readWith_opening, List.append_assoc, hread]
    simp [placeAll, readWith]

theorem readWith_forms (fs : List Form) {tokens : List Token}
    (h : tokens.map Token.lexeme = lexemesAll fs) :
    ∃ gs, AlikeAll fs gs ∧ ∀ stack top rest, readWith stack top (tokens ++ rest) =
      readWith (placeAll gs stack top).1 (placeAll gs stack top).2 rest := by
  match fs with
  | [] =>
    obtain rfl := List.map_eq_nil_iff.1 h
    refine ⟨[], .nil, fun stack top rest => ?_⟩
    rw [placeAll_nil, List.nil_append]
  | f :: fs =>
    rw [lexemesAll] at h
    obtain ⟨first, others, rfl, hfirst, hothers⟩ := List.map_eq_append_iff.1 h
    obtain ⟨g, hg, hreadFirst⟩ := readWith_form f hfirst
    obtain ⟨gs, hgs, hreadOthers⟩ := readWith_forms fs hothers
    refine ⟨g :: gs, .cons hg hgs, fun stack top rest => ?_⟩
    rw [List.append_assoc, hreadFirst, hreadOthers, placeAll_cons]

end

/-- Forms written with a blank between each and the next are read again. -/
theorem read_joined (fs : List Form) (hfs : WordyAll fs) {separator : String} {blank : Char}
    (hseparator : separator.toList = [blank]) (hblank : Text.isBlank blank = true) :
    ∃ gs, read (String.intercalate separator (texts fs)) = .ok gs ∧ AlikeAll fs gs := by
  have hend : Token.Parted [] := nofun
  have hlexemes := lexemes_joined fs hfs hseparator hblank hend
  rw [Token.lexemes_nil, List.append_nil, List.append_nil] at hlexemes
  obtain ⟨gs, halike, hread⟩ := readWith_forms fs hlexemes
  refine ⟨gs, ?_, halike⟩
  have hwhole := hread [] [] []
  rw [List.append_nil] at hwhole
  rw [read, ofTokens, Token.scan, hwhole]
  simp [placeAll, readWith]

end Form

end CellLang
