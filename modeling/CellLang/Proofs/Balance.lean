import CellLang.Proofs.Spelling

/-!
# Balanced tokens

Reading succeeds exactly on the token sequences whose parentheses balance, and what is read is spelt
by the tokens, places included. On every other sequence it fails, and the whole sequence decides
where: at the first closing parenthesis that leaves a prefix with more closing than opening ones, or
else at the last opening parenthesis without a match.

The reader keeps a stack of half-built lists. `Reached` says which tokens a stack stands for; one
step of the reader keeps it, so it holds of every stack that a run goes through.
-/

namespace CellLang

namespace Token

/-! ## Counting parentheses -/

def opens (tokens : List Token) : Nat := (tokens.map Token.lexeme).count .opening

def closes (tokens : List Token) : Nat := (tokens.map Token.lexeme).count .closing

/-- No prefix has more closing than opening parentheses. -/
def NoExcess (tokens : List Token) : Prop := ∀ p, p <+: tokens → closes p ≤ opens p

def Balanced (tokens : List Token) : Prop := NoExcess tokens ∧ opens tokens = closes tokens

/-- The parenthesis that stands before the given tokens has its match among them. -/
def Closed (after : List Token) : Prop :=
  ∃ inside last rest, after = inside ++ ⟨.closing, last⟩ :: rest ∧ Balanced inside

/-- The place of the first closing parenthesis with which a prefix has too many of them. -/
def FirstExcess (tokens : List Token) (s : Span) : Prop :=
  ∃ before after, tokens = before ++ ⟨.closing, s⟩ :: after ∧ NoExcess before ∧
    opens (before ++ [⟨.closing, s⟩]) < closes (before ++ [⟨.closing, s⟩])

/-- The place of the last opening parenthesis that has no match. -/
def LastUnclosed (tokens : List Token) (s : Span) : Prop :=
  ∃ before after, tokens = before ++ ⟨.opening, s⟩ :: after ∧ ¬ Closed after ∧
    ∀ between s' rest, after = between ++ ⟨.opening, s'⟩ :: rest → Closed rest

@[simp] theorem opens_nil : opens [] = 0 := rfl

@[simp] theorem closes_nil : closes [] = 0 := rfl

@[simp] theorem opens_cons (t : Token) (ts : List Token) :
    opens (t :: ts) = opens ts + if t.lexeme = .opening then 1 else 0 := by
  simp [opens, List.count_cons]

@[simp] theorem closes_cons (t : Token) (ts : List Token) :
    closes (t :: ts) = closes ts + if t.lexeme = .closing then 1 else 0 := by
  simp [closes, List.count_cons]

@[simp] theorem opens_append (a b : List Token) : opens (a ++ b) = opens a + opens b := by
  simp [opens]

@[simp] theorem closes_append (a b : List Token) : closes (a ++ b) = closes a + closes b := by
  simp [closes]

theorem NoExcess.le {ts : List Token} (h : NoExcess ts) : closes ts ≤ opens ts :=
  h ts (List.prefix_refl ts)

theorem noExcess_nil : NoExcess [] := by
  intro p hp
  rw [List.prefix_nil.1 hp]
  exact Nat.le_refl _

theorem noExcess_cons {t : Token} (ht : t.lexeme ≠ .closing) {ts : List Token} (h : NoExcess ts) :
    NoExcess (t :: ts) := by
  intro p hp
  rcases List.prefix_cons_iff.1 hp with hp | ⟨q, hp, hq⟩
  · rw [hp]
    exact Nat.le_refl _
  · have hle := h q hq
    rw [hp, opens_cons, closes_cons, if_neg ht]
    omega

/-- What follows may close the parentheses that the tokens before it have left open. -/
theorem noExcess_append {a b : List Token} (ha : NoExcess a)
    (hb : ∀ p, p <+: b → closes a + closes p ≤ opens a + opens p) : NoExcess (a ++ b) := by
  intro p hp
  obtain ⟨q, hq⟩ := hp
  rcases List.append_eq_append_iff.1 hq with ⟨rest, hrest, _⟩ | ⟨r, hr, hrest⟩
  · exact ha p ⟨rest, hrest.symm⟩
  · have hle := hb r ⟨q, hrest.symm⟩
    rw [hr, opens_append, closes_append]
    exact hle

theorem NoExcess.append {a b : List Token} (ha : NoExcess a) (hb : NoExcess b) :
    NoExcess (a ++ b) := by
  apply noExcess_append ha
  intro p hp
  have hleft := ha.le
  have hright := hb p hp
  omega

/-- A pair of parentheses around balanced tokens, and balanced tokens behind it. -/
theorem Balanced.enclose {inside rest : List Token} (hinside : Balanced inside)
    (hrest : Balanced rest) (first last : Span) :
    Balanced (⟨.opening, first⟩ :: (inside ++ ⟨.closing, last⟩ :: rest)) := by
  have hlevel := hinside.2
  have hrestLevel := hrest.2
  constructor
  · have hfirst : NoExcess (⟨.opening, first⟩ :: inside) := noExcess_cons (by simp) hinside.1
    apply noExcess_append hfirst
    intro p hp
    rcases List.prefix_cons_iff.1 hp with hp | ⟨q, hp, hq⟩
    · rw [hp]
      simp
      omega
    · have hle := hrest.1 q hq
      rw [hp]
      simp
      omega
  · simp
    omega

/-- A balanced sequence does not match a parenthesis that stands before it. -/
theorem Balanced.not_closed {ts : List Token} (h : Balanced ts) : ¬ Closed ts := by
  intro hclosed
  obtain ⟨inside, last, rest, hts, hinside⟩ := hclosed
  have hprefix : inside ++ [⟨.closing, last⟩] <+: ts := ⟨rest, by rw [hts]; simp⟩
  have hle := h.1 _ hprefix
  have hlevel := hinside.2
  simp at hle
  omega

theorem closed_append {a : List Token} (h : Closed a) (b : List Token) : Closed (a ++ b) := by
  obtain ⟨inside, last, rest, ha, hinside⟩ := h
  exact ⟨inside, last, rest ++ b, by rw [ha]; simp, hinside⟩

theorem FirstExcess.not_noExcess {ts : List Token} {s : Span} (h : FirstExcess ts s) :
    ¬ NoExcess ts := by
  obtain ⟨before, after, hts, _, hexcess⟩ := h
  intro hno
  have hle := hno (before ++ [⟨.closing, s⟩]) ⟨after, by rw [hts]; simp⟩
  omega

theorem FirstExcess.unique {ts : List Token} {s s' : Span} (h : FirstExcess ts s)
    (h' : FirstExcess ts s') : s = s' := by
  obtain ⟨before, after, hts, hno, hexcess⟩ := h
  obtain ⟨before', after', hts', hno', hexcess'⟩ := h'
  rw [hts] at hts'
  rcases List.append_eq_append_iff.1 hts' with ⟨x, hx, hrest⟩ | ⟨x, hx, hrest⟩
  · cases x with
    | nil =>
      cases hrest
      rfl
    | cons t x =>
      -- the second excess would lie behind the first one
      cases hrest
      have hle := hno' (before ++ [⟨.closing, s⟩]) ⟨x, by rw [hx]; simp⟩
      omega
  · cases x with
    | nil =>
      cases hrest
      rfl
    | cons t x =>
      cases hrest
      have hle := hno (before' ++ [⟨.closing, s'⟩]) ⟨x, by rw [hx]; simp⟩
      omega

theorem LastUnclosed.unique {ts : List Token} {s s' : Span} (h : LastUnclosed ts s)
    (h' : LastUnclosed ts s') : s = s' := by
  obtain ⟨before, after, hts, hopen, hlast⟩ := h
  obtain ⟨before', after', hts', hopen', hlast'⟩ := h'
  rw [hts] at hts'
  rcases List.append_eq_append_iff.1 hts' with ⟨x, hx, hrest⟩ | ⟨x, hx, hrest⟩
  · cases x with
    | nil =>
      cases hrest
      rfl
    | cons t x =>
      cases hrest
      exact absurd (hlast x s' after' rfl) hopen'
  · cases x with
    | nil =>
      cases hrest
      rfl
    | cons t x =>
      cases hrest
      exact absurd (hlast' x s after rfl) hopen

end Token

namespace Form

open Token

/-! ## Tokens that spell forms -/

/-- The tokens spell the forms. An atom is at the place of its token; a list is between two
parentheses, and its place covers both. -/
inductive Spelt : List Token → List Form → Prop
  | nil : Spelt [] []
  | atom (t : String) (s : Span) {ts : List Token} {fs : List Form} : Spelt ts fs →
      Spelt (⟨.atom t, s⟩ :: ts) (.atom t s :: fs)
  | list (first last : Span) {inside ts : List Token} {items fs : List Form} :
      Spelt inside items → Spelt ts fs →
      Spelt (⟨.opening, first⟩ :: (inside ++ ⟨.closing, last⟩ :: ts))
        (.list items ⟨min first.start last.start, max first.stop last.stop⟩ :: fs)

theorem Spelt.append {a b : List Token} {fs gs : List Form} (ha : Spelt a fs) (hb : Spelt b gs) :
    Spelt (a ++ b) (fs ++ gs) := by
  induction ha with
  | nil => exact hb
  | atom t s _ ih => exact .atom t s ih
  | list first last hinside _ _ ih =>
    have hlist := Spelt.list first last hinside ih
    simpa using hlist

theorem Spelt.balanced {ts : List Token} {fs : List Form} (h : Spelt ts fs) : Balanced ts := by
  induction h with
  | nil => exact ⟨noExcess_nil, rfl⟩
  | atom t s _ ih => exact ⟨noExcess_cons (by simp) ih.1, by simpa using ih.2⟩
  | list first last _ _ hinside hrest => exact hinside.enclose hrest first last

/-- Flattening the forms gives the tokens back, but for their places. -/
theorem Spelt.lexemes_eq {ts : List Token} {fs : List Form} (h : Spelt ts fs) :
    lexemesAll fs = ts.map Token.lexeme := by
  induction h with
  | nil => rfl
  | atom t s _ ih => simp [lexemesAll, lexemes, ih]
  | list first last _ _ hinside hrest => simp [lexemesAll, lexemes, hinside, hrest]

/-- Among tokens that spell forms, every opening parenthesis has its match. -/
theorem Spelt.closed {ts : List Token} {fs : List Form} (h : Spelt ts fs)
    {before after : List Token} {s : Span} (hts : ts = before ++ ⟨.opening, s⟩ :: after) :
    Closed after := by
  induction h generalizing before after with
  | nil => simp at hts
  | atom t s' _ ih =>
    cases before with
    | nil => cases hts
    | cons t before => exact ih (List.cons.inj hts).2
  | @list first last inside rest items fs hinside _ ihinside ihrest =>
    cases before with
    | nil =>
      cases hts
      exact ⟨inside, last, rest, rfl, hinside.balanced⟩
    | cons t before =>
      -- the parenthesis is one of the list's own tokens, or one behind the list
      have hsplit := List.append_eq_append_iff.1 (List.cons.inj hts).2
      rcases hsplit with ⟨x, hx, hafter⟩ | ⟨x, hx, hafter⟩
      · cases x with
        | nil => cases hafter
        | cons t x => exact ihrest (List.cons.inj hafter).2
      · cases x with
        | nil => cases hafter
        | cons t x =>
          cases hafter
          exact closed_append (ihinside hx) _

/-! ## The run of the reader -/

/-- The stack and the top-level forms stand for the tokens read so far. -/
inductive Reached : List Opened → List Form → List Token → Prop
  | top {top : List Form} {ts : List Token} : Spelt ts top.reverse → Reached [] top ts
  | inside {outer : List Opened} {top items : List Form} {before ts : List Token} (s : Span) :
      Reached outer top before → Spelt ts items.reverse →
      Reached (⟨s, items⟩ :: outer) top (before ++ ⟨.opening, s⟩ :: ts)

theorem Reached.place {stack : List Opened} {top : List Form} {before ts : List Token} {f : Form}
    (h : Reached stack top before) (hf : Spelt ts [f]) :
    Reached (place f stack top).1 (place f stack top).2 (before ++ ts) := by
  cases h with
  | @top top _ htop =>
    apply Reached.top
    show Spelt (before ++ ts) (f :: top).reverse
    rw [List.reverse_cons]
    exact htop.append hf
  | inside s houter hitems =>
    rw [List.append_assoc, List.cons_append]
    apply Reached.inside s houter
    rw [List.reverse_cons]
    exact hitems.append hf

theorem Reached.counts {stack : List Opened} {top : List Form} {ts : List Token}
    (h : Reached stack top ts) : NoExcess ts ∧ opens ts = closes ts + stack.length := by
  induction h with
  | top htop => exact ⟨htop.balanced.1, htop.balanced.2⟩
  | inside s _ hitems ih =>
    have hlevel := hitems.balanced.2
    refine ⟨ih.1.append (noExcess_cons (by simp) hitems.balanced.1), ?_⟩
    simp
    omega

theorem Reached.lastUnclosed {inner : Opened} {outer : List Opened} {top : List Form}
    {ts : List Token} (h : Reached (inner :: outer) top ts) : LastUnclosed ts inner.span := by
  cases h with
  | @inside _ _ _ before inside s _ hitems =>
    exact ⟨before, inside, rfl, hitems.balanced.not_closed, fun _ _ _ => hitems.closed⟩

/-- How a run of the reader over the given tokens may end. -/
inductive Ends (tokens : List Token) : Except Imbalance (List Form) → Prop
  | spelt {forms : List Form} : Spelt tokens forms → Ends tokens (.ok forms)
  | unexpected {before after : List Token} {forms : List Form} (s : Span) :
      tokens = before ++ ⟨.closing, s⟩ :: after → Spelt before forms →
      Ends tokens (.error (.unexpectedClose s))
  | unclosed {inner : Opened} {outer : List Opened} {top : List Form} :
      Reached (inner :: outer) top tokens → Ends tokens (.error (.unclosedOpen inner.span))

theorem ends_readWith {stack : List Opened} {top : List Form} {before : List Token}
    (h : Reached stack top before) (tokens : List Token) :
    Ends (before ++ tokens) (readWith stack top tokens) := by
  induction stack, top, tokens using readWith.induct generalizing before with
  | case1 top =>
    cases h with
    | top htop =>
      rw [List.append_nil]
      exact .spelt htop
  | case2 inner outer top =>
    rw [List.append_nil]
    exact .unclosed h
  | case3 stack top s ts ih =>
    rw [readWith_opening]
    have hnext := ih (.inside s h .nil)
    simpa using hnext
  | case4 top s ts =>
    cases h with
    | top htop => exact .unexpected s rfl htop
  | case5 inner outer top s ts stack' top' hplace ih =>
    cases h with
    | inside first houter hitems =>
      have hlist : Spelt _ [.list _ (first.merge s)] := .list first s hitems .nil
      have hnext := houter.place hlist
      rw [hplace] at hnext
      rw [readWith, hplace]
      have hends := ih hnext
      simpa using hends
  | case6 stack top t s ts stack' top' hplace ih =>
    have hnext := h.place (.atom t s .nil)
    rw [hplace] at hnext
    rw [readWith_atom, hplace]
    have hends := ih hnext
    simpa using hends

theorem ends_ofTokens (tokens : List Token) : Ends tokens (ofTokens tokens) := by
  have hstart : Reached [] [] [] := .top .nil
  exact ends_readWith hstart tokens

/-- Tokens that spell forms are read as these forms, and reading goes on behind them. -/
theorem Spelt.readWith_eq {ts : List Token} {fs : List Form} (h : Spelt ts fs)
    (stack : List Opened) (top : List Form) (rest : List Token) :
    readWith stack top (ts ++ rest) =
      readWith (placeAll fs stack top).1 (placeAll fs stack top).2 rest := by
  induction h generalizing stack top rest with
  | nil => rw [placeAll_nil, List.nil_append]
  | atom t s _ ih => rw [List.cons_append, readWith_atom, ih, placeAll_cons]
  | @list first last inside ts items fs _ _ ihinside ihrest =>
    have hclose :
        readWith (⟨first, items.reverse⟩ :: stack) top (⟨.closing, last⟩ :: (ts ++ rest)) =
        readWith (place (.list items (first.merge last)) stack top).1
          (place (.list items (first.merge last)) stack top).2 (ts ++ rest) := by
      rw [readWith, List.reverse_reverse]
    rw [List.cons_append, readWith_opening, List.append_assoc, ihinside, placeAll_cons]
    simp only [placeAll, List.append_nil, List.cons_append]
    rw [hclose, ihrest]
    rfl

theorem ofTokens_eq_ok_iff {tokens : List Token} {forms : List Form} :
    ofTokens tokens = .ok forms ↔ Spelt tokens forms := by
  constructor
  · intro h
    have hends := ends_ofTokens tokens
    rw [h] at hends
    cases hends with
    | spelt hspelt => exact hspelt
  · intro h
    have hread := h.readWith_eq [] [] []
    rw [List.append_nil] at hread
    rw [ofTokens, hread]
    simp [placeAll, readWith]

theorem exists_ofTokens_iff (tokens : List Token) :
    (∃ forms, ofTokens tokens = .ok forms) ↔ Balanced tokens := by
  constructor
  · intro h
    obtain ⟨forms, hforms⟩ := h
    exact (ofTokens_eq_ok_iff.1 hforms).balanced
  · intro hbalanced
    have hends := ends_ofTokens tokens
    generalize ofTokens tokens = outcome at hends
    cases hends with
    | spelt => exact ⟨_, rfl⟩
    | @unexpected before after forms s htokens hbefore =>
      have hlevel := hbefore.balanced.2
      have hle := hbalanced.1 (before ++ [⟨.closing, s⟩]) ⟨after, by rw [htokens]; simp⟩
      simp at hle
      omega
    | unclosed hreached =>
      have hopen := hreached.counts.2
      have hlevel := hbalanced.2
      rw [List.length_cons] at hopen
      omega

theorem firstExcess_of_unexpected {tokens : List Token} {s : Span}
    (h : ofTokens tokens = .error (.unexpectedClose s)) : FirstExcess tokens s := by
  have hends := ends_ofTokens tokens
  rw [h] at hends
  cases hends with
  | @unexpected before after _ _ htokens hbefore =>
    have hlevel := hbefore.balanced.2
    refine ⟨before, after, htokens, hbefore.balanced.1, ?_⟩
    simp
    omega

theorem lastUnclosed_of_unclosed {tokens : List Token} {s : Span}
    (h : ofTokens tokens = .error (.unclosedOpen s)) :
    NoExcess tokens ∧ LastUnclosed tokens s := by
  have hends := ends_ofTokens tokens
  rw [h] at hends
  cases hends with
  | unclosed hreached => exact ⟨hreached.counts.1, hreached.lastUnclosed⟩

theorem unexpected_iff {tokens : List Token} {s : Span} :
    ofTokens tokens = .error (.unexpectedClose s) ↔ FirstExcess tokens s := by
  refine ⟨firstExcess_of_unexpected, fun hfirst => ?_⟩
  cases h : ofTokens tokens with
  | ok forms => exact absurd (ofTokens_eq_ok_iff.1 h).balanced.1 hfirst.not_noExcess
  | error e =>
    cases e with
    | unexpectedClose s' => rw [hfirst.unique (firstExcess_of_unexpected h)]
    | unclosedOpen s' => exact absurd (lastUnclosed_of_unclosed h).1 hfirst.not_noExcess

theorem unclosed_iff {tokens : List Token} {s : Span} :
    ofTokens tokens = .error (.unclosedOpen s) ↔ NoExcess tokens ∧ LastUnclosed tokens s := by
  refine ⟨lastUnclosed_of_unclosed, fun hlast => ?_⟩
  cases h : ofTokens tokens with
  | ok forms =>
    obtain ⟨before, after, htokens, hopen, _⟩ := hlast.2
    exact absurd ((ofTokens_eq_ok_iff.1 h).closed htokens) hopen
  | error e =>
    cases e with
    | unexpectedClose s' => exact absurd hlast.1 (firstExcess_of_unexpected h).not_noExcess
    | unclosedOpen s' => rw [hlast.2.unique (lastUnclosed_of_unclosed h).2]

/-- A sequence has a first excess, or no prefix of it has one. -/
theorem noExcess_iff {tokens : List Token} : NoExcess tokens ↔ ¬ ∃ s, FirstExcess tokens s := by
  constructor
  · intro hno hfirst
    obtain ⟨s, hs⟩ := hfirst
    exact hs.not_noExcess hno
  · intro hnone
    cases h : ofTokens tokens with
    | ok forms => exact (ofTokens_eq_ok_iff.1 h).balanced.1
    | error e =>
      cases e with
      | unexpectedClose s => exact absurd ⟨s, firstExcess_of_unexpected h⟩ hnone
      | unclosedOpen s => exact (lastUnclosed_of_unclosed h).1

/-- For every token sequence, whatever its atoms and places: it is read exactly when no prefix has
more closing than opening parentheses and there are as many of both. It is read as the forms that it
spells, which flatten to its lexemes again. Otherwise the report names the first closing parenthesis
that is one too many, if there is one, and else the last opening parenthesis without a match. -/
theorem reading_accepts_exactly_the_balanced (tokens : List Token) :
    ((∃ forms, ofTokens tokens = .ok forms) ↔
      (∀ p, p <+: tokens → closes p ≤ opens p) ∧ opens tokens = closes tokens) ∧
    (∀ forms, ofTokens tokens = .ok forms ↔
      Spelt tokens forms ∧ lexemesAll forms = tokens.map Token.lexeme) ∧
    (∀ s, ofTokens tokens = .error (.unexpectedClose s) ↔ FirstExcess tokens s) ∧
    (∀ s, ofTokens tokens = .error (.unclosedOpen s) ↔
      (¬ ∃ s', FirstExcess tokens s') ∧ LastUnclosed tokens s) ∧
    ∀ s, (SourceError.ofImbalance (.unexpectedClose s)).message = "unexpected ')'" ∧
      (SourceError.ofImbalance (.unexpectedClose s)).span = s ∧
      (SourceError.ofImbalance (.unclosedOpen s)).message = "unclosed '('" ∧
      (SourceError.ofImbalance (.unclosedOpen s)).span = s := by
  refine ⟨exists_ofTokens_iff tokens, fun forms => ?_, fun s => unexpected_iff, fun s => ?_,
    fun s => ⟨rfl, rfl, rfl, rfl⟩⟩
  · rw [ofTokens_eq_ok_iff]
    exact ⟨fun h => ⟨h, h.lexemes_eq⟩, And.left⟩
  · rw [unclosed_iff, noExcess_iff]

end Form

end CellLang
