import CellLang.Proofs.Spelling

/-!
# Numerals

The plain text of a finite number is a numeral of that number, and the text of a size is a numeral
of the number that the size was read from. The second holds also at the end of the range: the
largest size is read from a number one above it, and its own text is rounded up to that number
again. A numeral is a word, and stands for nothing else.
-/

namespace CellLang

namespace Decimal

/-! ## Digits -/

theorem tenPow_zero : tenPow 0 = 1 := rfl

theorem isDigit_of_mem_digits {n : Nat} {c : Char} (hc : c ∈ digits n) : c.isDigit = true :=
  Nat.isDigit_of_mem_toDigits (by decide) (by decide) hc

theorem ofDigits_digits (n : Nat) : ofDigits (digits n) = n := Nat.ofDigitChars_ten_toDigits

/-- Zeros at the end multiply by a power of ten. -/
theorem ofDigits_append_zeros (ds : List Char) (k : Nat) :
    ofDigits (ds ++ List.replicate k '0') = ofDigits ds * tenPow k := by
  rw [ofDigits, Nat.ofDigitChars_append, Nat.ofDigitChars_replicate_zero, Nat.mul_comm]
  rfl

/-- Zeros at the start change nothing. -/
theorem ofDigits_zeros_append (k : Nat) (ds : List Char) :
    ofDigits (List.replicate k '0' ++ ds) = ofDigits ds := by
  rw [ofDigits, Nat.ofDigitChars_append, Nat.ofDigitChars_replicate_zero, Nat.mul_zero]
  rfl

/-! ## Reading a numeral -/

theorem ofUnsigned?_whole (negative : Bool) {ds : List Char} (hds : ∀ c ∈ ds, c.isDigit = true)
    (hne : ds ≠ []) : ofUnsigned? negative ds = some ⟨negative, ofDigits ds, 0⟩ := by
  have htake : ds.takeWhile Char.isDigit = ds := by
    simpa using @List.takeWhile_append_of_pos _ Char.isDigit ds [] hds
  have hdrop : ds.dropWhile Char.isDigit = [] := by
    simpa using @List.dropWhile_append_of_pos _ Char.isDigit ds [] hds
  rw [ofUnsigned?, htake, hdrop]
  simp [hne]

theorem ofUnsigned?_point (negative : Bool) (whole fraction : List Char)
    (hwhole : ∀ c ∈ whole, c.isDigit = true) (hfraction : ∀ c ∈ fraction, c.isDigit = true)
    (hne : whole ++ fraction ≠ []) : ofUnsigned? negative (whole ++ '.' :: fraction) =
      some ⟨negative, ofDigits (whole ++ fraction), -(fraction.length : Int)⟩ := by
  have hpoint : ∀ c ∈ ('.' :: fraction).head?, c.isDigit = false := by
    intro c hc
    cases hc
    decide
  obtain ⟨htake, hdrop⟩ := Token.takeWhile_dropWhile_run hwhole hpoint
  have hall : fraction.all Char.isDigit = true := List.all_eq_true.2 hfraction
  rw [ofUnsigned?, htake, hdrop]
  simp only [hall, hne, ne_eq, not_false_eq_true, and_self, if_true]

/-- Digits with an optional point and digits behind it; digits stand on one side at least. The first
argument is the text, the others are its digits before and behind the point. -/
inductive Unsigned : List Char → List Char → List Char → Prop
  | whole {ds : List Char} : ds ≠ [] → (∀ c ∈ ds, c.isDigit = true) → Unsigned ds ds []
  | point {ds fs : List Char} : ds ≠ [] → (∀ c ∈ ds, c.isDigit = true) →
      (∀ c ∈ fs, c.isDigit = true) → Unsigned (ds ++ '.' :: fs) ds fs
  | fraction {fs : List Char} : fs ≠ [] → (∀ c ∈ fs, c.isDigit = true) →
      Unsigned ('.' :: fs) [] fs

theorem ofUnsigned?_of_unsigned {cs ds fs : List Char} (h : Unsigned cs ds fs) (negative : Bool) :
    ofUnsigned? negative cs = some ⟨negative, ofDigits (ds ++ fs), -(fs.length : Int)⟩ := by
  cases h with
  | whole hne hds =>
    rw [List.append_nil]
    exact ofUnsigned?_whole negative hds hne
  | point hne hds hfs => exact ofUnsigned?_point negative ds fs hds hfs (by simp [hne])
  | fraction hne hfs => exact ofUnsigned?_point negative [] fs nofun hfs hne

theorem unsigned_of_ofUnsigned? {negative : Bool} {cs : List Char} {d : Decimal}
    (h : ofUnsigned? negative cs = some d) : ∃ ds fs, Unsigned cs ds fs := by
  have hsplit := List.takeWhile_append_dropWhile (p := Char.isDigit) (l := cs)
  have hwhole : ∀ c ∈ cs.takeWhile Char.isDigit, c.isDigit = true :=
    List.all_eq_true.1 List.all_takeWhile
  unfold ofUnsigned? at h
  split at h
  · next hdrop =>
    rw [hdrop, List.append_nil] at hsplit
    rw [hsplit] at h hwhole
    dsimp only at h
    split at h
    · cases h
    · next hne => exact ⟨cs, [], .whole hne hwhole⟩
  · next fraction hdrop =>
    rw [hdrop] at hsplit
    dsimp only at h
    split at h
    · next hfraction =>
      obtain ⟨hall, hne⟩ := hfraction
      have hdigits := List.all_eq_true.1 hall
      rw [← hsplit]
      by_cases hempty : cs.takeWhile Char.isDigit = []
      · rw [hempty] at hne ⊢
        exact ⟨[], fraction, .fraction hne hdigits⟩
      · exact ⟨_, fraction, .point hempty hwhole hdigits⟩
    · cases h
  · cases h

/-- A minus sign, where there is one, stands before what is read without it. -/
theorem ofLiteral?_signed {negative : Bool} {cs : List Char} {d : Decimal}
    (h : ofUnsigned? negative cs = some d) :
    ofLiteral? ((if negative then ['-'] else []) ++ cs) = some d := by
  cases negative with
  | true => exact h
  | false =>
    unfold ofLiteral?
    split
    · next rest heq =>
      have hcs : cs = '-' :: rest := heq
      rw [hcs] at h
      cases h
    · exact h

/-- Only digits, a point and a minus sign stand in a numeral. -/
theorem mem_of_ofUnsigned? {negative : Bool} {cs : List Char} {d : Decimal}
    (h : ofUnsigned? negative cs = some d) :
    cs ≠ [] ∧ ∀ c ∈ cs, c.isDigit = true ∨ c = '.' := by
  obtain ⟨ds, fs, hunsigned⟩ := unsigned_of_ofUnsigned? h
  cases hunsigned with
  | whole hne hds => exact ⟨hne, fun c hc => .inl (hds c hc)⟩
  | point _ hds hfs =>
    refine ⟨by simp, fun c hc => ?_⟩
    rcases List.mem_append.1 hc with hc | hc
    · exact .inl (hds c hc)
    · exact (List.mem_cons.1 hc).elim .inr fun hc => .inl (hfs c hc)
  | fraction _ hfs =>
    exact ⟨nofun, fun c hc => (List.mem_cons.1 hc).elim .inr fun hc => .inl (hfs c hc)⟩

theorem mem_of_ofLiteral? {cs : List Char} {d : Decimal} (h : ofLiteral? cs = some d) :
    cs ≠ [] ∧ ∀ c ∈ cs, c.isDigit = true ∨ c = '.' ∨ c = '-' := by
  unfold ofLiteral? at h
  split at h
  · next rest =>
    obtain ⟨_, hrest⟩ := mem_of_ofUnsigned? h
    refine ⟨nofun, fun c hc => ?_⟩
    rcases List.mem_cons.1 hc with rfl | hc
    · exact .inr (.inr rfl)
    · exact (hrest c hc).imp_right .inl
  · obtain ⟨hne, hcs⟩ := mem_of_ofUnsigned? h
    exact ⟨hne, fun c hc => (hcs c hc).imp_right .inl⟩

/-! ## Writing a numeral -/

theorem isDigit_of_mem_zeros {k : Nat} {c : Char} (hc : c ∈ List.replicate k '0') :
    c.isDigit = true := by
  rw [(List.mem_replicate.1 hc).2]
  decide

theorem ofUnsigned?_positionalText_whole (negative : Bool) (c k : Nat) :
    ofUnsigned? negative (Layout.positionalText false (digits c) (.ofNat k)) =
      some ⟨negative, c * tenPow k, 0⟩ := by
  have hall : ∀ a ∈ digits c ++ List.replicate k '0', a.isDigit = true := by
    intro a ha
    exact (List.mem_append.1 ha).elim isDigit_of_mem_digits isDigit_of_mem_zeros
  have hne : digits c ≠ [] := Nat.toDigits_ne_nil
  have hread := ofUnsigned?_whole negative hall (by simp [hne])
  rw [ofDigits_append_zeros, ofDigits_digits] at hread
  simpa [Layout.positionalText] using hread

theorem ofUnsigned?_positionalText_point (negative : Bool) (c k : Nat) :
    ofUnsigned? negative (Layout.positionalText false (digits c) (.negSucc k)) =
      some ⟨negative, c, .negSucc k⟩ := by
  rw [Layout.positionalText]
  split
  · next hlong =>
    -- the point falls inside the digits
    have hne : digits c ≠ [] := Nat.toDigits_ne_nil
    have hread := ofUnsigned?_point negative
      ((digits c).take ((digits c).length - (k + 1)))
      ((digits c).drop ((digits c).length - (k + 1)))
      (fun a ha => isDigit_of_mem_digits (List.mem_of_mem_take ha))
      (fun a ha => isDigit_of_mem_digits (List.mem_of_mem_drop ha))
      (by rw [List.take_append_drop]; exact hne)
    have hlength : ((digits c).drop ((digits c).length - (k + 1))).length = k + 1 := by
      rw [List.length_drop]
      omega
    rw [List.take_append_drop, ofDigits_digits, hlength] at hread
    exact hread
  · next hshort =>
    -- zeros stand between the point and the digits
    obtain ⟨n, hn⟩ : ∃ n, n + (digits c).length = k + 1 := ⟨k + 1 - (digits c).length, by omega⟩
    have hcount : k + 1 - (digits c).length = n := by omega
    have hread := ofUnsigned?_point negative ['0'] (List.replicate n '0' ++ digits c)
      (fun a ha => by rw [List.mem_singleton.1 ha]; decide)
      (fun a ha => (List.mem_append.1 ha).elim isDigit_of_mem_zeros isDigit_of_mem_digits) (by simp)
    have hlength : (List.replicate n '0' ++ digits c).length = k + 1 := by
      rw [List.length_append, List.length_replicate, hn]
    have hvalue : ofDigits (['0'] ++ (List.replicate n '0' ++ digits c)) = c := by
      have hzeros := ofDigits_zeros_append (n + 1) (digits c)
      rwa [ofDigits_digits] at hzeros
    rw [hvalue, hlength] at hread
    rw [hcount]
    exact hread

/-- The positional text of a decimal is read as a decimal of the same value. -/
theorem ofUnsigned?_positionalText (negative : Bool) (c : Nat) (e : Int) :
    ∃ d, ofUnsigned? negative (Layout.positionalText false (digits c) e) = some d ∧
      Binary64.ofDecimal d = Binary64.ofDecimal ⟨negative, c, e⟩ := by
  cases e with
  | ofNat k =>
    refine ⟨_, ofUnsigned?_positionalText_whole negative c k, ?_⟩
    change Binary64.ofRatio negative (c * tenPow k * tenPow 0 * Binary64.one) 1 =
      Binary64.ofRatio negative (c * tenPow k * Binary64.one) 1
    rw [tenPow_zero, Nat.mul_one]
  | negSucc k => exact ⟨_, ofUnsigned?_positionalText_point negative c k, rfl⟩

end Decimal

namespace Binary64

/-! ## Numbers from numerals -/

theorem ofRatio_ne_nan (negative : Bool) (n d : Nat) : ofRatio negative n d ≠ .nan := by
  unfold ofRatio
  intro h
  split at h <;> cases h

theorem ofDecimal_ne_nan (d : Decimal) : ofDecimal d ≠ .nan := by
  unfold ofDecimal
  split <;> exact ofRatio_ne_nan _ _ _

theorem exists_toDecimal? (tie : Tie) (negative : Bool) {units : Nat} (h : Representable units) :
    ∃ d, (Binary64.finite negative units h).toDecimal? tie = some d := by
  rw [toDecimal?]
  split
  · exact ⟨_, rfl⟩
  · exact ⟨_, rfl⟩

/-- One above the largest word and the largest word itself are the same number. -/
theorem nearest_maxWord : nearest (maxWord * one) 1 = (maxWord + 1) * one := by decide +kernel

/-- A whole number in the range of sizes is the number of the size it is cut to. -/
theorem ofNat_toWord {x : Binary64} {k : Int} (hwhole : x.whole? = some k) (hpos : 1 ≤ k)
    (hle : k ≤ maxWord + 1) : ofNat x.toWord = x := by
  cases x with
  | nan => cases hwhole
  | infinity s => cases hwhole
  | finite s u hu =>
    rw [whole?] at hwhole
    split at hwhole
    · next hmod =>
      have hunits : u / one * one = u := Nat.div_mul_cancel (Nat.dvd_of_mod_eq_zero hmod)
      have hk := Option.some.inj hwhole
      cases s with
      | true =>
        change -((u / one : Nat) : Int) = k at hk
        generalize u / one = whole at hk
        omega
      | false =>
        change ((u / one : Nat) : Int) = k at hk
        change ofNat (min (u / one) maxWord) = _
        by_cases hword : u / one ≤ maxWord
        · rw [Nat.min_eq_left hword, ofNat, hunits]
          have hexact := ofRatio_exact false hu Nat.one_pos
          rwa [Nat.mul_one] at hexact
        · have htop : u / one = maxWord + 1 := by
            generalize u / one = whole at hk hword
            omega
          have hround : nearest (maxWord * one) 1 = u := by
            rw [nearest_maxWord, ← htop, hunits]
          rw [Nat.min_eq_right (Nat.le_of_not_le hword), ofNat]
          unfold ofRatio
          simp [hround, hu.2]
    · cases hwhole

end Binary64

namespace Expr

theorem literal?_eq_some {t : String} {x : Binary64} (h : literal? t = some x) :
    ∃ d, Decimal.ofLiteral? t.toList = some d ∧ Binary64.ofDecimal d = x :=
  Option.map_eq_some_iff.1 h

theorem literal?_ofList {cs : List Char} {d : Decimal} (h : Decimal.ofLiteral? cs = some d) :
    literal? (String.ofList cs) = some (Binary64.ofDecimal d) := by
  rw [literal?, String.toList_ofList, h]
  rfl

theorem literal?_ne_nan {t : String} {x : Binary64} (h : literal? t = some x) : x ≠ .nan := by
  obtain ⟨d, _, rfl⟩ := literal?_eq_some h
  exact Binary64.ofDecimal_ne_nan d

/-- The plain text of a finite number is a numeral of that number. -/
theorem literal?_plain (negative : Bool) {units : Nat} (h : Binary64.Representable units) :
    literal? (Layout.plain.text (.finite negative units h)) = some (.finite negative units h) := by
  obtain ⟨d, hd⟩ := Binary64.exists_toDecimal? .up negative h
  obtain ⟨d', hread, hvalue⟩ :=
    Decimal.ofUnsigned?_positionalText d.negative d.coefficient d.exponent
  have htext : Layout.plain.text (.finite negative units h) =
      String.ofList ((if d.negative then ['-'] else []) ++
        Layout.positionalText false (Decimal.digits d.coefficient) d.exponent) := by
    have hplain : Binary64.toDecimal? Layout.plain.tie (.finite negative units h) = some d := hd
    simp only [Layout.text, hplain, Layout.decimalText]
    simp [Layout.plain]
  rw [htext, literal?_ofList (Decimal.ofLiteral?_signed hread), hvalue]
  exact congrArg some (Binary64.ofDecimal_toDecimal? hd)

/-- The text of a natural number is a numeral of the number nearest to it. -/
theorem literal?_nat (n : Nat) : literal? (toString n) = some (Binary64.ofNat n) := by
  have hread : Decimal.ofUnsigned? false (Decimal.digits n) = _ :=
    Decimal.ofUnsigned?_whole false (fun c => Decimal.isDigit_of_mem_digits) Nat.toDigits_ne_nil
  have hsigned := Decimal.ofLiteral?_signed hread
  rw [Nat.toString_eq_ofList_toDigits]
  refine (literal?_ofList hsigned).trans (congrArg some ?_)
  change Binary64.ofRatio false (Decimal.ofDigits (Decimal.digits n) * Decimal.tenPow 0 *
    Binary64.one) 1 = _
  rw [Decimal.ofDigits_digits, Decimal.tenPow_zero, Nat.mul_one]
  rfl

/-! ## Numerals among the atoms -/

theorem isAtomChar_of_isDigit {c : Char} (h : c.isDigit = true) : Token.isAtomChar c = true := by
  obtain ⟨hlow, hhigh⟩ := Char.isDigit_iff_toNat.1 h
  change 48 ≤ c.toNat at hlow
  change c.toNat ≤ 57 at hhigh
  have hblank : Text.isBlank c = false := by
    simp only [Text.isBlank, Text.blankRanges, List.any_cons, List.any_nil, Bool.or_eq_false_iff,
      Bool.and_eq_false_iff, decide_eq_false_iff_not, and_true]
    omega
  refine (Token.isAtomChar_iff c).2 ⟨hblank, ?_, ?_, ?_⟩
  all_goals
    rintro rfl
    revert h
    decide

theorem isWord_of_literal? {t : String} {x : Binary64} (h : literal? t = some x) :
    Token.IsWord t := by
  obtain ⟨d, hd, _⟩ := literal?_eq_some h
  obtain ⟨hne, hchars⟩ := Decimal.mem_of_ofLiteral? hd
  refine ⟨hne, fun c hc => ?_⟩
  rcases hchars c hc with hdigit | rfl | rfl
  · exact isAtomChar_of_isDigit hdigit
  · decide
  · decide

theorem ne_of_literal? {t word : String} {x : Binary64} (h : literal? t = some x)
    (hword : literal? word = none) : t ≠ word := by
  rintro rfl
  rw [h] at hword
  cases hword

/-- A numeral stands for its number. -/
theorem ofAtom_of_literal? {t : String} {x : Binary64} (h : literal? t = some x) :
    ofAtom t = .num x := by
  have htrue : t ≠ "true" := ne_of_literal? h rfl
  have hfalse : t ≠ "false" := ne_of_literal? h rfl
  have hnum : t ≠ "Num" := ne_of_literal? h rfl
  have hbool : t ≠ "Bool" := ne_of_literal? h rfl
  simp only [ofAtom, CellType.ofName?, htrue, hfalse, hnum, hbool, if_false, h]

theorem literal?_word (k : Special) : literal? k.word = none := by
  cases k <;> rfl

theorem literal?_symbol (op : Operator) : literal? op.symbol = none := by
  cases op <;> rfl

theorem ofWord?_of_literal? {t : String} {x : Binary64} (h : literal? t = some x) :
    Special.ofWord? t = none :=
  List.find?_eq_none.2 fun k _ hk => ne_of_literal? h (literal?_word k) (eq_of_beq hk).symm

end Expr

end CellLang
