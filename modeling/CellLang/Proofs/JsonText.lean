import CellLang.Json.Reader
import CellLang.Proofs.Spelling

/-!
# JSON text

The grammar of JSON without blanks, as relations between a text, what its front spells and the rest
after that. The compact text of a value spells the value, whatever characters its strings hold:
what would end a string, and what may not stand in one, is escaped. The reader finds in every text
of the grammar the value that it spells, so no text spells two values. Reading consumes at least one
character in each step; a reader that may take as many steps as the text has characters therefore
never stops early.
-/

namespace CellLang.Json

/-! ## The grammar of numbers -/

/-- One digit or more. -/
def IsDigits (cs : List Char) : Prop := cs ≠ [] ∧ ∀ c ∈ cs, c.isDigit = true

/-- A zero, or digits that begin with another one. -/
inductive IsWhole : List Char → Prop
  | zero : IsWhole ['0']
  | digits {c : Char} {cs : List Char} : c ≠ '0' → IsDigits (c :: cs) → IsWhole (c :: cs)

/-- A point and digits, or nothing. -/
inductive IsPlaces : List Char → Prop
  | none : IsPlaces []
  | some {ds : List Char} : IsDigits ds → IsPlaces ('.' :: ds)

/-- A mark, perhaps a sign, and digits; or nothing. -/
inductive IsPower : List Char → Prop
  | none : IsPower []
  | some {mark : Char} {sign ds : List Char} : mark = 'e' ∨ mark = 'E' →
      sign = [] ∨ sign = ['+'] ∨ sign = ['-'] → IsDigits ds → IsPower (mark :: (sign ++ ds))

/-- Perhaps a minus sign, then a whole number with its places and its exponent. -/
inductive IsNumeral : List Char → Prop
  | mk {sign whole places power : List Char} : sign = [] ∨ sign = ['-'] → IsWhole whole →
      IsPlaces places → IsPower power → IsNumeral (sign ++ (whole ++ (places ++ power)))

/-! ## The grammar of values -/

/-- How a character may stand in a string: as itself, after a backslash by its letter, or by its
code units. -/
inductive SpellsChar : List Char → Char → Prop
  | plain {c : Char} : c ≠ '"' → c ≠ '\\' → ¬ c.toNat < 32 → SpellsChar [c] c
  | letter {e c : Char} : unescape? e = some c → SpellsChar ['\\', e] c
  | unit {a b c d ch : Char} : (unit? a b c d).bind unitChar? = some ch →
      SpellsChar ['\\', 'u', a, b, c, d] ch
  | pair {a b c d e f g h ch : Char} {high low : Nat} : unit? a b c d = some high →
      unit? e f g h = some low → pairChar? high low = some ch →
      SpellsChar ['\\', 'u', a, b, c, d, '\\', 'u', e, f, g, h] ch

/-- The characters of a string and its closing quote, before a rest. -/
inductive SpellsChars : List Char → List Char → List Char → Prop
  | nil {rest : List Char} : SpellsChars ('"' :: rest) [] rest
  | cons {t cs s rest : List Char} {c : Char} : SpellsChar t c → SpellsChars s cs rest →
      SpellsChars (t ++ s) (c :: cs) rest

/-- A quoted string before a rest. -/
inductive SpellsString : List Char → String → List Char → Prop
  | mk {s rest : List Char} {str : String} : SpellsChars s str.toList rest →
      SpellsString ('"' :: s) str rest

mutual

/-- The text begins with the value, and the rest follows. -/
inductive Spells : List Char → Json → List Char → Prop
  | null {rest : List Char} : Spells ("null".toList ++ rest) .null rest
  | bool {rest : List Char} (b : Bool) :
      Spells ((if b then "true" else "false").toList ++ rest) (.bool b) rest
  | number {literal : String} {rest : List Char} : IsNumeral literal.toList →
      Spells (literal.toList ++ rest) (.number literal) rest
  | string {s rest : List Char} {str : String} : SpellsString s str rest →
      Spells s (.string str) rest
  | emptyArray {rest : List Char} : Spells ('[' :: ']' :: rest) (.array []) rest
  | array {s s' rest : List Char} {item : Json} {items : List Json} : Spells s item s' →
      SpellsItems s' items rest → Spells ('[' :: s) (.array (item :: items)) rest
  | emptyObject {rest : List Char} : Spells ('\x7b' :: '\x7d' :: rest) (.object []) rest
  | object {s s' rest : List Char} {member : String × Json} {members : List (String × Json)} :
      SpellsMember s member s' → SpellsMembers s' members rest →
      Spells ('\x7b' :: s) (.object (member :: members)) rest

/-- Further items of an array, each after a comma, and its end. -/
inductive SpellsItems : List Char → List Json → List Char → Prop
  | nil {rest : List Char} : SpellsItems (']' :: rest) [] rest
  | cons {s s' rest : List Char} {item : Json} {items : List Json} : Spells s item s' →
      SpellsItems s' items rest → SpellsItems (',' :: s) (item :: items) rest

/-- A key, a colon and a value. -/
inductive SpellsMember : List Char → String × Json → List Char → Prop
  | mk {s s' rest : List Char} {key : String} {value : Json} : SpellsString s key (':' :: s') →
      Spells s' value rest → SpellsMember s (key, value) rest

/-- Further members of an object, each after a comma, and its end. -/
inductive SpellsMembers : List Char → List (String × Json) → List Char → Prop
  | nil {rest : List Char} : SpellsMembers ('\x7d' :: rest) [] rest
  | cons {s s' rest : List Char} {member : String × Json} {members : List (String × Json)} :
      SpellsMember s member s' → SpellsMembers s' members rest →
      SpellsMembers (',' :: s) (member :: members) rest

end

/-! ## What is written -/

/-- The first code unit of a pair is no character by itself. -/
theorem unitChar?_of_pairChar? {high low : Nat} {ch : Char} (h : pairChar? high low = some ch) :
    unitChar? high = none := by
  unfold pairChar? at h
  split at h
  · next hrange => exact if_pos (by omega)
  · cases h

theorem readChars_append {t : List Char} {c : Char} (h : SpellsChar t c) (s : List Char) :
    readChars (t ++ s) = (readChars s).map fun (cs, r) => (c :: cs, r) := by
  cases h with
  | plain hquote hslash hcode => simp [readChars, hslash, hcode]
  | @letter e c hletter =>
    have hunit : e ≠ 'u' := by
      rintro rfl
      cases hletter
    simp [readChars, hunit, hletter]
  | unit hchar =>
    change readChars ('\\' :: 'u' :: _ :: _ :: _ :: _ :: s) = _
    rw [readChars.eq_def]
    simp only [hchar]
  | pair hhigh hlow hpair =>
    have hchar := unitChar?_of_pairChar? hpair
    change readChars ('\\' :: 'u' :: _ :: _ :: _ :: _ :: '\\' :: 'u' :: _ :: _ :: _ :: _ :: s) = _
    rw [readChars.eq_def]
    simp only [hhigh, hlow, hpair, hchar, Option.bind_some]

theorem SpellsChars.read {s cs rest : List Char} (h : SpellsChars s cs rest) :
    readChars s = some (cs, rest) := by
  induction h with
  | nil => rfl
  | cons hc _ ih => rw [readChars_append hc, ih, Option.map_some]

theorem SpellsString.read {s rest : List Char} {str : String} (h : SpellsString s str rest) :
    readString s = some (str, rest) := by
  obtain ⟨hchars⟩ := h
  rw [readString, hchars.read, Option.map_some]
  exact congrArg (fun t => some (t, rest)) String.ofList_toList

theorem SpellsChars.length_lt {s cs rest : List Char} (h : SpellsChars s cs rest) :
    rest.length < s.length := by
  induction h with
  | nil => exact Nat.lt_succ_self _
  | cons _ _ ih =>
    rw [List.length_append]
    omega

theorem SpellsString.length_lt {s rest : List Char} {str : String} (h : SpellsString s str rest) :
    rest.length < s.length := by
  obtain ⟨hchars⟩ := h
  exact Nat.lt_succ_of_lt hchars.length_lt

/-! ## Numbers are read -/

/-- Characters by which a number goes on. -/
def continuesNumber (c : Char) : Bool := c.isDigit || c == '.' || c == 'e' || c == 'E'

/-- No number goes on in the rest of the text. -/
def Stops (rest : List Char) : Prop := ∀ c ∈ rest.head?, continuesNumber c = false

theorem stops_nil : Stops [] := nofun

theorem stops_cons {c : Char} (h : continuesNumber c = false) (rest : List Char) :
    Stops (c :: rest) := by
  intro d hd
  cases hd
  exact h

theorem Stops.digit {rest : List Char} (h : Stops rest) : ∀ c ∈ rest.head?, c.isDigit = false := by
  intro c hc
  have hstop := h c hc
  simp only [continuesNumber, Bool.or_eq_false_iff] at hstop
  exact hstop.1.1.1

theorem dropDigits?_append {ds rest : List Char} (hds : IsDigits ds)
    (hrest : ∀ c ∈ rest.head?, c.isDigit = false) : dropDigits? (ds ++ rest) = some rest := by
  obtain ⟨hne, hall⟩ := hds
  cases ds with
  | nil => exact absurd rfl hne
  | cons d ds =>
    obtain ⟨hd, hds⟩ := List.forall_mem_cons.1 hall
    change (if d.isDigit then some ((ds ++ rest).dropWhile Char.isDigit) else none) = _
    rw [if_pos hd, (Token.takeWhile_dropWhile_run hds hrest).2]

theorem dropWhole?_append {whole rest : List Char} (h : IsWhole whole)
    (hrest : ∀ c ∈ rest.head?, c.isDigit = false) : dropWhole? (whole ++ rest) = some rest := by
  cases h with
  | zero => rfl
  | @digits c cs hzero hdigits =>
    rw [← dropDigits?_append hdigits hrest]
    unfold dropWhole?
    split
    · next heq => exact absurd (List.cons.inj heq).1 hzero
    · rfl

theorem dropPlaces?_append {places rest : List Char} (h : IsPlaces places)
    (hrest : ∀ c ∈ rest.head?, c.isDigit = false ∧ c ≠ '.') :
    dropPlaces? (places ++ rest) = some rest := by
  cases h with
  | none =>
    rw [List.nil_append]
    unfold dropPlaces?
    split
    · next rest' => exact absurd rfl (hrest '.' rfl).2
    · rfl
  | some hdigits => exact dropDigits?_append hdigits fun c hc => (hrest c hc).1

theorem dropSign_digits {signs ds : List Char} (hsigns : ∀ c ∈ signs, c.isDigit = false)
    (hds : IsDigits ds) (rest : List Char) : dropSign signs (ds ++ rest) = ds ++ rest := by
  obtain ⟨hne, hall⟩ := hds
  cases ds with
  | nil => exact absurd rfl hne
  | cons d ds =>
    have hd : d ∉ signs := by
      intro hmem
      have hdigit := hall d List.mem_cons_self
      rw [hsigns d hmem] at hdigit
      cases hdigit
    exact if_neg hd

theorem dropPower?_append {power rest : List Char} (h : IsPower power) (hrest : Stops rest) :
    dropPower? (power ++ rest) = some rest := by
  cases h with
  | none =>
    cases rest with
    | nil => rfl
    | cons c rest =>
      have hstop := hrest c rfl
      simp only [continuesNumber, Bool.or_eq_false_iff, beq_eq_false_iff_ne] at hstop
      exact if_neg fun hmark => hmark.elim hstop.1.2 hstop.2
  | @some mark sign ds hmark hsign hdigits =>
    have hdrop : dropSign ['+', '-'] (sign ++ (ds ++ rest)) = ds ++ rest := by
      rcases hsign with rfl | rfl | rfl
      · have hsigns : ∀ c ∈ ['+', '-'], c.isDigit = false :=
          List.forall_mem_cons.2 ⟨rfl, List.forall_mem_singleton.2 rfl⟩
        exact dropSign_digits hsigns hdigits rest
      · rfl
      · rfl
    change (if mark = 'e' ∨ mark = 'E' then dropDigits? (dropSign ['+', '-'] (sign ++ ds ++ rest))
      else _) = _
    rw [if_pos hmark, List.append_assoc, hdrop]
    exact dropDigits?_append hdigits hrest.digit

theorem IsWhole.isDigits {whole : List Char} (h : IsWhole whole) : IsDigits whole := by
  cases h with
  | zero => exact ⟨by decide, List.forall_mem_singleton.2 rfl⟩
  | digits _ hdigits => exact hdigits

/-- What follows the places of a numeral is neither a digit nor a point. -/
theorem IsPower.head_append {power rest : List Char} (h : IsPower power) (hrest : Stops rest) :
    ∀ c ∈ (power ++ rest).head?, c.isDigit = false ∧ c ≠ '.' := by
  intro c hc
  cases h with
  | none =>
    have hstop := hrest c hc
    simp only [continuesNumber, Bool.or_eq_false_iff, beq_eq_false_iff_ne] at hstop
    exact ⟨hstop.1.1.1, hstop.1.1.2⟩
  | some hmark _ _ =>
    cases hc
    rcases hmark with rfl | rfl <;> decide

/-- What follows the whole part of a numeral is no digit. -/
theorem IsPlaces.head_append {places rest : List Char} (h : IsPlaces places)
    (hrest : ∀ c ∈ rest.head?, c.isDigit = false) :
    ∀ c ∈ (places ++ rest).head?, c.isDigit = false := by
  cases h with
  | none => exact hrest
  | some _ =>
    intro c hc
    cases hc
    decide

/-- A numeral is read up to its end, and no further. -/
theorem readNumber_append {cs rest : List Char} (h : IsNumeral cs) (hrest : Stops rest) :
    readNumber (cs ++ rest) = some (.number (String.ofList cs), rest) := by
  have htake : (cs ++ rest).take ((cs ++ rest).length - rest.length) = cs := by simp
  cases h with
  | @mk sign whole places power hsign hwhole hplaces hpower =>
    have hafter := hpower.head_append hrest
    have hunsigned : dropSign ['-'] (sign ++ (whole ++ (places ++ power)) ++ rest) =
        whole ++ (places ++ (power ++ rest)) := by
      rcases hsign with rfl | rfl
      · simpa using dropSign_digits (List.forall_mem_singleton.2 rfl) hwhole.isDigits
          (places ++ (power ++ rest))
      · simp [dropSign]
    have hpoint := dropWhole?_append hwhole (hplaces.head_append fun c hc => (hafter c hc).1)
    have hmark := dropPlaces?_append hplaces hafter
    have hend := dropPower?_append hpower hrest
    rw [readNumber, hunsigned, hpoint]
    simp only [Option.bind_eq_bind, Option.bind_some, hmark, hend, htake]
    rfl

/-! ## Values are read -/

/-- Characters that may begin a value. -/
def startsValue (c : Char) : Bool := !isSpace c && c != ']'

theorem skipSpace_cons {c : Char} (h : isSpace c = false) (cs : List Char) :
    skipSpace (c :: cs) = c :: cs :=
  List.dropWhile_cons_of_neg (by rw [h]; exact Bool.false_ne_true)

theorem isSpace_of_startsValue {c : Char} (h : startsValue c = true) : isSpace c = false := by
  simp only [startsValue, Bool.and_eq_true, Bool.not_eq_true'] at h
  exact h.1

/-- Characters that may begin a number. -/
def startsNumber (c : Char) : Bool := c.isDigit || c == '-'

theorem IsNumeral.exists_cons {cs : List Char} (h : IsNumeral cs) :
    ∃ c t, cs = c :: t ∧ startsNumber c = true := by
  obtain ⟨hsign, hwhole, _, _⟩ := h
  rcases hsign with rfl | rfl
  · cases hwhole with
    | zero => exact ⟨_, _, rfl, rfl⟩
    | digits _ hdigits =>
      refine ⟨_, _, rfl, ?_⟩
      rw [startsNumber, hdigits.2 _ List.mem_cons_self, Bool.true_or]
  · exact ⟨_, _, rfl, rfl⟩

theorem ne_of_startsNumber {c d : Char} (hc : startsNumber c = true) (hd : startsNumber d = false) :
    c ≠ d := by
  intro h
  rw [h, hd] at hc
  cases hc

theorem startsValue_of_startsNumber {c : Char} (h : startsNumber c = true) :
    startsValue c = true := by
  simp [startsValue, isSpace, ne_of_startsNumber h (d := ' ') rfl,
    ne_of_startsNumber h (d := '\n') rfl, ne_of_startsNumber h (d := '\r') rfl,
    ne_of_startsNumber h (d := '\t') rfl, ne_of_startsNumber h (d := ']') rfl]

/-- A text that begins like a number is read as one. -/
theorem readValue_number {c : Char} (hc : startsNumber c = true) (cs : List Char) (fuel : Nat) :
    readValue (fuel + 1) (c :: cs) = readNumber (c :: cs) := by
  have hspace := isSpace_of_startsValue (startsValue_of_startsNumber hc)
  have hne := fun d => ne_of_startsNumber hc (d := d)
  rw [readValue, skipSpace_cons hspace]
  split
  · next heq => cases heq
  · next heq => exact absurd (List.cons.inj heq).1 (hne _ (by decide))
  · next heq => exact absurd (List.cons.inj heq).1 (hne _ (by decide))
  · next heq => exact absurd (List.cons.inj heq).1 (hne _ (by decide))
  · next heq => exact absurd (List.cons.inj heq).1 (hne _ (by decide))
  · next heq => exact absurd (List.cons.inj heq).1 (hne _ (by decide))
  · next heq => exact absurd (List.cons.inj heq).1 (hne _ (by decide))
  · rfl

theorem Spells.exists_start {s rest : List Char} {j : Json} (h : Spells s j rest) :
    ∃ c cs, s = c :: cs ∧ startsValue c = true := by
  cases h with
  | null => exact ⟨_, _, rfl, by decide⟩
  | bool b => cases b <;> exact ⟨_, _, rfl, by decide⟩
  | number hliteral =>
    obtain ⟨c, cs, hcs, hc⟩ := hliteral.exists_cons
    exact ⟨c, cs ++ rest, by rw [hcs]; rfl, startsValue_of_startsNumber hc⟩
  | string hs =>
    obtain ⟨_⟩ := hs
    exact ⟨_, _, rfl, by decide⟩
  | emptyArray | array _ _ | emptyObject | object _ _ => exact ⟨_, _, rfl, by decide⟩

theorem SpellsItems.stops {s rest : List Char} {items : List Json} (h : SpellsItems s items rest) :
    Stops s := by
  cases h with
  | nil => exact stops_cons (by decide) _
  | cons _ _ => exact stops_cons (by decide) _

theorem SpellsMembers.stops {s rest : List Char} {members : List (String × Json)}
    (h : SpellsMembers s members rest) : Stops s := by
  cases h with
  | nil => exact stops_cons (by decide) _
  | cons _ _ => exact stops_cons (by decide) _

/-- After an opening bracket, what begins like a value is the first item. -/
theorem readValue_array {c : Char} (hc : startsValue c = true) (cs : List Char) (fuel : Nat) :
    readValue (fuel + 1) ('[' :: c :: cs) = do
      let (item, r) ← readValue fuel (c :: cs)
      let (items, r) ← readItems fuel r
      return (.array (item :: items), r) := by
  rw [readValue, skipSpace_cons rfl]
  simp only [skipSpace_cons (isSpace_of_startsValue hc)]
  split
  · next heq =>
    rw [(List.cons.inj heq).1] at hc
    cases hc
  · rfl

/-- After an opening brace, what begins like a string is the first key. -/
theorem readValue_object (cs : List Char) (fuel : Nat) :
    readValue (fuel + 1) ('\x7b' :: '"' :: cs) = do
      let (member, r) ← readMember fuel ('"' :: cs)
      let (members, r) ← readMembers fuel r
      return (.object (member :: members), r) := rfl

-- The families of the grammar are mutual, and so are these: each part of a text takes up room.
mutual

theorem Spells.length_lt {s rest : List Char} {j : Json} (h : Spells s j rest) :
    rest.length < s.length := by
  cases h with
  | null =>
    rw [List.length_append]
    exact Nat.lt_add_of_pos_left (by decide)
  | bool b =>
    rw [List.length_append]
    exact Nat.lt_add_of_pos_left (by cases b <;> decide)
  | number hliteral =>
    obtain ⟨c, cs, hcs, _⟩ := hliteral.exists_cons
    rw [hcs, List.length_append]
    exact Nat.lt_add_of_pos_left (Nat.succ_pos _)
  | string hs => exact hs.length_lt
  | emptyArray => exact Nat.lt_add_of_pos_right (by decide : 0 < 2)
  | array hitem hitems => exact Nat.lt_succ_of_lt (Nat.lt_trans hitems.length_lt hitem.length_lt)
  | emptyObject => exact Nat.lt_add_of_pos_right (by decide : 0 < 2)
  | object hmember hmembers =>
    exact Nat.lt_succ_of_lt (Nat.lt_trans hmembers.length_lt hmember.length_lt)

theorem SpellsItems.length_lt {s rest : List Char} {items : List Json}
    (h : SpellsItems s items rest) : rest.length < s.length := by
  cases h with
  | nil => exact Nat.lt_succ_self _
  | cons hitem hitems => exact Nat.lt_succ_of_lt (Nat.lt_trans hitems.length_lt hitem.length_lt)

theorem SpellsMember.length_lt {s rest : List Char} {member : String × Json}
    (h : SpellsMember s member rest) : rest.length < s.length := by
  cases h with
  | mk hkey hvalue => exact Nat.lt_trans (Nat.lt_succ_of_lt hvalue.length_lt) hkey.length_lt

theorem SpellsMembers.length_lt {s rest : List Char} {members : List (String × Json)}
    (h : SpellsMembers s members rest) : rest.length < s.length := by
  cases h with
  | nil => exact Nat.lt_succ_self _
  | cons hmember hmembers =>
    exact Nat.lt_succ_of_lt (Nat.lt_trans hmembers.length_lt hmember.length_lt)

end

mutual

/-- What a text spells is read from it by a reader that may take as many steps as there are
characters, before any rest in which no number goes on. -/
theorem Spells.read {s rest : List Char} {j : Json} (h : Spells s j rest) (hrest : Stops rest)
    {fuel : Nat} (hfuel : s.length ≤ fuel) : readValue fuel s = some (j, rest) := by
  have hlt := h.length_lt
  match fuel with
  | 0 => omega
  | fuel + 1 =>
    cases h with
    | null => rfl
    | bool b => cases b <;> rfl
    | @number literal _ hliteral =>
      obtain ⟨c, cs, hcs, hc⟩ := hliteral.exists_cons
      have hread := readNumber_append hliteral hrest
      rw [String.ofList_toList, hcs, List.cons_append] at hread
      rw [hcs, List.cons_append, readValue_number hc, hread]
    | string hs =>
      have hread := hs.read
      obtain ⟨_⟩ := hs
      exact congrArg (Option.map fun p => (Json.string p.1, p.2)) hread
    | emptyArray => rfl
    | array hitem hitems =>
      obtain ⟨c, cs, rfl, hstart⟩ := hitem.exists_start
      have hshorter := hitem.length_lt
      rw [List.length_cons] at hfuel
      have hvalue := hitem.read hitems.stops (by omega : _ ≤ fuel)
      have hrestItems := hitems.read (by omega : _ ≤ fuel)
      rw [readValue_array hstart, hvalue]
      simp only [hrestItems, Option.bind_eq_bind, Option.bind_some]
      rfl
    | emptyObject => rfl
    | object hmember hmembers =>
      have hshorter := hmember.length_lt
      rw [List.length_cons] at hfuel
      have hfirst := hmember.read hmembers.stops (by omega : _ ≤ fuel)
      have hfurther := hmembers.read (by omega : _ ≤ fuel)
      obtain ⟨⟨_⟩, _⟩ := hmember
      rw [readValue_object, hfirst]
      simp only [hfurther, Option.bind_eq_bind, Option.bind_some]
      rfl

theorem SpellsItems.read {s rest : List Char} {items : List Json} (h : SpellsItems s items rest)
    {fuel : Nat} (hfuel : s.length ≤ fuel) : readItems fuel s = some (items, rest) := by
  have hlt := h.length_lt
  match fuel with
  | 0 => omega
  | fuel + 1 =>
    cases h with
    | nil => rfl
    | cons hitem hitems =>
      have hshorter := hitem.length_lt
      rw [List.length_cons] at hfuel
      have hvalue := hitem.read hitems.stops (by omega : _ ≤ fuel)
      have hrestItems := hitems.read (by omega : _ ≤ fuel)
      rw [readItems, skipSpace_cons rfl]
      simp only [hvalue, hrestItems, Option.bind_eq_bind, Option.bind_some]
      rfl

theorem SpellsMember.read {s rest : List Char} {member : String × Json}
    (h : SpellsMember s member rest) (hrest : Stops rest) {fuel : Nat} (hfuel : s.length ≤ fuel) :
    readMember fuel s = some (member, rest) := by
  have hlt := h.length_lt
  match fuel with
  | 0 => omega
  | fuel + 1 =>
    cases h with
    | mk hkey hvalue =>
      have hshorter := hkey.length_lt
      rw [List.length_cons] at hshorter
      have hkeyRead := hkey.read
      have hvalueRead := hvalue.read hrest (by omega : _ ≤ fuel)
      obtain ⟨_⟩ := hkey
      rw [readMember, skipSpace_cons rfl, hkeyRead]
      simp only [Option.bind_eq_bind, Option.bind_some, skipSpace_cons (c := ':') rfl, hvalueRead]
      rfl

theorem SpellsMembers.read {s rest : List Char} {members : List (String × Json)}
    (h : SpellsMembers s members rest) {fuel : Nat} (hfuel : s.length ≤ fuel) :
    readMembers fuel s = some (members, rest) := by
  have hlt := h.length_lt
  match fuel with
  | 0 => omega
  | fuel + 1 =>
    cases h with
    | nil => rfl
    | cons hmember hmembers =>
      have hshorter := hmember.length_lt
      rw [List.length_cons] at hfuel
      have hfirst := hmember.read hmembers.stops (by omega : _ ≤ fuel)
      have hfurther := hmembers.read (by omega : _ ≤ fuel)
      rw [readMembers, skipSpace_cons rfl]
      simp only [hfirst, hfurther, Option.bind_eq_bind, Option.bind_some]
      rfl

end

/-- The reader finds the value that a whole text spells, and refuses it if it is nested more deeply
than the limit. -/
theorem Spells.parse? {text : String} {j : Json} (h : Spells text.toList j [])
    (limit : Option Nat) :
    parse? limit text = if j.fits limit then some j else none := by
  have hread := h.read stops_nil
    (by omega : text.toList.length ≤ 2 * text.toList.length + 2)
  rw [Json.parse?]
  simp only [hread]
  simp [skipSpace]

end CellLang.Json
