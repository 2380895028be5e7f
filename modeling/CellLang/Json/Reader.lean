import CellLang.Json.Basic

/-!
# Reading JSON

A reader for the whole of JSON. Each step takes what it needs from the front of the text and
returns the rest. Values nest at most as deep as the text is long, which bounds the recursion; a
caller may also refuse values that are nested more deeply than it likes.
-/

namespace CellLang.Json

def isSpace (c : Char) : Bool := c == ' ' || c == '\n' || c == '\r' || c == '\t'

def skipSpace (cs : List Char) : List Char := cs.dropWhile isSpace

def hexValue? (c : Char) : Option Nat :=
  if c.isDigit then some (c.toNat - 48)
  else if 'a' ≤ c ∧ c ≤ 'f' then some (c.toNat - 87)
  else if 'A' ≤ c ∧ c ≤ 'F' then some (c.toNat - 55)
  else none

/-- The code unit that four hexadecimal digits spell. -/
def unit? (a b c d : Char) : Option Nat := do
  return ((← hexValue? a) * 16 + (← hexValue? b)) * 256 + (← hexValue? c) * 16 + (← hexValue? d)

/-- The character after a backslash, for the escapes of one letter. -/
def unescape? (c : Char) : Option Char :=
  if c = '"' ∨ c = '\\' ∨ c = '/' then some c
  else if c = 'b' then some '\x08'
  else if c = 'f' then some '\x0c'
  else if c = 'n' then some '\n'
  else if c = 'r' then some '\r'
  else if c = 't' then some '\t'
  else none

/-- The character of a single code unit; surrogates have none. -/
def unitChar? (n : Nat) : Option Char :=
  if 0xD800 ≤ n ∧ n ≤ 0xDFFF then none else some (Char.ofNat n)

/-- The character of a surrogate pair. -/
def pairChar? (high low : Nat) : Option Char :=
  if 0xD800 ≤ high ∧ high ≤ 0xDBFF ∧ 0xDC00 ≤ low ∧ low ≤ 0xDFFF then
    some (Char.ofNat (0x10000 + (high - 0xD800) * 0x400 + (low - 0xDC00)))
  else
    none

/-- The characters of a string up to its closing quote, and the rest after it. -/
def readChars : List Char → Option (List Char × List Char)
  | [] => none
  | '"' :: rest => some ([], rest)
  | '\\' :: 'u' :: a :: b :: c :: d :: rest =>
    match (unit? a b c d).bind unitChar? with
    | some ch => (readChars rest).map fun (cs, r) => (ch :: cs, r)
    | none => match rest with
      | '\\' :: 'u' :: e :: f :: g :: h :: rest =>
        match (unit? a b c d).bind fun high => (unit? e f g h).bind (pairChar? high) with
        | some ch => (readChars rest).map fun (cs, r) => (ch :: cs, r)
        | none => none
      | _ => none
  | '\\' :: c :: rest =>
    match unescape? c with
    | some ch => (readChars rest).map fun (cs, r) => (ch :: cs, r)
    | none => none
  | c :: rest =>
    if c.toNat < 32 then none else (readChars rest).map fun (cs, r) => (c :: cs, r)

/-- A quoted string and the rest after it. -/
def readString : List Char → Option (String × List Char)
  | '"' :: rest => (readChars rest).map fun (cs, r) => (String.ofList cs, r)
  | _ => none

/-- The rest after one of the signs, if there is one. -/
def dropSign (signs : List Char) : List Char → List Char
  | c :: rest => if c ∈ signs then rest else c :: rest
  | [] => []

/-- The rest after digits, of which there must be one. -/
def dropDigits? : List Char → Option (List Char)
  | c :: rest => if c.isDigit then some (rest.dropWhile Char.isDigit) else none
  | [] => none

/-- The rest after a whole number, which is a zero or begins with another digit. -/
def dropWhole? : List Char → Option (List Char)
  | '0' :: rest => some rest
  | cs => dropDigits? cs

/-- The rest after a point and digits, if there is a point. -/
def dropPlaces? : List Char → Option (List Char)
  | '.' :: rest => dropDigits? rest
  | cs => some cs

/-- The rest after an exponent, if there is one. -/
def dropPower? : List Char → Option (List Char)
  | c :: rest =>
    if c = 'e' ∨ c = 'E' then dropDigits? (dropSign ['+', '-'] rest) else some (c :: rest)
  | [] => some []

/-- A number literal and the rest after it. -/
def readNumber (cs : List Char) : Option (Json × List Char) := do
  let rest ← dropPower? (← dropPlaces? (← dropWhole? (dropSign ['-'] cs)))
  return (.number (String.ofList (cs.take (cs.length - rest.length))), rest)

/-- The rest after a fixed word. -/
def dropWord (word : List Char) (cs : List Char) : Option (List Char) :=
  if word.isPrefixOf cs then some (cs.drop word.length) else none

mutual

/-- A value and the rest after it; `fuel` bounds the nesting and the number of items. -/
def readValue : Nat → List Char → Option (Json × List Char)
  | 0, _ => none
  | fuel + 1, cs =>
    match skipSpace cs with
    | [] => none
    | '"' :: rest => (readString ('"' :: rest)).map fun (s, r) => (.string s, r)
    | '[' :: rest =>
      match skipSpace rest with
      | ']' :: r => some (.array [], r)
      | r => do
        let (item, r) ← readValue fuel r
        let (items, r) ← readItems fuel r
        return (.array (item :: items), r)
    | '\x7b' :: rest =>
      match skipSpace rest with
      | '\x7d' :: r => some (.object [], r)
      | r => do
        let (member, r) ← readMember fuel r
        let (members, r) ← readMembers fuel r
        return (.object (member :: members), r)
    | 'n' :: rest => (dropWord "null".toList ('n' :: rest)).map fun r => (.null, r)
    | 't' :: rest => (dropWord "true".toList ('t' :: rest)).map fun r => (.bool true, r)
    | 'f' :: rest => (dropWord "false".toList ('f' :: rest)).map fun r => (.bool false, r)
    | other => readNumber other

/-- Further items of an array up to its end. -/
def readItems : Nat → List Char → Option (List Json × List Char)
  | 0, _ => none
  | fuel + 1, cs =>
    match skipSpace cs with
    | ']' :: rest => some ([], rest)
    | ',' :: rest => do
      let (item, r) ← readValue fuel rest
      let (items, r) ← readItems fuel r
      return (item :: items, r)
    | _ => none

/-- A key, a colon and a value. -/
def readMember : Nat → List Char → Option ((String × Json) × List Char)
  | 0, _ => none
  | fuel + 1, cs => do
    let (key, r) ← readString (skipSpace cs)
    match skipSpace r with
    | ':' :: r => do
      let (value, r) ← readValue fuel r
      return ((key, value), r)
    | _ => none

/-- Further members of an object up to its end. -/
def readMembers : Nat → List Char → Option (List (String × Json) × List Char)
  | 0, _ => none
  | fuel + 1, cs =>
    match skipSpace cs with
    | '\x7d' :: rest => some ([], rest)
    | ',' :: rest => do
      let (member, r) ← readMember fuel rest
      let (members, r) ← readMembers fuel r
      return (member :: members, r)
    | _ => none

end

/-- The value that a whole text spells, unless it is nested more deeply than the limit. -/
def parse? (limit : Option Nat) (text : String) : Option Json :=
  let cs := text.toList
  match readValue (2 * cs.length + 2) cs with
  | some (j, rest) => if skipSpace rest = [] ∧ j.fits limit then some j else none
  | none => none

end CellLang.Json
