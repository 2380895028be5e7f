import CellLang.Json.Reader

/-!
# Settings files

Settings are written in TOML, and only whole numbers under top-level keys can be settings.
`entries?` reads documents of that shape: blank lines, comments and `key = integer` lines. A
document with anything else has no meaning as settings and is refused.
-/

namespace CellLang.Toml

/-- Blanks within a line. -/
def isSpace (c : Char) : Bool := c == ' ' || c == '\t'

def skipSpace (cs : List Char) : List Char := cs.dropWhile isSpace

/-- Characters that comments and quoted keys may hold: no control characters but the tab. -/
def isPrintable (c : Char) : Bool := c == '\t' || (32 ≤ c.toNat && c.toNat != 127)

/-- Every line break as a single line feed. -/
def unifyBreaks : List Char → List Char
  | '\r' :: '\n' :: cs => '\n' :: unifyBreaks cs
  | c :: cs => c :: unifyBreaks cs
  | [] => []

/-- The lines of a text. -/
def lines : List Char → List (List Char)
  | [] => [[]]
  | c :: cs =>
    if c = '\n' then [] :: lines cs
    else match lines cs with
      | line :: rest => (c :: line) :: rest
      | [] => [[c]]

def isBareChar (c : Char) : Bool := c.isAlphanum || c == '_' || c == '-'

/-- Code point of hexadecimal digits. -/
def scalar? (digits : List Char) : Option Char := do
  let n ← digits.foldlM (fun n c => (Json.hexValue? c).map fun d => n * 16 + d) 0
  if n < 0xD800 ∨ (0xDFFF < n ∧ n < 0x110000) then some (Char.ofNat n) else none

/-- The character after a backslash, for the escapes of one letter. -/
def unescape? (c : Char) : Option Char := if c = '/' then none else Json.unescape? c

/-- The characters of a key in double quotes, and the rest after it. -/
def basicKey : List Char → Option (List Char × List Char)
  | [] => none
  | '"' :: rest => some ([], rest)
  | '\\' :: 'u' :: a :: b :: c :: d :: rest =>
    match scalar? [a, b, c, d] with
    | some ch => (basicKey rest).map fun (k, r) => (ch :: k, r)
    | none => none
  | '\\' :: 'U' :: a :: b :: c :: d :: e :: f :: g :: h :: rest =>
    match scalar? [a, b, c, d, e, f, g, h] with
    | some ch => (basicKey rest).map fun (k, r) => (ch :: k, r)
    | none => none
  | '\\' :: c :: rest =>
    match unescape? c with
    | some ch => (basicKey rest).map fun (k, r) => (ch :: k, r)
    | none => none
  | c :: rest =>
    if isPrintable c then (basicKey rest).map fun (k, r) => (c :: k, r) else none

/-- A key, bare or quoted, and the rest after it. -/
def key? : List Char → Option (List Char × List Char)
  | '"' :: rest => basicKey rest
  | '\x27' :: rest =>
    let key := rest.takeWhile fun c => c != '\x27' && isPrintable c
    match rest.drop key.length with
    | '\x27' :: r => some (key, r)
    | _ => none
  | cs =>
    let key := cs.takeWhile isBareChar
    if key = [] then none else some (key, cs.drop key.length)

/-- The value of digits of a base; a single underscore may stand between two digits. -/
def digits? (base : Nat) : List Char → Option Nat
  | [] => none
  | c :: cs => digit? c >>= fun d => more d cs
where
  digit? (c : Char) : Option Nat := do
    let d ← Json.hexValue? c
    if d < base then some d else none
  more (n : Nat) : List Char → Option Nat
    | [] => some n
    | '_' :: c :: cs => digit? c >>= fun d => more (n * base + d) cs
    | c :: cs => digit? c >>= fun d => more (n * base + d) cs

/-- A decimal number, which has no leading zero. -/
def decimal? (cs : List Char) : Option Nat :=
  match cs with
  | '0' :: _ :: _ => none
  | _ => digits? 10 cs

/-- A whole number of 64 bits with a sign. -/
def integer? (cs : List Char) : Option Int :=
  let value : Option Int := match cs with
    | '0' :: 'x' :: ds => (digits? 16 ds).map Int.ofNat
    | '0' :: 'o' :: ds => (digits? 8 ds).map Int.ofNat
    | '0' :: 'b' :: ds => (digits? 2 ds).map Int.ofNat
    | '+' :: ds => (decimal? ds).map Int.ofNat
    | '-' :: ds => (decimal? ds).map fun n => -Int.ofNat n
    | ds => (decimal? ds).map Int.ofNat
  value.bind fun n => if -9223372036854775808 ≤ n ∧ n ≤ 9223372036854775807 then some n else none

/-- What a line may end in: nothing or a comment. -/
def isEnd (cs : List Char) : Bool :=
  match skipSpace cs with
  | [] => true
  | '#' :: comment => comment.all isPrintable
  | _ => false

/-- Characters of the word that a value is. -/
def isValueChar (c : Char) : Bool := !isSpace c && c != '#'

/-- The entries of one line, none or one. -/
def line? (cs : List Char) : Option (List (String × Int)) :=
  if isEnd cs then some []
  else do
    let (key, rest) ← key? (skipSpace cs)
    match skipSpace rest with
    | '=' :: rest =>
      let value := skipSpace rest
      let n ← integer? (value.takeWhile isValueChar)
      if isEnd (value.dropWhile isValueChar) then some [(String.ofList key, n)] else none
    | _ => none

/-- The entries of a document in order, if it has no others than whole numbers. -/
def entries? (text : String) : Option (List (String × Int)) :=
  let cs := match text.toList with
    | '\uFEFF' :: cs => cs
    | cs => cs
  ((lines (unifyBreaks cs)).mapM line?).map List.flatten

end CellLang.Toml
