/-!
# JSON values and their text

Members keep their order and numbers keep their literal, so a value determines its text. `write`
puts a value in front of a given rest, without any blanks; `pretty` spreads it over lines.
-/

namespace CellLang

inductive Json where
  | null
  | bool (value : Bool)
  | number (literal : String)
  | string (value : String)
  | array (items : List Json)
  | object (members : List (String × Json))
deriving Inhabited

namespace Json

def hexDigit (n : Nat) : Char :=
  if n < 10 then Char.ofNat (48 + n) else Char.ofNat (87 + n)

/-- How a character stands inside a string: control characters, quotes and backslashes are escaped,
all others stand for themselves. -/
def escape (c : Char) : List Char :=
  if c = '"' then ['\\', '"']
  else if c = '\\' then ['\\', '\\']
  else if c = '\x08' then ['\\', 'b']
  else if c = '\x0c' then ['\\', 'f']
  else if c = '\n' then ['\\', 'n']
  else if c = '\r' then ['\\', 'r']
  else if c = '\t' then ['\\', 't']
  else if c.toNat < 32 then
    ['\\', 'u', '0', '0', hexDigit (c.toNat / 16), hexDigit (c.toNat % 16)]
  else [c]

/-- The characters of a string and the closing quote, before `rest`. -/
def writeChars : List Char → List Char → List Char
  | [], rest => '"' :: rest
  | c :: cs, rest => escape c ++ writeChars cs rest

/-- A quoted string before `rest`. -/
def writeString (s : String) (rest : List Char) : List Char :=
  '"' :: writeChars s.toList rest

mutual

/-- The compact text of a value before `rest`. -/
def write : Json → List Char → List Char
  | .null, rest => "null".toList ++ rest
  | .bool true, rest => "true".toList ++ rest
  | .bool false, rest => "false".toList ++ rest
  | .number literal, rest => literal.toList ++ rest
  | .string s, rest => writeString s rest
  | .array [], rest => '[' :: ']' :: rest
  | .array (item :: items), rest => '[' :: write item (writeItems items rest)
  | .object [], rest => '\x7b' :: '\x7d' :: rest
  | .object ((key, value) :: members), rest =>
    '\x7b' :: writeString key (':' :: write value (writeMembers members rest))

/-- Further items of an array, each after a comma, and its end. -/
def writeItems : List Json → List Char → List Char
  | [], rest => ']' :: rest
  | item :: items, rest => ',' :: write item (writeItems items rest)

/-- Further members of an object, each after a comma, and its end. -/
def writeMembers : List (String × Json) → List Char → List Char
  | [], rest => '\x7d' :: rest
  | (key, value) :: members, rest =>
    ',' :: writeString key (':' :: write value (writeMembers members rest))

end

/-- The text of a value without blanks. -/
def compact (j : Json) : String := String.ofList (write j [])

/-- A line break and the indentation of the given depth, two spaces to a level. -/
def newline (depth : Nat) (rest : List Char) : List Char :=
  '\n' :: (List.replicate (2 * depth) ' ' ++ rest)

mutual

/-- The text of a value over several lines, before `rest`; empty arrays and objects stay closed. -/
def spread (depth : Nat) : Json → List Char → List Char
  | .array [], rest => '[' :: ']' :: rest
  | .array (item :: items), rest =>
    '[' :: newline (depth + 1) (spread (depth + 1) item (spreadItems depth items rest))
  | .object [], rest => '\x7b' :: '\x7d' :: rest
  | .object ((key, value) :: members), rest =>
    '\x7b' :: newline (depth + 1) (writeString key
      (':' :: ' ' :: spread (depth + 1) value (spreadMembers depth members rest)))
  | scalar, rest => write scalar rest

def spreadItems (depth : Nat) : List Json → List Char → List Char
  | [], rest => newline depth (']' :: rest)
  | item :: items, rest =>
    ',' :: newline (depth + 1) (spread (depth + 1) item (spreadItems depth items rest))

def spreadMembers (depth : Nat) : List (String × Json) → List Char → List Char
  | [], rest => newline depth ('\x7d' :: rest)
  | (key, value) :: members, rest =>
    ',' :: newline (depth + 1) (writeString key
      (':' :: ' ' :: spread (depth + 1) value (spreadMembers depth members rest)))

end

/-- The text of a value with one item or member to a line. -/
def pretty (j : Json) : String := String.ofList (spread 0 j [])

mutual

/-- How many arrays and objects are open at once where the value is nested most deeply. -/
def nesting : Json → Nat
  | .array items => nestingItems items + 1
  | .object members => nestingMembers members + 1
  | _ => 0

def nestingItems : List Json → Nat
  | [] => 0
  | item :: items => max item.nesting (nestingItems items)

def nestingMembers : List (String × Json) → Nat
  | [] => 0
  | (_, value) :: members => max value.nesting (nestingMembers members)

end

/-- Nested no more deeply than the limit, if there is one. -/
def fits (limit : Option Nat) (j : Json) : Bool := limit.all fun n => j.nesting ≤ n

/-- The value of a member. -/
def get? (key : String) : Json → Option Json
  | .object members => members.lookup key
  | _ => none

end Json

end CellLang
