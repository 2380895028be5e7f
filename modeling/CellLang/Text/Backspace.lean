import CellLang.Text.Blank
import CellLang.Text.Cluster

/-!
# Backspaces in a line

A line of input may hold backspaces: each takes back the cluster before it.
-/

namespace CellLang.Text

def backspace : Char := '\x08'

/-- Drops characters as long as they fit a number of bytes. -/
def dropBytes (n : Nat) : List Char → List Char
  | [] => []
  | c :: cs => if c.utf8Size ≤ n then dropBytes (n - c.utf8Size) cs else c :: cs

/-- The text typed so far, last character first, and the length of each of its clusters in bytes,
last first. A length is kept in one byte, so it is exact for clusters below 256 bytes. -/
structure Typed where
  text : List Char
  lengths : List UInt8

namespace Typed

def empty : Typed := ⟨[], []⟩

/-- Takes back the last cluster, if there is one. -/
def erase (t : Typed) : Typed :=
  match t.lengths with
  | [] => t
  | n :: lengths => ⟨dropBytes n.toNat t.text, lengths⟩

def add (t : Typed) (cluster : List Char) : Typed :=
  ⟨cluster.reverse ++ t.text, (byteLength cluster).toUInt8 :: t.lengths⟩

/-- Types a cluster, which may be a backspace. -/
def type (t : Typed) (cluster : List Char) : Typed :=
  if cluster = [backspace] then t.erase else t.add cluster

end Typed

/-- The text that a line holds after its backspaces have taken effect. -/
def applyBackspaces (cs : List Char) : List Char :=
  ((clusters cs).foldl Typed.type .empty).text.reverse

end CellLang.Text
