import CellLang.Source.Span

/-!
# Places in a text

Line and column of a diagnostic, both counted from one. A place is found by counting characters up
to the start of a span; a span that reaches past the end of the text has no place.
-/

namespace CellLang

structure Place where
  line : Nat
  column : Nat
deriving DecidableEq, Repr

namespace Place

/-- Characters that end a line. -/
def lineEnds : List Char := ['\r', '\n', '\x0b', '\x0c', '\u0085', '\u2028', '\u2029']

/-- Whether a line ends between a character and what follows it. -/
def breaksBefore (c : Char) (rest : List Char) : Bool :=
  lineEnds.contains c && !rest.isEmpty && !(c == '\r' && rest.head? == some '\n')

/-- The place reached from `p` after a number of characters. -/
def advance (p : Place) : Nat → List Char → Place
  | 0, _ | _, [] => p
  | n + 1, c :: cs =>
    if breaksBefore c cs then advance ⟨p.line + 1, 1⟩ n cs
    else advance ⟨p.line, p.column + 1⟩ n cs

/-- The place of a span in a text, its offsets taken as characters. -/
def find? (source : String) (span : Span) : Option Place :=
  let cs := source.toList
  if span.start ≤ cs.length ∧ span.stop ≤ cs.length + 1 then
    some (advance ⟨1, 1⟩ span.start cs)
  else
    none

end Place

end CellLang
