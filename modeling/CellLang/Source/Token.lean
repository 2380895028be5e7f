import CellLang.Source.Span
import CellLang.Text.Blank

/-!
# Tokens

A source text is a sequence of parentheses and atoms. Blanks separate atoms, and a comment runs
from `;` up to the next line feed. Every text can be scanned.
-/

namespace CellLang

/-- What a token stands for. -/
inductive Lexeme where
  | opening
  | closing
  | atom (text : String)
deriving DecidableEq, Repr

/-- A lexeme and the place where it is written. -/
structure Token where
  lexeme : Lexeme
  span : Span
deriving DecidableEq, Repr

namespace Lexeme

def text : Lexeme → String
  | .opening => "("
  | .closing => ")"
  | .atom t => t

end Lexeme

namespace Token

open Text

/-- Characters that may stand in an atom. -/
def isAtomChar (c : Char) : Bool :=
  !isBlank c && c != '(' && c != ')' && c != ';'

/-- Characters that do not end a comment. -/
def isCommentChar (c : Char) : Bool := c != '\n'

/-- The tokens of a text whose first character stands at byte `offset`. -/
def scanFrom (offset : Nat) : List Char → List Token
  | [] => []
  | c :: cs =>
    if c = '(' then
      ⟨.opening, offset, offset + 1⟩ :: scanFrom (offset + 1) cs
    else if c = ')' then
      ⟨.closing, offset, offset + 1⟩ :: scanFrom (offset + 1) cs
    else if c = ';' then
      scanFrom (offset + 1 + byteLength (cs.takeWhile isCommentChar))
        (cs.dropWhile isCommentChar)
    else if isBlank c then
      scanFrom (offset + c.utf8Size) cs
    else
      let word := c :: cs.takeWhile isAtomChar
      let stop := offset + byteLength word
      ⟨.atom (String.ofList word), offset, stop⟩ :: scanFrom stop (cs.dropWhile isAtomChar)
termination_by cs => cs.length
decreasing_by
  all_goals simp only [List.length_cons]
  all_goals first
    | omega
    | exact Nat.lt_succ_of_le (length_dropWhile_le _ _)

/-- The tokens of a source text, in order. -/
def scan (source : String) : List Token := scanFrom 0 source.toList

end Token

end CellLang
