import CellLang.Source.Token

/-!
# Forms

A form is an atom or a parenthesised list of forms, with its place in the text. Tokens are read
left to right with a stack of the lists still open; reading succeeds exactly when the parentheses
balance.
-/

namespace CellLang

inductive Form where
  | atom (text : String) (span : Span)
  | list (items : List Form) (span : Span)
deriving Inhabited

/-- Why a token sequence is not a sequence of forms. -/
inductive Imbalance where
  | unexpectedClose (span : Span)
  | unclosedOpen (span : Span)
deriving DecidableEq, Repr

namespace Form

def span : Form → Span
  | .atom _ s => s
  | .list _ s => s

mutual

/-- A form on one line, its items separated by single spaces. -/
def text : Form → String
  | .atom t _ => t
  | .list items _ => "(" ++ String.intercalate " " (texts items) ++ ")"

def texts : List Form → List String
  | [] => []
  | f :: fs => f.text :: texts fs

end

/-- A list that has been opened and not closed: the place of its parenthesis and its items so far,
the latest first. -/
structure Opened where
  span : Span
  items : List Form

/-- Adds a form to the innermost open list, or to the top level when none is open. -/
def place (form : Form) : List Opened → List Form → List Opened × List Form
  | [], top => ([], form :: top)
  | inner :: outer, top => ({ inner with items := form :: inner.items } :: outer, top)

/-- Reads on with the given open lists, innermost first, and top-level forms, latest first. -/
def readWith : List Opened → List Form → List Token → Except Imbalance (List Form)
  | [], top, [] => .ok top.reverse
  | inner :: _, _, [] => .error (.unclosedOpen inner.span)
  | stack, top, ⟨.opening, s⟩ :: ts => readWith (⟨s, []⟩ :: stack) top ts
  | [], _, ⟨.closing, s⟩ :: _ => .error (.unexpectedClose s)
  | inner :: outer, top, ⟨.closing, s⟩ :: ts =>
    let (stack, top) := place (.list inner.items.reverse (inner.span.merge s)) outer top
    readWith stack top ts
  | stack, top, ⟨.atom t, s⟩ :: ts =>
    let (stack, top) := place (.atom t s) stack top
    readWith stack top ts

/-- The forms that a token sequence spells. -/
def ofTokens (tokens : List Token) : Except Imbalance (List Form) := readWith [] [] tokens

/-- The forms of a source text. -/
def read (source : String) : Except Imbalance (List Form) := ofTokens (Token.scan source)

/-- The word at the head of a list form. -/
def head? : Form → Option String
  | .list (.atom t _ :: _) _ => some t
  | _ => none

end Form

end CellLang
