import CellLang.Number.Shortest

/-!
# Number layouts

The three ways a number is written. They share the shortest digits and differ in notation: `plain`
in program text and messages, `shown` for printed values and cells, `tree` in syntax trees.
-/

namespace CellLang

/-- How the digits of a number become text. -/
structure Layout where
  tie : Tie
  /-- Decimal orders of magnitude that are written without an exponent. -/
  positional : Int → Bool
  /-- Whether whole numbers end in `.0`. -/
  pointZero : Bool
  /-- Whether the negative zero keeps its sign. -/
  signedZero : Bool
  nan : String
  infinity : String

namespace Layout

/-- Never an exponent, no `.0`, and every sign is kept. -/
def plain : Layout := ⟨.up, fun _ => true, false, true, "NaN", "inf"⟩

/-- As `plain`, but both zeros are `0` and infinity is spelled out. -/
def shown : Layout := ⟨.up, fun _ => true, false, false, "NaN", "Infinity"⟩

/-- An exponent below `1e-5` and from `1e16` on, otherwise at least one place. -/
def tree : Layout := ⟨.toEven, fun e => -5 ≤ e && e < 16, true, true, "null", "null"⟩

/-- Digits times `10 ^ p` without an exponent. -/
def positionalText (pointZero : Bool) (ds : List Char) : Int → List Char
  | .ofNat k => ds ++ List.replicate k '0' ++ if pointZero then ['.', '0'] else []
  | .negSucc k =>
    if k + 1 < ds.length then
      ds.take (ds.length - (k + 1)) ++ '.' :: ds.drop (ds.length - (k + 1))
    else
      '0' :: '.' :: (List.replicate (k + 1 - ds.length) '0' ++ ds)

/-- One digit, the others after a point, and an exponent with its sign. -/
def scientificText (ds : List Char) (order : Int) : List Char :=
  let mantissa := match ds with
    | d :: e :: rest => d :: '.' :: e :: rest
    | short => short
  let sign := if order < 0 then '-' else '+'
  mantissa ++ 'e' :: sign :: Decimal.digits order.natAbs

/-- The text of a decimal number in this layout. -/
def decimalText (l : Layout) (d : Decimal) : List Char :=
  let ds := Decimal.digits d.coefficient
  let order := d.exponent + ds.length - 1
  let sign := if d.negative && (l.signedZero || d.coefficient ≠ 0) then ['-'] else []
  let body := if d.coefficient = 0 || l.positional order then
      positionalText l.pointZero ds d.exponent
    else
      scientificText ds order
  sign ++ body

/-- The text of a number in this layout. -/
def text (l : Layout) (x : Binary64) : String :=
  match x, x.toDecimal? l.tie with
  | _, some d => String.ofList (l.decimalText d)
  | .infinity true, none => "-" ++ l.infinity
  | .infinity false, none => l.infinity
  | _, none => l.nan

end Layout

end CellLang
