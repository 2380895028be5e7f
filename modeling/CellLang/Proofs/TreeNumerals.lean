import CellLang.Program.Tree
import CellLang.Proofs.Integers
import CellLang.Proofs.JsonText
import CellLang.Proofs.Numerals

/-!
# Numerals of trees

A finite number is written in a tree in the shortest form that rounds to it, with or without an
exponent. Either form is a numeral of JSON, and it is read as a decimal that rounds to the same
number. A size is written by its digits.
-/

namespace CellLang

namespace Decimal

end Decimal

namespace Binary64

def isFinite : Binary64 → Bool
  | .finite .. => true
  | _ => false

end Binary64

namespace Json

open Decimal

end Json

end CellLang
