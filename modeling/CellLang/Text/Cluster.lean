import CellLang.Text.BreakClass

/-!
# Clusters

Text divided into what a reader takes for single characters: a letter with its marks, a syllable, a
flag, a pictograph joined from several. The division is that of extended grapheme clusters.
-/

namespace CellLang.Text

namespace BreakClass

/-- Has a boundary on both sides. -/
def isAlone : BreakClass → Bool
  | .control | .carriageReturn | .lineFeed => true
  | _ => false

/-- Marks without a width of their own, the joiner apart. -/
def isMark : BreakClass → Bool
  | .extender | .linker | .nonJoiner => true
  | _ => false

/-- Continues any cluster that may be continued. -/
def isExtending (k : BreakClass) : Bool :=
  k.isMark || k = .joiner || k = .spacingMark

/-- May stand between the consonants of a conjunct. -/
def isInConjunct : BreakClass → Bool
  | .extender | .linker | .joiner => true
  | _ => false

/-- The order of parts in a syllable: leading, vowel, trailing. -/
def continuesSyllable : BreakClass → BreakClass → Bool
  | .leadingJamo, next =>
    next = .leadingJamo || next = .vowelJamo || next = .openSyllable || next = .closedSyllable
  | .openSyllable, next | .vowelJamo, next => next = .vowelJamo || next = .trailingJamo
  | .closedSyllable, next | .trailingJamo, next => next = .trailingJamo
  | _, _ => false

/-- A pictograph, marks and a joiner ask for another pictograph. Classes stand last first. -/
def asksPictograph : List BreakClass → Bool
  | .joiner :: before => (before.dropWhile isMark).head? = some .pictograph
  | _ => false

/-- A flag is half written. -/
def asksIndicator (before : List BreakClass) : Bool :=
  (before.takeWhile (· = .regionalIndicator)).length % 2 = 1

/-- A consonant and a linker, with other marks around it, ask for another consonant. -/
def asksConsonant (before : List BreakClass) : Bool :=
  (before.takeWhile isInConjunct).contains .linker &&
    (before.dropWhile isInConjunct).head? = some .consonant

/-- Continues a cluster whose characters, last first, have the classes given. -/
def continues (next : BreakClass) : List BreakClass → Bool
  | [] => false
  | last :: earlier =>
    if last = .carriageReturn && next = .lineFeed then true
    else if last.isAlone || next.isAlone then false
    else if next.isExtending || last = .prepended then true
    else match next with
      | .pictograph => asksPictograph (last :: earlier)
      | .regionalIndicator => asksIndicator (last :: earlier)
      | .consonant => asksConsonant (last :: earlier)
      | _ => last.continuesSyllable next

end BreakClass

/-- The clusters of the text ahead. Finished clusters stand last first, and so do the characters of
the open one and their classes. -/
def clustersFrom (done : List (List Char)) (cluster : List Char) (classes : List BreakClass) :
    List Char → List (List Char)
  | [] => (cluster.reverse :: done).reverse
  | c :: cs =>
    let k := BreakClass.ofChar c
    if k.continues classes then clustersFrom done (c :: cluster) (k :: classes) cs
    else clustersFrom (cluster.reverse :: done) [c] [k] cs

/-- The clusters of a text. -/
def clusters : List Char → List (List Char)
  | [] => []
  | c :: cs => clustersFrom [] [c] [.ofChar c] cs

end CellLang.Text
