import CellLang.Machine.Fault

/-!
# The store

A fixed number of cells, each free or holding a number or a boolean. Allocation takes the first run
of free cells that is long enough; nothing is ever freed, and a write keeps the type of its cell.
-/

namespace CellLang

inductive Cell where
  | uninitialized
  | num (x : Binary64)
  | bool (b : Bool)
deriving DecidableEq

namespace Cell

/-- The first content of an allocated cell. -/
def zero : CellType → Cell
  | .num => .num (Binary64.zero false)
  | .bool => .bool false

/-- The cell that holds a value; only numbers and booleans can be stored. -/
def ofValue? : Value → Option Cell
  | .num x => some (.num x)
  | .bool b => some (.bool b)
  | _ => none

def toValue? : Cell → Option Value
  | .uninitialized => none
  | .num x => some (.num x)
  | .bool b => some (.bool b)

/-- The type of the content; none for a free cell. -/
def type? : Cell → Option CellType
  | .uninitialized => none
  | .num _ => some .num
  | .bool _ => some .bool

def isFree (c : Cell) : Bool := c.type?.isNone

def typeName : Cell → String
  | .uninitialized => "uninitialized"
  | .num _ => "number"
  | .bool _ => "boolean"

def text : Cell → String
  | .uninitialized => "uninitialized"
  | .num x => Layout.shown.text x
  | .bool b => boolText b

end Cell

structure Store where
  cells : Array Cell

namespace Store

/-- A store of free cells. -/
def empty (capacity : Nat) : Store := ⟨Array.replicate capacity .uninitialized⟩

def capacity (s : Store) : Nat := s.cells.size

def get? (s : Store) (index : Nat) : Option Cell := s.cells[index]?

/-- Number of free cells. -/
def free (s : Store) : Nat := s.cells.countP Cell.isFree

/-- Start of the first run of `size` free cells, when `run` free cells lie just before position
`i`, where the given cells begin. -/
def firstRun (size : Nat) : Nat → Nat → List Cell → Option Nat
  | _, _, [] => none
  | i, run, c :: cs =>
    if c.isFree then
      if run + 1 = size then some (i - run) else firstRun size (i + 1) (run + 1) cs
    else
      firstRun size (i + 1) 0 cs

/-- Bounds of the first run of `size` free cells. The cells themselves stay free. -/
def allocate (s : Store) (size : Nat) : Except Fault Bounds :=
  if size = 0 then .error (.invalidAllocationSize size)
  else if s.cells.any Cell.isFree then
    match firstRun size 0 0 s.cells.toList with
    | some low => .ok ⟨low, low + size - 1⟩
    | none => .error (.capacityExceeded size)
  else .error .storeFull

/-- The store with every cell of the range set. -/
def fill (s : Store) (b : Bounds) (cell : Cell) : Store :=
  ⟨s.cells.mapIdx fun i c => if b.contains i then cell else c⟩

def read (s : Store) (index : Nat) : Except Fault Value :=
  match s.get? index with
  | none => .error (.outOfBounds (.store index s.capacity))
  | some cell => match cell.toValue? with
    | some v => .ok v
    | none => .error (.uninitializedRead index)

/-- The store with one cell overwritten; the type of the cell must stay. -/
def write (s : Store) (index : Nat) (value : Value) : Except Fault Store :=
  match s.get? index with
  | none => .error (.outOfBounds (.store index s.capacity))
  | some current =>
    if current.isFree then .error (.uninitializedWrite index)
    else
      let fault := .typeMismatch ("assignment to cell " ++ toString index)
        ("a " ++ current.typeName) value.typeName
      match Cell.ofValue? value with
      | some cell =>
        if cell.type? = current.type? then .ok ⟨s.cells.setIfInBounds index cell⟩
        else .error fault
      | none => .error fault

/-- Every cell with its index, one to a line. -/
def dump (s : Store) : String :=
  String.intercalate "\n" (s.cells.toList.zipIdx.map fun (c, i) => toString i ++ ": " ++ c.text)

@[simp] theorem capacity_empty (n : Nat) : (empty n).capacity = n := by
  simp [empty, capacity]

@[simp] theorem capacity_fill (s : Store) (b : Bounds) (c : Cell) :
    (s.fill b c).capacity = s.capacity := by
  simp [fill, capacity]

theorem get?_fill (s : Store) (b : Bounds) (c : Cell) (i : Nat) :
    (s.fill b c).get? i = (s.get? i).map fun old => if b.contains i then c else old := by
  simp [fill, get?]

/-- A successful write sets one cell that was in use to the value's cell, of the same type. -/
theorem write_eq_ok {s t : Store} {i : Nat} {v : Value} (h : s.write i v = .ok t) :
    ∃ old new, s.get? i = some old ∧ old.isFree = false ∧ Cell.ofValue? v = some new ∧
      new.type? = old.type? ∧ t = ⟨s.cells.setIfInBounds i new⟩ := by
  unfold write at h
  split at h
  · simp at h
  · next old hold =>
    split at h
    · simp at h
    · next hfree =>
      split at h
      · next new hnew =>
        split at h
        · next htype =>
          refine ⟨old, new, hold, by simpa using hfree, hnew, htype, ?_⟩
          exact (Except.ok.inj h).symm
        · simp at h
      · simp at h

theorem capacity_write {s t : Store} {i : Nat} {v : Value} (h : s.write i v = .ok t) :
    t.capacity = s.capacity := by
  obtain ⟨_, _, _, _, _, _, rfl⟩ := write_eq_ok h
  simp [capacity]

end Store

end CellLang
