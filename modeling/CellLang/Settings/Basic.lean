import CellLang.Settings.Toml

/-!
# Settings

The store capacity and the limit on nested calls. Both have defaults, may come from a settings file
and may be overridden; settings that no run could use are refused.
-/

namespace CellLang

structure Settings where
  capacity : Nat
  maxDepth : Nat
deriving DecidableEq, Repr

/-- Why settings are refused. -/
inductive SettingsError where
  | malformed
  | noCapacity
  | noDepth
deriving DecidableEq, Repr

namespace SettingsError

def message : SettingsError → String
  | .malformed => "TOML parse error"
  | .noCapacity => "store_capacity must be at least 1"
  | .noDepth => "max_recursion_depth must be at least 1"

end SettingsError

namespace Settings

def default : Settings := ⟨10, 10000⟩

def capacityKey : String := "store_capacity"

def depthKey : String := "max_recursion_depth"

/-- Refuses an empty store first, then a limit of no calls. -/
def check (s : Settings) : Except SettingsError Settings :=
  if s.capacity = 0 then .error .noCapacity
  else if s.maxDepth = 0 then .error .noDepth
  else .ok s

/-- The setting of that name, or its default; a setting is not negative. -/
def entry (entries : List (String × Int)) (key : String) (fallback : Nat) :
    Except SettingsError Nat :=
  match entries.lookup key with
  | none => .ok fallback
  | some n => if n < 0 then .error .malformed else .ok n.toNat

/-- Whether the entries set known settings only, each at most once. -/
def areKnown (entries : List (String × Int)) : Bool :=
  entries.all (fun e => e.1 == capacityKey || e.1 == depthKey) &&
    (entries.map Prod.fst).eraseDups.length == entries.length

/-- The settings of a file. -/
def ofToml (text : String) : Except SettingsError Settings :=
  match Toml.entries? text with
  | none => .error .malformed
  | some entries =>
    if areKnown entries then do
      let capacity ← entry entries capacityKey default.capacity
      let maxDepth ← entry entries depthKey default.maxDepth
      check ⟨capacity, maxDepth⟩
    else .error .malformed

/-- Settings with those given explicitly put in place of the others. -/
def override (s : Settings) (capacity maxDepth : Option Nat) : Settings :=
  ⟨capacity.getD s.capacity, maxDepth.getD s.maxDepth⟩

end Settings

end CellLang
