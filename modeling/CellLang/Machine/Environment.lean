import CellLang.Machine.Fault

/-!
# Environments

Frames of bindings, each with the frame that encloses it. The enclosing frame is always an older
one, so a search along the chain ends at the global frame. A name is resolved in the nearest frame
that binds it, its owner; reading a name and replacing its value are two searches that both stop
there.
-/

namespace CellLang

structure Frame where
  bindings : List (String × Value)
  parent : Option FrameId

namespace Frame

def find? (f : Frame) (name : String) : Option Value := f.bindings.lookup name

def binds (f : Frame) (name : String) : Bool := (f.find? name).isSome

def insert (f : Frame) (name : String) (value : Value) : Frame :=
  { f with bindings := (name, value) :: f.bindings }

/-- The frame with every binding of the name replaced. -/
def replace (f : Frame) (name : String) (value : Value) : Frame :=
  { f with bindings := f.bindings.map fun (n, v) => if n = name then (n, value) else (n, v) }

/-- A binding of a primitive to its own name. -/
def isBuiltin (binding : String × Value) : Bool :=
  match binding with
  | (name, .prim p) => p.name == name
  | _ => false

/-- Bindings in the order of their names, without primitives that keep their own name. -/
def listing (f : Frame) : List (String × Value) :=
  (f.bindings.filter fun b => !isBuiltin b).mergeSort fun a b => !(b.1 < a.1)

end Frame

structure Environment where
  frames : Array Frame

namespace Environment

/-- The global frame alone, with no bindings. -/
def empty : Environment := ⟨#[⟨[], none⟩]⟩

/-- The global frame with every primitive bound to its name. -/
def withPrimitives : Environment :=
  ⟨#[⟨Primitive.all.map fun p => (p.name, .prim p), none⟩]⟩

/-- The nearest frame, from `id` outwards, that binds the name. -/
def owner? (env : Environment) (name : String) (id : FrameId) : Option FrameId :=
  match env.frames[id]? with
  | none => none
  | some f =>
    if f.binds name then some id
    else match f.parent with
      | none => none
      | some p => if p < id then owner? env name p else none
termination_by id

/-- The value a name has when seen from frame `id`, found in the first frame outwards that has
one. -/
def get? (env : Environment) (id : FrameId) (name : String) : Option Value :=
  match env.frames[id]? with
  | none => none
  | some f =>
    match f.find? name with
    | some v => some v
    | none => match f.parent with
      | none => none
      | some p => if p < id then get? env p name else none
termination_by id

def lookup (env : Environment) (id : FrameId) (name : String) : Except Fault Value :=
  match env.get? id name with
  | some v => .ok v
  | none => .error (.unboundVariable name)

def contains (env : Environment) (id : FrameId) (name : String) : Bool :=
  (env.get? id name).isSome

/-- Binds a name in one frame, which must not bind it yet. -/
def define (env : Environment) (id : FrameId) (name : String) (value : Value) :
    Except Fault Environment :=
  match env.frames[id]? with
  | some f =>
    if f.binds name then .error (.redefinition name)
    else .ok ⟨env.frames.modify id fun f => f.insert name value⟩
  | none => .ok env

/-- Replaces the binding in the first frame, from `id` outwards, that has one; none when no frame
binds the name. -/
def set? (env : Environment) (id : FrameId) (name : String) (value : Value) :
    Option Environment :=
  match env.frames[id]? with
  | none => none
  | some f =>
    if f.binds name then some ⟨env.frames.modify id fun f => f.replace name value⟩
    else match f.parent with
      | none => none
      | some p => if p < id then set? env p name value else none
termination_by id

def assign (env : Environment) (id : FrameId) (name : String) (value : Value) :
    Except Fault Environment :=
  match env.set? id name value with
  | some env => .ok env
  | none => .error (.unboundVariable name)

/-- A new frame inside `parent` that binds one name, and its position. -/
def extend (env : Environment) (parent : FrameId) (name : String) (value : Value) :
    FrameId × Environment :=
  (env.frames.size, ⟨env.frames.push ⟨[(name, value)], some parent⟩⟩)

/-- Drops the frames from position `count` on, but never the global one. -/
def release (env : Environment) (count : Nat) : Environment :=
  ⟨env.frames.shrink (max count 1)⟩

/-- Number of live frames. -/
def size (env : Environment) : Nat := env.frames.size

@[simp] theorem size_withPrimitives : withPrimitives.size = 1 := rfl

@[simp] theorem size_extend (env : Environment) (parent : FrameId) (name : String)
    (value : Value) : (env.extend parent name value).2.size = env.size + 1 := by
  simp [extend, size]

theorem size_release (env : Environment) (count : Nat) :
    (env.release count).size = min (max count 1) env.size := by
  simp [release, size]

/-- The owner of a name is a live frame that binds it. -/
theorem binds_of_owner? {env : Environment} {name : String} {id owner : FrameId}
    (h : env.owner? name id = some owner) :
    ∃ f, env.frames[owner]? = some f ∧ f.binds name = true := by
  induction id using Nat.strongRecOn with
  | _ id ih =>
    rw [owner?] at h
    split at h
    · simp at h
    · next f hf =>
      split at h
      · next hb =>
        obtain rfl := Option.some.inj h
        exact ⟨f, hf, hb⟩
      · split at h
        · simp at h
        · next p _ =>
          split at h
          · next hlt => exact ih p hlt h
          · simp at h

/-- The search for a value stops at the owner of the name. -/
theorem get?_eq_owner? (env : Environment) (id : FrameId) (name : String) :
    env.get? id name =
      (env.owner? name id).bind fun owner => env.frames[owner]?.bind fun f => f.find? name := by
  induction id using Nat.strongRecOn with
  | _ id ih =>
    rw [get?, owner?]
    cases hf : env.frames[id]? with
    | none => rfl
    | some f =>
      cases hfind : f.find? name with
      | some v => simp [Frame.binds, hfind, hf]
      | none =>
        cases hparent : f.parent with
        | none => simp [Frame.binds, hfind, hparent]
        | some p =>
          by_cases hlt : p < id
          · simp [Frame.binds, hfind, hparent, hlt, ih p hlt]
          · simp [Frame.binds, hfind, hparent, hlt]

/-- A new value is put where the owner of the name has the old one. -/
theorem set?_eq_owner? (env : Environment) (id : FrameId) (name : String) (value : Value) :
    env.set? id name value = (env.owner? name id).map fun owner =>
      ⟨env.frames.modify owner fun f => f.replace name value⟩ := by
  induction id using Nat.strongRecOn with
  | _ id ih =>
    rw [set?, owner?]
    cases env.frames[id]? with
    | none => rfl
    | some f =>
      cases hbinds : f.binds name with
      | true => simp [hbinds]
      | false =>
        cases hparent : f.parent with
        | none => simp [hbinds, hparent]
        | some p =>
          by_cases hlt : p < id
          · simp [hbinds, hparent, hlt, ih p hlt]
          · simp [hbinds, hparent, hlt]

/-- A name has a value exactly when it has an owner. -/
theorem isSome_get? (env : Environment) (id : FrameId) (name : String) :
    (env.get? id name).isSome = (env.owner? name id).isSome := by
  rw [get?_eq_owner?]
  cases ho : env.owner? name id with
  | none => rfl
  | some owner =>
    obtain ⟨f, hf, hb⟩ := binds_of_owner? ho
    simpa [hf, Frame.binds] using hb

end Environment

end CellLang
