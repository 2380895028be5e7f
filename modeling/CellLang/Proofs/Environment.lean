import CellLang.Machine.Execution

/-!
# Frames and bindings

What each operation of an environment does to its frames, one frame at a time. Definitions and
assignments of statements touch the global frame only; evaluation adds frames and drops them again.
-/

namespace CellLang.Frame

theorem find?_insert (f : Frame) (name other : String) (v : Value) :
    (f.insert name v).find? other = if other = name then some v else f.find? other := by
  rw [find?, insert, List.lookup_cons]
  by_cases hname : other = name
  · rw [if_pos hname, beq_iff_eq.2 hname]
  · rw [if_neg hname, beq_eq_false_iff_ne.2 hname]
    rfl

theorem find?_replace (f : Frame) (name other : String) (v : Value) :
    (f.replace name v).find? other =
      (f.find? other).map fun old => if other = name then v else old := by
  obtain ⟨bindings, parent⟩ := f
  unfold find? replace
  dsimp only
  induction bindings with
  | nil => rfl
  | cons b bindings ih =>
    obtain ⟨n, w⟩ := b
    by_cases hother : other = n
    · subst hother
      by_cases hname : other = name <;> simp [hname]
    · have hkey : (other == n) = false := beq_eq_false_iff_ne.2 hother
      by_cases hname : n = name
      · simp only [List.map_cons, hname, if_true, List.lookup_cons] at ih ⊢
        rw [hname] at hkey
        simp only [hkey, ih]
      · simp only [List.map_cons, hname, if_false, List.lookup_cons, hkey, ih]

end CellLang.Frame

namespace CellLang.Environment

/-- The value is bound in some live frame. -/
def Binds (env : Environment) (v : Value) : Prop :=
  ∃ (i : Nat) (f : Frame) (name : String),
    env.frames[i]? = some f ∧ (name, v) ∈ f.bindings

theorem lt_size {env : Environment} {i : Nat} {f : Frame} (hf : env.frames[i]? = some f) :
    i < env.size :=
  (Array.getElem?_eq_some_iff.1 hf).1

theorem exists_frame {env : Environment} {i : Nat} (hi : i < env.size) :
    ∃ f, env.frames[i]? = some f :=
  ⟨_, Array.getElem?_eq_getElem hi⟩

theorem mem_of_find? {f : Frame} {name : String} {v : Value} (hfind : f.find? name = some v) :
    (name, v) ∈ f.bindings := by
  obtain ⟨before, after, heq, _⟩ := List.lookup_eq_some_iff.1 hfind
  rw [heq]
  simp

/-- What a name stands for is bound under that name in some frame. -/
theorem mem_of_get? {env : Environment} {id : FrameId} {name : String} {v : Value}
    (hget : env.get? id name = some v) :
    ∃ (i : Nat) (f : Frame), env.frames[i]? = some f ∧ (name, v) ∈ f.bindings := by
  rw [get?_eq_owner?] at hget
  obtain ⟨owner, _, hget⟩ := Option.bind_eq_some_iff.1 hget
  obtain ⟨f, hf, hfind⟩ := Option.bind_eq_some_iff.1 hget
  exact ⟨owner, f, hf, mem_of_find? hfind⟩

theorem binds_of_get? {env : Environment} {id : FrameId} {name : String} {v : Value}
    (hget : env.get? id name = some v) : env.Binds v := by
  obtain ⟨i, f, hf, hmem⟩ := mem_of_get? hget
  exact ⟨i, f, name, hf, hmem⟩

theorem get?_of_no_frame {env : Environment} {id : Nat} (hf : env.frames[id]? = none)
    (name : String) : env.get? id name = none := by
  rw [get?, hf]

/-- A search that starts at a live frame finds its own binding or goes on in its parent. -/
theorem get?_of_frame {env : Environment} {id : Nat} {f : Frame} (hf : env.frames[id]? = some f)
    (name : String) : env.get? id name = (f.find? name).or
      (f.parent.bind fun p => if p < id then env.get? p name else none) := by
  rw [get?, hf]
  cases hfind : f.find? name with
  | some v => simp only [hfind, Option.some_or]
  | none =>
    simp only [hfind, Option.none_or]
    cases f.parent <;> rfl

/-- In a frame without a parent only its own bindings are seen. -/
theorem get?_of_no_parent {env : Environment} {id : Nat} {f : Frame}
    (hf : env.frames[id]? = some f) (hparent : f.parent = none) (name : String) :
    env.get? id name = f.find? name := by
  rw [get?_of_frame hf, hparent, Option.bind_none, Option.or_none]

/-- A name that the frame does not bind is looked up in its parent. -/
theorem get?_of_parent {env : Environment} {id parent : Nat} {f : Frame}
    (hf : env.frames[id]? = some f) (hparent : f.parent = some parent) (hlt : parent < id)
    (name : String) : env.get? id name = (f.find? name).or (env.get? parent name) := by
  rw [get?_of_frame hf, hparent, Option.bind_some, if_pos hlt]

/-! ## Call frames -/

theorem frames_extend (env : Environment) (parent : FrameId) (name : String) (v : Value)
    (i : Nat) : (env.extend parent name v).2.frames[i]? =
      if i = env.size then some ⟨[(name, v)], some parent⟩ else env.frames[i]? :=
  Array.getElem?_push

theorem frames_release (env : Environment) (count : Nat) (i : Nat) :
    (env.release count).frames[i]? = if i < max count 1 then env.frames[i]? else none := by
  unfold release
  rw [Array.shrink_eq_take, Array.getElem?_extract]
  split <;> split
  · rw [Nat.zero_add]
  · omega
  · exact (Array.getElem?_eq_none (by omega)).symm
  · rfl

theorem binds_of_extend {env : Environment} {parent : FrameId} {name : String} {arg v : Value}
    (hv : (env.extend parent name arg).2.Binds v) : env.Binds v ∨ v = arg := by
  obtain ⟨i, f, n, hf, hmem⟩ := hv
  rw [frames_extend] at hf
  split at hf
  · cases hf
    exact .inr (Prod.mk.inj (List.mem_singleton.1 hmem)).2
  · exact .inl ⟨i, f, n, hf, hmem⟩

theorem binds_of_release {env : Environment} {count : Nat} {v : Value}
    (hv : (env.release count).Binds v) : env.Binds v := by
  obtain ⟨i, f, n, hf, hmem⟩ := hv
  rw [frames_release] at hf
  split at hf
  · exact ⟨i, f, n, hf, hmem⟩
  · cases hf

/-- Every frame of the first environment is the same frame of the second. -/
def Extends (env later : Environment) : Prop :=
  ∀ (i : Nat) (f : Frame), env.frames[i]? = some f → later.frames[i]? = some f

namespace Extends

theorem refl (env : Environment) : env.Extends env := fun _ _ h => h

theorem trans {a b c : Environment} (hab : a.Extends b) (hbc : b.Extends c) : a.Extends c :=
  fun i f h => hbc i f (hab i f h)

theorem size_le {env later : Environment} (h : env.Extends later) : env.size ≤ later.size := by
  rcases Nat.eq_zero_or_pos env.size with hzero | hpos
  · omega
  · obtain ⟨f, hf⟩ := exists_frame (Nat.sub_lt hpos Nat.one_pos)
    have := lt_size (h _ f hf)
    omega

theorem extend (env : Environment) (parent : FrameId) (name : String) (v : Value) :
    env.Extends (env.extend parent name v).2 := by
  intro i f hf
  rw [frames_extend, if_neg (Nat.ne_of_lt (lt_size hf))]
  exact hf

/-- Dropping all newer frames gives the environment back. -/
theorem release_eq {env later : Environment} (h : env.Extends later) (hpos : 0 < env.size) :
    later.release env.size = env := by
  have hframes : ∀ i : Nat, (later.release env.size).frames[i]? = env.frames[i]? := by
    intro i
    rw [frames_release, Nat.max_eq_left hpos]
    split
    · next hi =>
      obtain ⟨f, hf⟩ := exists_frame hi
      rw [hf, h i f hf]
    · next hi => exact (Array.getElem?_eq_none (Nat.le_of_not_lt hi)).symm
  obtain ⟨frames⟩ := env
  exact congrArg Environment.mk (Array.ext_getElem? hframes)

end Extends

/-! ## The global frame -/

/-- The second environment is the first one with other bindings in the global frame: old ones, and
some that hold the given value. -/
structure Rebinds (env later : Environment) (v : Value) : Prop where
  size_eq : later.size = env.size
  others : ∀ i : Nat, i ≠ FrameId.global → later.frames[i]? = env.frames[i]?
  global : ∀ f, env.frames[FrameId.global]? = some f →
    ∃ g, later.frames[FrameId.global]? = some g ∧ g.parent = f.parent ∧
      ∀ b ∈ g.bindings, b ∈ f.bindings ∨ b.2 = v

theorem Rebinds.refl (env : Environment) (v : Value) : env.Rebinds env v :=
  ⟨rfl, fun _ _ => rfl, fun f hf => ⟨f, hf, rfl, fun _ hb => .inl hb⟩⟩

theorem Rebinds.of_modify {env : Environment} {v : Value} {change : Frame → Frame}
    (hparent : ∀ f, (change f).parent = f.parent)
    (hbindings : ∀ f, ∀ b ∈ (change f).bindings, b ∈ f.bindings ∨ b.2 = v) :
    env.Rebinds ⟨env.frames.modify FrameId.global change⟩ v := by
  refine ⟨Array.size_modify, fun i hi => ?_, fun f hf => ?_⟩
  · rw [Array.getElem?_modify, if_neg (Ne.symm hi)]
  · refine ⟨change f, ?_, hparent f, hbindings f⟩
    rw [Array.getElem?_modify, if_pos rfl, hf, Option.map_some]

theorem owner?_global {env : Environment} {name : String} {owner : FrameId}
    (howner : env.owner? name FrameId.global = some owner) : owner = FrameId.global := by
  rw [owner?] at howner
  split at howner
  · cases howner
  · split at howner
    · exact (Option.some.inj howner).symm
    · split at howner
      · cases howner
      · next p _ =>
        have hnot : ¬ p < FrameId.global := Nat.not_lt_zero p
        rw [if_neg hnot] at howner
        cases howner

/-- In the global frame a name is owned by that frame or by none. -/
theorem owner?_global_eq {env : Environment} {f : Frame}
    (hf : env.frames[FrameId.global]? = some f) (name : String) :
    env.owner? name FrameId.global = if f.binds name then some FrameId.global else none := by
  have hnone : ∀ p : FrameId, ¬ p < FrameId.global := fun p => Nat.not_lt_zero p
  rw [owner?, hf]
  cases hbinds : f.binds name with
  | true => simp [hbinds]
  | false =>
    cases hparent : f.parent with
    | none => simp [hbinds, hparent]
    | some p => simp [hbinds, hparent, hnone p]

theorem define_global {env : Environment} {f : Frame} (hf : env.frames[FrameId.global]? = some f)
    (name : String) (v : Value) : env.define FrameId.global name v =
      if f.binds name then .error (.redefinition name)
      else .ok ⟨env.frames.modify FrameId.global fun f => f.insert name v⟩ := by
  rw [define, hf]

theorem assign_global {env : Environment} {f : Frame} (hf : env.frames[FrameId.global]? = some f)
    (name : String) (v : Value) : env.assign FrameId.global name v =
      if f.binds name then .ok ⟨env.frames.modify FrameId.global fun f => f.replace name v⟩
      else .error (.unboundVariable name) := by
  rw [assign, set?_eq_owner?, owner?_global_eq hf]
  cases f.binds name <;> rfl

theorem rebinds_of_define {env later : Environment} {name : String} {v : Value}
    (hdefine : env.define FrameId.global name v = .ok later) : env.Rebinds later v := by
  unfold define at hdefine
  split at hdefine
  · split at hdefine
    · cases hdefine
    · cases hdefine
      refine .of_modify (fun _ => rfl) fun f b hb => ?_
      rcases List.mem_cons.1 hb with rfl | hb
      · exact .inr rfl
      · exact .inl hb
  · cases hdefine
    exact .refl env v

theorem rebinds_of_assign {env later : Environment} {name : String} {v : Value}
    (hassign : env.assign FrameId.global name v = .ok later) : env.Rebinds later v := by
  rw [assign, set?_eq_owner?] at hassign
  cases howner : env.owner? name FrameId.global with
  | none => rw [howner] at hassign; cases hassign
  | some owner =>
    obtain rfl := owner?_global howner
    rw [howner] at hassign
    cases hassign
    refine .of_modify (fun _ => rfl) fun f b hb => ?_
    obtain ⟨⟨n, w⟩, hw, rfl⟩ := List.mem_map.1 hb
    by_cases hname : n = name
    · exact .inr (by simp [hname])
    · exact .inl (by simpa [hname] using hw)

theorem Rebinds.binds {env later : Environment} {v w : Value} (h : env.Rebinds later v)
    (hw : later.Binds w) : env.Binds w ∨ w = v := by
  obtain ⟨i, f, name, hf, hmem⟩ := hw
  by_cases hi : i = FrameId.global
  · subst hi
    have hlt : FrameId.global < env.size := h.size_eq ▸ lt_size hf
    obtain ⟨f', hf'⟩ := exists_frame hlt
    obtain ⟨g, hg, _, hbindings⟩ := h.global f' hf'
    obtain rfl : g = f := Option.some.inj (hg.symm.trans hf)
    rcases hbindings _ hmem with hold | hnew
    · exact .inl ⟨FrameId.global, f', name, hf', hold⟩
    · exact .inr hnew
  · rw [h.others i hi] at hf
    exact .inl ⟨i, f, name, hf, hmem⟩

/-! ## What every bound value satisfies -/

/-- Every value bound in a live frame satisfies the predicate. -/
def Each (env : Environment) (P : Value → Prop) : Prop := ∀ v, env.Binds v → P v

namespace Each

variable {env later : Environment} {P : Value → Prop} {v : Value} {id : FrameId} {name : String}

theorem withPrimitives (hP : ∀ p, P (.prim p)) : Environment.withPrimitives.Each P := by
  rintro v ⟨i, f, n, hf, hmem⟩
  have hlt := lt_size hf
  obtain rfl : i = 0 := Nat.lt_one_iff.1 hlt
  cases hf
  obtain ⟨p, _, hp⟩ := List.mem_map.1 hmem
  cases hp
  exact hP p

theorem get? (h : env.Each P) (hget : env.get? id name = some v) : P v := h v (binds_of_get? hget)

theorem extend (h : env.Each P) (hv : P v) : (env.extend id name v).2.Each P := by
  intro w hw
  rcases binds_of_extend hw with hold | rfl
  · exact h w hold
  · exact hv

theorem release (h : env.Each P) (count : Nat) : (env.release count).Each P :=
  fun w hw => h w (binds_of_release hw)

theorem rebinds (h : env.Each P) (hrebinds : env.Rebinds later v) (hv : P v) : later.Each P := by
  intro w hw
  rcases hrebinds.binds hw with hold | rfl
  · exact h w hold
  · exact hv

end Each

end CellLang.Environment
