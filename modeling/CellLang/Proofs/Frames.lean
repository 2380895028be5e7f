import CellLang.Proofs.Discipline
import CellLang.Proofs.Environment

/-!
# Live frames

In every state of a run, and at every point inside an evaluation, closures capture live frames only:
a closure bound in a call frame captures an older one, and whatever is bound globally, returned or
held captures one that exists. Parents are older frames as well, so a walk along them visits live
frames and ends at the global one. The key fact is that evaluation never changes a frame that it
found; a call that drops its frames therefore restores the environment of its caller exactly.
-/

namespace CellLang

/-- If the value is a closure, the frame it captures lies below the bound. -/
def Value.CapturesBelow (n : Nat) : Value → Prop
  | .closure c => c.frame < n
  | _ => True

theorem Value.CapturesBelow.mono {m n : Nat} {v : Value} (h : v.CapturesBelow m) (hmn : m ≤ n) :
    v.CapturesBelow n := by
  cases v with
  | closure c => exact Nat.lt_of_lt_of_le h hmn
  | num _ | bool _ | prim _ | pointer _ | keyword _ => trivial

theorem Value.capturesBelow_of_not_closure {n : Nat} {v : Value} (h : v.isClosure = false) :
    v.CapturesBelow n := by
  cases v with
  | closure c => cases h
  | num _ | bool _ | prim _ | pointer _ | keyword _ => trivial

namespace Environment

/-- No frame and no binding refers to a frame that does not exist. -/
structure WellFormed (env : Environment) : Prop where
  global : ∃ f, env.frames[FrameId.global]? = some f ∧ f.parent = none ∧
    ∀ b ∈ f.bindings, b.2.CapturesBelow env.size
  inner : ∀ (i : Nat) (f : Frame), 0 < i → env.frames[i]? = some f →
    ∃ name v p, f = ⟨[(name, v)], some p⟩ ∧ p < i ∧ v.CapturesBelow i

namespace WellFormed

variable {env : Environment}

theorem size_pos (h : env.WellFormed) : 0 < env.size := by
  obtain ⟨f, hf, _⟩ := h.global
  exact lt_size hf

theorem withPrimitives : Environment.withPrimitives.WellFormed := by
  refine ⟨⟨_, rfl, rfl, fun b hb => ?_⟩, fun i f hi hf => ?_⟩
  · obtain ⟨p, _, rfl⟩ := List.mem_map.1 hb
    trivial
  · have hlt := lt_size hf
    rw [size_withPrimitives] at hlt
    omega

theorem capturesBelow_of_binds (h : env.WellFormed) {v : Value} (hv : env.Binds v) :
    v.CapturesBelow env.size := by
  obtain ⟨i, f, name, hf, hmem⟩ := hv
  rcases Nat.eq_zero_or_pos i with rfl | hpos
  · obtain ⟨g, hg, _, hbindings⟩ := h.global
    obtain rfl : g = f := Option.some.inj (hg.symm.trans hf)
    exact hbindings _ hmem
  · obtain ⟨n, w, p, rfl, _, hw⟩ := h.inner i f hpos hf
    obtain ⟨_, rfl⟩ := Prod.mk.inj (List.mem_singleton.1 hmem)
    exact hw.mono (Nat.le_of_lt (lt_size hf))

/-- A call frame inside a live frame is the newest frame; everything else is older. -/
theorem extend (h : env.WellFormed) {parent : FrameId} (hparent : parent < env.size)
    (name : String) {v : Value} (hv : v.CapturesBelow env.size) :
    (env.extend parent name v).2.WellFormed := by
  have hext := Extends.extend env parent name v
  constructor
  · obtain ⟨f, hf, hnone, hbindings⟩ := h.global
    exact ⟨f, hext _ f hf, hnone, fun b hb => (hbindings b hb).mono hext.size_le⟩
  · intro i f hi hf
    rw [frames_extend] at hf
    split at hf
    · next heq =>
      cases hf
      subst heq
      exact ⟨name, v, parent, rfl, hparent, hv⟩
    · exact h.inner i f hi hf

theorem rebinds (h : env.WellFormed) {later : Environment} {v : Value}
    (hrebinds : env.Rebinds later v) (hv : v.CapturesBelow env.size) : later.WellFormed := by
  constructor
  · obtain ⟨f, hf, hnone, hbindings⟩ := h.global
    obtain ⟨g, hg, hparent, hold⟩ := hrebinds.global f hf
    refine ⟨g, hg, hparent.trans hnone, fun b hb => ?_⟩
    rw [hrebinds.size_eq]
    rcases hold b hb with hb | rfl
    · exact hbindings b hb
    · exact hv
  · intro i f hi hf
    rw [hrebinds.others i (Nat.ne_of_gt hi)] at hf
    exact h.inner i f hi hf

end WellFormed

/-! ## Walks along the parents -/

/-- The frames visited from `id` outwards. Each of them exists, and the last one has no parent. -/
inductive Walk (env : Environment) : FrameId → List FrameId → Prop
  | last {id : FrameId} {f : Frame} : env.frames[id]? = some f → f.parent = none →
      Walk env id [id]
  | step {id parent : FrameId} {f : Frame} {ids : List FrameId} : env.frames[id]? = some f →
      f.parent = some parent → Walk env parent ids → Walk env id (id :: ids)

/-- Whether the frame at this position binds the name. -/
def bindsAt (env : Environment) (name : String) (id : FrameId) : Bool :=
  (env.frames[id]?).any fun f => f.binds name

/-- Every parent is an older frame. -/
def ParentsOlder (env : Environment) : Prop :=
  ∀ (i : Nat) (f : Frame) (parent : FrameId),
    env.frames[i]? = some f → f.parent = some parent → parent < i

theorem WellFormed.parent_lt {env : Environment} (h : env.WellFormed) {id parent : Nat} {f : Frame}
    (hf : env.frames[id]? = some f) (hparent : f.parent = some parent) : parent < id := by
  rcases Nat.eq_zero_or_pos id with rfl | hpos
  · obtain ⟨g, hg, hnone, _⟩ := h.global
    obtain rfl : g = f := Option.some.inj (hg.symm.trans hf)
    rw [hnone] at hparent
    cases hparent
  · obtain ⟨name, v, p, rfl, hp, _⟩ := h.inner id f hpos hf
    cases hparent
    exact hp

theorem WellFormed.parentsOlder {env : Environment} (h : env.WellFormed) : env.ParentsOlder :=
  fun _ _ _ => h.parent_lt

/-- From every live frame the walk ends after finitely many frames. -/
theorem ParentsOlder.exists_walk {env : Environment} (h : env.ParentsOlder) (id : FrameId)
    (hid : id < env.size) : ∃ ids, env.Walk id ids := by
  induction id using Nat.strongRecOn with
  | _ id ih =>
    obtain ⟨f, hf⟩ := exists_frame hid
    cases hparent : f.parent with
    | none => exact ⟨[id], .last hf hparent⟩
    | some p =>
      have hlt := h id f p hf hparent
      obtain ⟨ids, hids⟩ := ih p hlt (Nat.lt_trans hlt hid)
      exact ⟨id :: ids, .step hf hparent hids⟩

theorem bindsAt_of_frame {env : Environment} {id : FrameId} {f : Frame}
    (hf : env.frames[id]? = some f) (name : String) : env.bindsAt name id = f.binds name := by
  rw [bindsAt, hf, Option.any_some]

/-- A search for the owner of a name is a search along the walk. -/
theorem ParentsOlder.owner?_eq_find? {env : Environment} (h : env.ParentsOlder) (name : String)
    {id : FrameId} {ids : List FrameId} (hwalk : env.Walk id ids) :
    env.owner? name id = ids.find? (env.bindsAt name) := by
  induction hwalk with
  | @last id f hf hnone =>
    rw [owner?, hf, List.find?_cons, bindsAt_of_frame hf]
    cases hname : f.binds name <;> simp [hnone, hname]
  | @step id p f ids hf hparent _ ih =>
    rw [owner?, hf, List.find?_cons, bindsAt_of_frame hf]
    cases hname : f.binds name <;> simp [hparent, hname, h id f p hf hparent, ih]

/-- From every live frame, the search for any name visits live frames only and ends at a frame
without a parent or before. -/
def Searchable (env : Environment) : Prop :=
  ∀ id < env.size, ∃ ids, env.Walk id ids ∧
    ∀ name, env.owner? name id = ids.find? (env.bindsAt name)

theorem ParentsOlder.searchable {env : Environment} (h : env.ParentsOlder) : env.Searchable := by
  intro id hid
  obtain ⟨ids, hwalk⟩ := h.exists_walk id hid
  exact ⟨ids, hwalk, fun name => h.owner?_eq_find? name hwalk⟩

theorem WellFormed.searchable {env : Environment} (h : env.WellFormed) : env.Searchable :=
  h.parentsOlder.searchable

end Environment

/-! ## The discipline of frames -/

/-- A call has a frame of its own while it runs. -/
theorem Machine.size_lt_enter (m : Machine) (c : Closure) (arg : Value) :
    m.env.size < (m.enter c arg).env.size := by
  change m.env.size < (m.env.extend c.frame c.param arg).2.size
  rw [Environment.size_extend]
  exact Nat.lt_succ_self _

/-- Dropping the frames of a call whose body kept the frames it found gives the caller's environment
back. -/
theorem Machine.release_enter {m n : Machine} {c : Closure} {arg : Value} (hsome : 0 < m.env.size)
    (hkept : (m.enter c arg).env.Extends n.env) : n.env.release m.env.size = m.env :=
  ((Environment.Extends.extend m.env c.frame c.param arg).trans hkept).release_eq hsome

/-- Whatever held of the caller's environment holds again when the call has been left. -/
theorem History.leave_restores (P : Environment → Prop) {h i : History} {c : Closure} {arg : Value}
    (hsome : 0 < h.now.env.size) (hlater : (h.enter c arg).now.env.Extends i.now.env)
    (hP : P h.now.env) :
    P (i.leave h.now.env.size).now.env ∧
      h.now.env.Extends (i.leave h.now.env.size).now.env := by
  have henv : (i.leave h.now.env.size).now.env = h.now.env := Machine.release_enter hsome hlater
  rw [henv]
  exact ⟨hP, .refl _⟩

/-- Everything that is in play when the evaluation starts, and when it ends, refers to live frames
only. The frames that it found are still there and unchanged at its end. -/
structure Moment.Grounded (x : Moment) : Prop where
  before : x.before.env.WellFormed
  after : x.after.env.WellFormed
  kept : x.before.env.Extends x.after.env
  frame : x.frame < x.before.env.size
  held : ∀ v ∈ x.held, v.CapturesBelow x.before.env.size
  outcome : ∀ v, x.outcome = .ok v → v.CapturesBelow x.after.env.size

namespace Discipline

def frames : Discipline where
  Code _ := True
  Sound h := h.now.env.WellFormed ∧ ∀ x ∈ h.past, x.Grounded
  Sees h frame := frame < h.now.env.size
  Fits h v := v.CapturesBelow h.now.env.size
  Allows _ := True
  Later h i := h.now.env.Extends i.now.env

theorem grounded_note {h i : History} {x : Moment} (hpast : ∀ y ∈ i.past, y.Grounded)
    (hready : frames.Ready h x.frame x.held) (hbefore : x.before = h.now)
    (hafter : x.after.env = i.now.env) (hsound : i.now.env.WellFormed)
    (hlater : h.now.env.Extends i.now.env)
    (houtcome : ∀ v, x.outcome = .ok v → v.CapturesBelow i.now.env.size) :
    ∀ y ∈ i.past ++ [x], y.Grounded := by
  intro y hy
  rcases List.mem_append.1 hy with hy | hy
  · exact hpast y hy
  · obtain rfl := List.mem_singleton.1 hy
    constructor
    · rw [hbefore]; exact hready.sound.1
    · rw [hafter]; exact hsound
    · rw [hbefore, hafter]; exact hlater
    · rw [hbefore]; exact hready.sees
    · rw [hbefore]; exact hready.fits
    · rw [hafter]; exact houtcome

theorem frames_lawful : frames.Lawful where
  refl h := .refl h.now.env
  trans := .trans
  sees_later hlater hsees := Nat.lt_of_lt_of_le hsees hlater.size_le
  fits_later hlater hfits := hfits.mono hlater.size_le
  fits_plain hv := Value.capturesBelow_of_not_closure (Value.isClosure_of_isPlain hv)
  fits_lookup hsound _ hget := hsound.1.capturesBelow_of_binds (Environment.binds_of_get? hget)
  fits_lambda hsees _ := hsees
  note hready hsound hlater hvalue _ :=
    ⟨⟨hsound.1, grounded_note hsound.2 hready rfl rfl hsound.1 hlater hvalue⟩, .refl _⟩
  allocate _ _ hready hsound hlater _ :=
    ⟨⟨hsound.1, grounded_note hsound.2 hready rfl rfl hsound.1 hlater
      fun v hv => by cases hv; trivial⟩, .refl _, trivial⟩
  enter {h c arg} hsound hc harg :=
    ⟨⟨hsound.1.extend hc c.param harg, hsound.2⟩, h.now.size_lt_enter c arg, trivial⟩
  later_enter {h c arg} := .extend h.now.env c.frame c.param arg
  leave hsound hlater hsound' := by
    obtain ⟨hwf, hkept⟩ :=
      History.leave_restores Environment.WellFormed hsound.1.size_pos hlater hsound.1
    exact ⟨⟨hwf, hsound'.2⟩, hkept⟩
  fits_leave hclosure _ := Value.capturesBelow_of_not_closure hclosure

theorem frames_durable : frames.Durable where
  toLawful := frames_lawful
  fresh _ := ⟨.withPrimitives, fun _ hx => absurd hx List.not_mem_nil⟩
  sees_global hsound := hsound.1.size_pos
  define hsound hv hdefine :=
    ⟨hsound.1.rebinds (Environment.rebinds_of_define hdefine) hv, hsound.2⟩
  assign hsound hv hassign :=
    ⟨hsound.1.rebinds (Environment.rebinds_of_assign hassign) hv, hsound.2⟩
  write hsound _ _ _ := hsound

theorem frames_ofRun (settings : Settings) (rs : List Request) :
    frames.Sound (History.ofRun settings rs) :=
  sound_after frames_durable settings.maxDepth rs (fun _ _ _ _ => trivial)
    (frames_durable.fresh settings.capacity)

end Discipline

/-- No frame ever dangles. After every run, and at every point inside its evaluations, all frames
and all bound, held and returned closures refer to live frames, and every search for a name ends
without leaving them. -/
theorem History.no_frame_dangles (settings : Settings) (rs : List Request) :
    ((Session.ofSettings settings).after rs).machine = (ofRun settings rs).now ∧
      (ofRun settings rs).now.env.WellFormed ∧ (ofRun settings rs).now.env.Searchable ∧
      (∀ x ∈ (ofRun settings rs).past,
        x.Grounded ∧ x.before.env.Searchable ∧ x.after.env.Searchable) ∧
      ∀ e v s, ((Session.ofSettings settings).after rs).serve (.expr e) = (.value (.ok v), s) →
        v.CapturesBelow s.machine.env.size := by
  obtain ⟨hsound, hpast⟩ := Discipline.frames_ofRun settings rs
  have hafter := session_after settings rs
  refine ⟨by rw [hafter], hsound, hsound.searchable, fun x hx => ?_, fun e v s hserve => ?_⟩
  · have hx := hpast x hx
    exact ⟨hx, hx.before.searchable, hx.after.searchable⟩
  · obtain ⟨hreply, hsession⟩ := serve_eq ((Session.ofSettings settings).after rs)
      (ofRun settings rs) (by rw [hafter]) (.expr e)
    rw [hserve] at hreply hsession
    have hfits := (Discipline.sound_serve Discipline.frames_durable
      ((Session.ofSettings settings).after rs).limit (r := .expr e) (fun _ _ => trivial)
      (Discipline.frames_ofRun settings rs)).2.1 v hreply
    change s = _ at hsession
    rw [hsession]
    exact hfits

end CellLang
