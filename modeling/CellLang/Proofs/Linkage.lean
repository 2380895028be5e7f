import CellLang.Proofs.Growth

/-!
# Linked environments

What the walk along the parents of a frame and the entry into a call need of an environment, and no
more: parents are older frames, and closures capture frames that exist. Unlike in a well-formed
environment, a frame may bind any number of names, and its closures may capture newer frames.
Evaluation and statements keep such links, whether they succeed or fail.
-/

namespace CellLang

namespace Environment

/-- There is a global frame, every parent is an older frame, and every bound closure captures a
frame that exists. -/
structure Linked (env : Environment) : Prop where
  size_pos : 0 < env.size
  parent_lt : ∀ (i : Nat) (f : Frame) (parent : FrameId),
    env.frames[i]? = some f → f.parent = some parent → parent < i
  captured : env.Each (Value.CapturesBelow env.size)

namespace Linked

variable {env : Environment}

theorem withPrimitives : Environment.withPrimitives.Linked := by
  refine ⟨Nat.one_pos, fun i f parent hf hparent => ?_, .withPrimitives fun _ => trivial⟩
  have hlt := lt_size hf
  rw [size_withPrimitives] at hlt
  obtain rfl : i = 0 := by omega
  cases hf
  cases hparent

theorem extend (h : env.Linked) {parent : FrameId} (hparent : parent < env.size) (name : String)
    {v : Value} (hv : v.CapturesBelow env.size) : (env.extend parent name v).2.Linked := by
  have hsize := size_extend env parent name v
  refine ⟨by omega, fun i f p hf hp => ?_, ?_⟩
  · rw [frames_extend] at hf
    split at hf
    · next heq =>
      subst heq
      cases hf
      cases hp
      exact hparent
    · exact h.parent_lt i f p hf hp
  · rw [hsize]
    refine Each.extend (fun w hw => ?_) (hv.mono (Nat.le_succ _))
    exact (h.captured w hw).mono (Nat.le_succ _)

theorem rebinds (h : env.Linked) {later : Environment} {v : Value}
    (hrebinds : env.Rebinds later v) (hv : v.CapturesBelow env.size) : later.Linked := by
  refine ⟨by rw [hrebinds.size_eq]; exact h.size_pos, fun i f p hf hp => ?_, ?_⟩
  · by_cases hi : i = FrameId.global
    · subst hi
      obtain ⟨f', hf'⟩ := exists_frame h.size_pos
      obtain ⟨g, hg, hparent, _⟩ := hrebinds.global f' hf'
      obtain rfl : g = f := Option.some.inj (hg.symm.trans hf)
      exact h.parent_lt _ f' p hf' (hparent.symm.trans hp)
    · rw [hrebinds.others i hi] at hf
      exact h.parent_lt i f p hf hp
  · rw [hrebinds.size_eq]
    exact h.captured.rebinds hrebinds hv

end Linked

end Environment

namespace Discipline

/-- The discipline of evaluation as far as links are concerned. -/
def links : Discipline where
  Code _ := True
  Sound h := h.now.env.Linked
  Sees h frame := frame < h.now.env.size
  Fits h v := v.CapturesBelow h.now.env.size
  Allows _ := True
  Later h i := h.now.env.Extends i.now.env

theorem links_lawful : links.Lawful where
  refl h := .refl h.now.env
  trans := .trans
  sees_later hlater hsees := Nat.lt_of_lt_of_le hsees hlater.size_le
  fits_later hlater hfits := hfits.mono hlater.size_le
  fits_plain hv := Value.capturesBelow_of_not_closure (Value.isClosure_of_isPlain hv)
  fits_lookup hsound _ hget := hsound.captured.get? hget
  fits_lambda hsees _ := hsees
  note _ hsound _ _ _ := ⟨hsound, .refl _⟩
  allocate _ _ _ hsound _ _ := ⟨hsound, .refl _, trivial⟩
  enter {h c arg} hsound hc harg :=
    ⟨hsound.extend hc c.param harg, h.now.size_lt_enter c arg, trivial⟩
  later_enter {h c arg} := .extend h.now.env c.frame c.param arg
  leave hsound hlater _ :=
    History.leave_restores Environment.Linked hsound.size_pos hlater hsound
  fits_leave hclosure _ := Value.capturesBelow_of_not_closure hclosure

theorem links_durable : links.Durable where
  toLawful := links_lawful
  fresh _ := .withPrimitives
  sees_global hsound := hsound.size_pos
  define hsound hv hdefine := hsound.rebinds (Environment.rebinds_of_define hdefine) hv
  assign hsound hv hassign := hsound.rebinds (Environment.rebinds_of_assign hassign) hv
  write hsound _ _ _ := hsound

end Discipline

namespace Expr

variable {limit left : Nat} {frame : FrameId} {m n : Machine}

/-- An evaluation in a live frame keeps the frames and their links, and what it returns captures a
frame that exists. -/
theorem linked_evalWith {e : Expr} {outcome : Except RuntimeError Value} (hlinked : m.env.Linked)
    (hframe : frame < m.env.size)
    (heval : e.evalWith (callAt limit left) frame m = (outcome, n)) :
    m.env.Extends n.env ∧ n.env.Linked ∧
      ∀ v, outcome = .ok v → v.CapturesBelow n.env.size := by
  have hready : Discipline.links.Ready ⟨[], m⟩ frame [] :=
    ⟨hlinked, hframe, fun _ hv => absurd hv List.not_mem_nil⟩
  have hupholds := Discipline.upholds_traceWith Discipline.links_lawful
    (Discipline.calls_traceCallAt Discipline.links_lawful limit left) e trivial hready
  obtain ⟨houtcome, hnow⟩ := History.advance_eq (e.traceWith (traceCallAt limit left) frame [])
    ⟨[], m⟩
  rw [forget_traceWith (forget_traceCallAt limit left), heval] at houtcome hnow
  have hlater := hupholds.later
  have hsound := hupholds.sound
  have hvalue := hupholds.value
  simp only [Discipline.links, hnow, houtcome] at hlater hsound hvalue
  exact ⟨hlater, hsound, hvalue⟩

/-- The same for expressions evaluated one after another. -/
theorem linked_evalAllWith {es : List Expr} {outcome : Except RuntimeError (List Value)}
    (hlinked : m.env.Linked) (hframe : frame < m.env.size)
    (heval : evalAllWith (callAt limit left) frame es m = (outcome, n)) :
    m.env.Extends n.env ∧ n.env.Linked ∧
      ∀ vs, outcome = .ok vs → ∀ v ∈ vs, v.CapturesBelow n.env.size := by
  induction es generalizing m n outcome with
  | nil =>
    cases heval
    exact ⟨.refl _, hlinked, fun vs hvs v hv => by cases hvs; cases hv⟩
  | cons e es ih =>
    obtain ⟨err, hhead, rfl⟩ | ⟨v, m₁, hhead, hrest⟩ := Eval.bind_cases heval
    · obtain ⟨hextends, hlinked', _⟩ := linked_evalWith hlinked hframe hhead
      exact ⟨hextends, hlinked', nofun⟩
    · obtain ⟨hextends, hlinked₁, hv⟩ := linked_evalWith hlinked hframe hhead
      have hframe₁ := Nat.lt_of_lt_of_le hframe hextends.size_le
      obtain ⟨err, htail, rfl⟩ | ⟨vs, m₂, htail, hdone⟩ := Eval.bind_cases hrest
      · obtain ⟨hextends', hlinked', _⟩ := ih hlinked₁ hframe₁ htail
        exact ⟨hextends.trans hextends', hlinked', nofun⟩
      · obtain ⟨hextends', hlinked', hvs⟩ := ih hlinked₁ hframe₁ htail
        cases hdone
        refine ⟨hextends.trans hextends', hlinked', fun ws hws w hw => ?_⟩
        cases hws
        rcases List.mem_cons.1 hw with rfl | hw
        · exact (hv _ rfl).mono hextends'.size_le
        · exact hvs vs rfl w hw

end Expr

/-- A statement keeps the links. -/
theorem Stmt.linked_exec {limit : Nat} {st : Stmt} {m n : Machine}
    {outcome : Except RuntimeError (List String)} (hlinked : m.env.Linked)
    (hexec : st.exec limit m = (outcome, n)) : n.env.Linked := by
  have hkeeps := Discipline.keeps_stmt Discipline.links_durable limit (s := st)
    (fun _ _ => trivial) (h := ⟨[], m⟩) hlinked
  have hnow := (History.advance_eq (st.trace limit) ⟨[], m⟩).2
  rw [forget_trace, hexec] at hnow
  have hsound := hkeeps.sound
  simp only [Discipline.links, hnow] at hsound
  exact hsound

end CellLang
