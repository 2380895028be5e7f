import CellLang.Proofs.Growth

/-!
# Global names

A global name stays bound once it is, and a name that stands for a pointer stands for that pointer
from then on. Three rules meet here: a definition refuses a bound name, an assignment to a name that
stands for a pointer writes the cell instead of the name, and evaluation leaves the global frame
alone, so nothing comes between looking at the name and rebinding it.
-/

namespace CellLang

namespace Environment

/-- In the global frame only its own bindings are seen. -/
theorem get?_global (env : Environment) (name : String) :
    env.get? FrameId.global name =
      (env.frames[FrameId.global]?).bind fun f => f.find? name := by
  cases hf : env.frames[FrameId.global]? with
  | none => exact get?_of_no_frame hf name
  | some f =>
    have hnone : ∀ p : FrameId, ¬ p < FrameId.global := fun p => Nat.not_lt_zero p
    rw [get?_of_frame hf, Option.bind_some]
    cases f.parent with
    | none => rw [Option.bind_none, Option.or_none]
    | some p => rw [Option.bind_some, if_neg (hnone p), Option.or_none]

/-- Every global name keeps a value, and a name that stands for a pointer keeps that pointer. -/
def KeepsNames (env later : Environment) : Prop :=
  ∀ name v, env.get? FrameId.global name = some v →
    ∃ w, later.get? FrameId.global name = some w ∧ ∀ p, v = .pointer p → w = .pointer p

namespace KeepsNames

theorem refl (env : Environment) : env.KeepsNames env :=
  fun _ v hv => ⟨v, hv, fun _ hp => hp⟩

theorem trans {a b c : Environment} (hab : a.KeepsNames b) (hbc : b.KeepsNames c) :
    a.KeepsNames c := by
  intro name v hv
  obtain ⟨w, hw, hpointer⟩ := hab name v hv
  obtain ⟨x, hx, hpointer'⟩ := hbc name w hw
  exact ⟨x, hx, fun p hp => hpointer' p (hpointer p hp)⟩

end KeepsNames

theorem Extends.get?_global {env later : Environment} (h : env.Extends later) {name : String}
    {v : Value} (hget : env.get? FrameId.global name = some v) :
    later.get? FrameId.global name = some v := by
  rw [Environment.get?_global] at hget ⊢
  obtain ⟨f, hf, hfind⟩ := Option.bind_eq_some_iff.1 hget
  rw [h _ f hf]
  exact hfind

theorem keepsNames_of_extends {env later : Environment} (h : env.Extends later) :
    env.KeepsNames later :=
  fun _ v hv => ⟨v, h.get?_global hv, fun _ hp => hp⟩

/-- A definition binds a name that had no binding, so it hides none. -/
theorem keepsNames_of_define {env later : Environment} {name : String} {v : Value}
    (h : env.define FrameId.global name v = .ok later) : env.KeepsNames later := by
  unfold define at h
  cases hf : env.frames[FrameId.global]? with
  | none =>
    rw [hf] at h
    cases h
    exact .refl env
  | some f =>
    rw [hf] at h
    dsimp only at h
    split at h
    · cases h
    · next hunbound =>
      cases h
      intro other w hw
      rw [get?_global, hf, Option.bind_some] at hw
      have hother : other ≠ name := by
        rintro rfl
        exact hunbound (by rw [Frame.binds, hw]; rfl)
      refine ⟨w, ?_, fun _ hp => hp⟩
      rw [get?_global, Array.getElem?_modify, if_pos rfl, hf, Option.map_some, Option.bind_some,
        Frame.find?_insert, if_neg hother]
      exact hw

/-- An assignment to a name that stands for no pointer takes no pointer away. -/
theorem keepsNames_of_assign {env later : Environment} {name : String} {v : Value}
    (h : env.assign FrameId.global name v = .ok later)
    (hname : ∀ p, env.get? FrameId.global name ≠ some (.pointer p)) : env.KeepsNames later := by
  rw [assign, set?_eq_owner?] at h
  cases howner : env.owner? name FrameId.global with
  | none =>
    rw [howner] at h
    cases h
  | some owner =>
    obtain rfl := owner?_global howner
    rw [howner] at h
    cases h
    intro other w hw
    have hlater : (Environment.mk (env.frames.modify FrameId.global fun f =>
        f.replace name v)).get? FrameId.global other = some (if other = name then v else w) := by
      rw [get?_global] at hw
      obtain ⟨f, hf, hfind⟩ := Option.bind_eq_some_iff.1 hw
      rw [get?_global, Array.getElem?_modify, if_pos rfl, hf, Option.map_some, Option.bind_some,
        Frame.find?_replace, hfind, Option.map_some]
    refine ⟨_, hlater, fun p hp => ?_⟩
    subst hp
    have hother : other ≠ name := by
      rintro rfl
      exact hname p hw
    rw [if_neg hother]

end Environment

/-- No effect of a statement loses a global name or moves a pointer that a name stands for. -/
theorem Stmt.Effect.keepsNames {limit : Nat} {m n : Machine} {st : Stmt}
    {outcome : Except RuntimeError (List String)} (h : Effect limit m st outcome n) :
    m.env.KeepsNames n.env := by
  cases h with
  | failed hgrows => exact Environment.keepsNames_of_extends hgrows.frames
  | printed hgrows => exact Environment.keepsNames_of_extends hgrows.frames
  | defined hgrows hdefine =>
    exact (Environment.keepsNames_of_extends hgrows.frames).trans
      (Environment.keepsNames_of_define hdefine)
  | stored _ hgrows _ => exact Environment.keepsNames_of_extends hgrows.frames
  | rebound htarget hother hgrows hassign =>
    -- the value of the name was no pointer when the statement began, and is still the same one
    have hkept := hgrows.frames.get?_global htarget
    refine (Environment.keepsNames_of_extends hgrows.frames).trans
      (Environment.keepsNames_of_assign hassign fun p hp => ?_)
    exact hother p (Option.some.inj (hkept.symm.trans hp))

theorem Machine.steady_keepsNames : Steady fun m n => m.env.KeepsNames n.env where
  refl m := .refl m.env
  trans := .trans
  grows hgrows := Environment.keepsNames_of_extends hgrows.frames
  effect _ heffect := heffect.keepsNames

namespace Session

/-- Pointer variables are permanent: whatever requests other than a reset are served, and whether
they succeed or fail, a global name that was bound is still bound, and one that stood for a pointer
stands for the same pointer. -/
theorem pointer_names_permanent (settings : Settings) (rs later : List Request)
    (hlater : ∀ r ∈ later, r ≠ .reset) :
    let before := ((ofSettings settings).after rs).machine.env
    let after := (((ofSettings settings).after rs).after later).machine.env
    (∀ name, before.contains FrameId.global name = true →
      after.contains FrameId.global name = true) ∧
    ∀ name p, before.get? FrameId.global name = some (.pointer p) →
      after.get? FrameId.global name = some (.pointer p) := by
  intro before after
  have hkeeps : before.KeepsNames after :=
    Machine.steady_keepsNames.after (wellFormed_after settings rs) hlater
  refine ⟨fun name hname => ?_, fun name p hp => ?_⟩
  · obtain ⟨v, hv⟩ := Option.isSome_iff_exists.1 hname
    obtain ⟨w, hw, _⟩ := hkeeps name v hv
    rw [Environment.contains, hw]
    rfl
  · obtain ⟨w, hw, hpointer⟩ := hkeeps name _ hp
    rw [hw, hpointer p rfl]

theorem pointer_names_permanent_after_assignments :
    let rs : List Request := [.stmt (.define "p" (.new (.keyword .bool) 1))]
    let later : List Request := [.stmt (.assign (.var "p") (.bool true)),
      .stmt (.define "p" (.bool false)), .program ⟨[.assign (.var "p") (.lambda "x" (.var "x"))]⟩]
    let before := ((ofSettings ⟨1, 1⟩).after rs).machine.env
    let after := (((ofSettings ⟨1, 1⟩).after rs).after later).machine.env
    (∀ r ∈ later, r ≠ .reset) ∧
      before.get? FrameId.global "p" = some (.pointer ⟨0, ⟨0, 0⟩⟩) ∧
      after.get? FrameId.global "p" = some (.pointer ⟨0, ⟨0, 0⟩⟩) := by
  intro rs later before after
  have hlater : ∀ r ∈ later, r ≠ .reset := by simp [later]
  have hbefore : before.get? FrameId.global "p" = some (.pointer ⟨0, ⟨0, 0⟩⟩) := by
    unfold before rs
    with_unfolding_all rfl
  exact ⟨hlater, hbefore, (pointer_names_permanent ⟨1, 1⟩ rs later hlater).2 "p" _ hbefore⟩

end Session

end CellLang
