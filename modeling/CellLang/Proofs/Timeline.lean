import CellLang.Proofs.Growth
import Mathlib.Data.List.Forall2
import Mathlib.Data.List.Induction

/-!
# Timelines

The points of a run are the ends of its evaluations and of its statements, in the order of time.
Between two neighbouring points the store grows, or one cell is written, and the latter only at the
end of an assignment whose location has evaluated to a pointer to that cell. From this step follows
what holds between any two points: the store keeps its capacity, a cell in use stays in use with the
type it has, and its content changes only where an assignment to it lies between.
-/

namespace CellLang

/-- A point of a run: an evaluation or a statement has just ended. -/
inductive Point where
  | evaluated (x : Moment)
  | executed (st : Stmt) (start stop : Machine)

namespace Point

/-- The machine in which the evaluation or the statement began. -/
def start : Point → Machine
  | .evaluated x => x.before
  | .executed _ m _ => m

/-- The machine in which it ended. -/
def stop : Point → Machine
  | .evaluated x => x.after
  | .executed _ _ m => m

/-- The end of an assignment whose location has evaluated to a pointer to the cell `i`. -/
def AssignsTo (limit i : Nat) : Point → Prop
  | .executed (.assign location _) start _ =>
    ∃ p m, location.eval limit FrameId.global start = (.ok (.pointer p), m) ∧ p.index = i
  | _ => False

end Point

/-- The points of a statement that starts in the machine `m`. -/
def Stmt.points (limit : Nat) (st : Stmt) (m : Machine) : List Point :=
  (st.trace limit m).2.2.map .evaluated ++ [.executed st m (st.exec limit m).2]

/-- The points of statements in order, up to the first that fails. -/
def Stmt.pointsAll (limit : Nat) : List Stmt → Machine → List Point
  | [], _ => []
  | st :: ss, m => st.points limit m ++
    match st.exec limit m with
    | (.ok _, n) => pointsAll limit ss n
    | (.error _, _) => []

/-- The points of a request. A reset is no part of a timeline. -/
def Request.points (limit : Nat) (m : Machine) : Request → List Point
  | .program p => Stmt.pointsAll limit p.stmts m
  | .stmt st => st.points limit m
  | .expr e => (e.trace limit [] m).2.2.map .evaluated
  | .reset => []

/-- The points of requests served in order. -/
def Session.points (s : Session) : List Request → List Point
  | [] => []
  | r :: rs => r.points s.limit s.machine ++ (s.serve r).2.points rs

/-- The store at the last of the points, which began with the given store. -/
def Store.reached (s : Store) (points : List Point) : Store :=
  points.foldl (fun _ x => x.stop.store) s

theorem Store.reached_append (s : Store) (before after : List Point) :
    s.reached (before ++ after) = (s.reached before).reached after :=
  List.foldl_append

/-! ## Two stores of one run -/

namespace Store

/-- The second store has the capacity of the first, and every cell in use keeps its type. -/
structure Persists (s t : Store) : Prop where
  capacity_eq : t.capacity = s.capacity
  typed : ∀ i c, s.get? i = some c → c.isFree = false →
    ∃ d, t.get? i = some d ∧ d.type? = c.type?

namespace Persists

theorem refl (s : Store) : s.Persists s := ⟨rfl, fun _ c hc _ => ⟨c, hc, rfl⟩⟩

theorem trans {s t u : Store} (hst : s.Persists t) (htu : t.Persists u) : s.Persists u := by
  refine ⟨htu.capacity_eq.trans hst.capacity_eq, fun i c hc hused => ?_⟩
  obtain ⟨d, hd, htype⟩ := hst.typed i c hc hused
  have hstill : d.isFree = false := by rw [Cell.isFree, htype]; exact hused
  obtain ⟨e, he, htype'⟩ := htu.typed i d hd hstill
  exact ⟨e, he, htype'.trans htype⟩

theorem of_grows {s t : Store} (h : s.Grows t) : s.Persists t :=
  ⟨h.capacity_eq, fun i c hc hused => ⟨c, h.kept i c hc hused, rfl⟩⟩

theorem of_write {s t : Store} {index : Nat} {v : Value} (h : s.write index v = .ok t) :
    s.Persists t := by
  refine ⟨capacity_write h, fun i c hc _ => ?_⟩
  obtain ⟨old, new, hold, _, _, htype, rfl⟩ := write_eq_ok h
  rw [get?_set]
  split
  · next heq =>
    subst heq
    obtain rfl : old = c := Option.some.inj (hold.symm.trans hc)
    exact ⟨new, by rw [hc, Option.map_some], htype⟩
  · exact ⟨c, hc, rfl⟩

theorem isFree_of_later {s t : Store} (h : s.Persists t) {i : Nat} {c d : Cell}
    (hc : s.get? i = some c) (hd : t.get? i = some d) (hfree : d.isFree = true) :
    c.isFree = true := by
  by_contra hused
  obtain ⟨d', hd', htype⟩ := h.typed i c hc (by simpa using hused)
  obtain rfl : d' = d := Option.some.inj (hd'.symm.trans hd)
  rw [Cell.isFree, htype] at hfree
  exact hused hfree

theorem countP_isFree_le {cs ds : List Cell}
    (h : List.Forall₂ (fun c d => d.isFree = true → c.isFree = true) cs ds) :
    ds.countP Cell.isFree ≤ cs.countP Cell.isFree := by
  induction h with
  | nil => exact Nat.le_refl _
  | @cons c d cs ds hcell _ ih =>
    rw [List.countP_cons, List.countP_cons]
    by_cases hd : d.isFree = true
    · rw [if_pos hd, if_pos (hcell hd)]
      omega
    · rw [if_neg hd]
      omega

/-- The number of free cells never increases. -/
theorem free_le {s t : Store} (h : s.Persists t) : t.free ≤ s.free := by
  rw [free, free, ← Array.countP_toList, ← Array.countP_toList]
  refine countP_isFree_le (List.forall₂_iff_get.2 ⟨h.capacity_eq.symm, fun i hi hj hfree => ?_⟩)
  refine h.isFree_of_later (i := i) ?_ ?_ hfree
  · rw [get?, ← Array.getElem?_toList, List.getElem?_eq_getElem hi, List.get_eq_getElem]
  · rw [get?, ← Array.getElem?_toList, List.getElem?_eq_getElem hj, List.get_eq_getElem]

end Persists

end Store

/-! ## Neighbouring points -/

/-- What the next point may do to the store `s` of the point before it. -/
inductive Point.Follows (limit : Nat) (s : Store) : Point → Prop
  | grown {x : Point} : s.Grows x.stop.store → Follows limit s x
  | written {location e : Expr} {start stop m : Machine} {p : Pointer} {v : Value} :
      location.eval limit FrameId.global start = (.ok (.pointer p), m) →
      s.write p.index v = .ok stop.store →
      Follows limit s (.executed (.assign location e) start stop)

namespace Point.Follows

variable {limit : Nat} {s : Store} {x : Point}

theorem persists (h : x.Follows limit s) : s.Persists x.stop.store := by
  cases h with
  | grown hgrows => exact .of_grows hgrows
  | written _ hwrite => exact .of_write hwrite

/-- A step changes a cell in use only if it assigns to it. -/
theorem assignsTo (h : x.Follows limit s) {i : Nat} {c : Cell} (hc : s.get? i = some c)
    (hused : c.isFree = false) (hchanged : x.stop.store.get? i ≠ some c) :
    x.AssignsTo limit i := by
  cases h with
  | grown hgrows => exact absurd (hgrows.kept i c hc hused) hchanged
  | @written location e start stop m p v hlocation hwrite =>
    refine ⟨p, m, hlocation, ?_⟩
    by_contra hindex
    exact hchanged (((Store.get?_write hwrite).2 i (Ne.symm hindex)).trans hc)

end Point.Follows

/-- The points lead from the store `s` to another: each follows the one before it, and what ends at
it began with the store of an earlier point. -/
inductive Leads (limit : Nat) (s : Store) : List Point → Store → Prop
  | nil : Leads limit s [] s
  | snoc {points : List Point} {t : Store} {x : Point} : Leads limit s points t →
      x.Follows limit t → (∃ earlier, earlier <+: points ∧ x.start.store = s.reached earlier) →
      Leads limit s (points ++ [x]) x.stop.store

namespace Leads

variable {limit : Nat} {s t u : Store} {points more : List Point} {x : Point}

theorem reached_eq (h : Leads limit s points t) : s.reached points = t := by
  cases h with
  | nil => rfl
  | snoc _ _ _ =>
    rw [Store.reached_append]
    rfl

theorem append (hst : Leads limit s points t) (htu : Leads limit t more u) :
    Leads limit s (points ++ more) u := by
  induction htu with
  | nil =>
    rw [List.append_nil]
    exact hst
  | snoc _ hfollows hstart ih =>
    obtain ⟨earlier, hearlier, heq⟩ := hstart
    rw [← List.append_assoc]
    refine .snoc ih hfollows
      ⟨points ++ earlier, (List.prefix_append_right_inj points).2 hearlier, ?_⟩
    rw [heq, Store.reached_append, hst.reached_eq]

/-- The last point, and the points before it. -/
theorem of_snoc (h : Leads limit s (points ++ [x]) t) :
    Leads limit s points (s.reached points) ∧ x.Follows limit (s.reached points) ∧
      (∃ earlier, earlier <+: points ∧ x.start.store = s.reached earlier) ∧ t = x.stop.store := by
  generalize hall : points ++ [x] = all at h
  cases h with
  | nil => simp at hall
  | @snoc points' t' x' hpoints hfollows hstart =>
    obtain ⟨rfl, hx⟩ := List.append_inj' hall rfl
    obtain rfl : x = x' := by simpa using hx
    have ht := hpoints.reached_eq
    rw [← ht] at hpoints hfollows
    exact ⟨hpoints, hfollows, hstart, rfl⟩

theorem of_append (h : Leads limit s (points ++ more) t) :
    Leads limit s points (s.reached points) := by
  induction more using List.reverseRecOn generalizing t with
  | nil =>
    rw [List.append_nil] at h
    rw [h.reached_eq]
    exact h
  | append_singleton more x ih =>
    rw [← List.append_assoc] at h
    exact ih h.of_snoc.1

/-- Between two points of one timeline the store persists. -/
theorem persists (h : Leads limit s (points ++ more) t) : (s.reached points).Persists t := by
  induction more using List.reverseRecOn generalizing t with
  | nil =>
    rw [List.append_nil] at h
    rw [h.reached_eq]
    exact .refl t
  | append_singleton more x ih =>
    rw [← List.append_assoc] at h
    obtain ⟨hbefore, hfollows, _, rfl⟩ := h.of_snoc
    exact (ih hbefore).trans hfollows.persists

/-- A cell in use whose content differs between two points has been assigned to in between. -/
theorem assignsTo (h : Leads limit s (points ++ more) t) {i : Nat} {c : Cell}
    (hc : (s.reached points).get? i = some c) (hused : c.isFree = false)
    (hchanged : t.get? i ≠ some c) : ∃ x ∈ more, x.AssignsTo limit i := by
  induction more using List.reverseRecOn generalizing t with
  | nil =>
    rw [List.append_nil] at h
    rw [h.reached_eq] at hc
    exact absurd hc hchanged
  | append_singleton more x ih =>
    rw [← List.append_assoc] at h
    obtain ⟨hbefore, hfollows, _, rfl⟩ := h.of_snoc
    by_cases hsame : (s.reached (points ++ more)).get? i = some c
    · exact ⟨x, by simp, hfollows.assignsTo hsame hused hchanged⟩
    · obtain ⟨y, hy, hassigns⟩ := ih hbefore hsame
      exact ⟨y, List.mem_append_left _ hy, hassigns⟩

end Leads

/-! ## The points of evaluations -/

namespace Discipline

/-- The discipline of a timeline that begins with the store `s`. -/
def timeline (limit : Nat) (s : Store) : Discipline where
  Code _ := True
  Sound h := Leads limit s (h.past.map .evaluated) h.now.store
  Sees _ _ := True
  Fits _ _ := True
  Allows _ := True
  Later h i := h.past <+: i.past

theorem leads_note {limit : Nat} {s : Store} {h i : History} {x : Moment}
    (hh : (timeline limit s).Sound h) (hi : (timeline limit s).Sound i)
    (hlater : h.past <+: i.past) (hbefore : x.before = h.now)
    (hgrows : i.now.store.Grows x.after.store) :
    Leads limit s ((i.past ++ [x]).map .evaluated) x.after.store := by
  rw [List.map_append]
  refine .snoc hi (.grown hgrows) ⟨h.past.map .evaluated, hlater.map _, ?_⟩
  rw [Leads.reached_eq hh]
  exact congrArg Machine.store hbefore

theorem timeline_lawful (limit : Nat) (s : Store) : (timeline limit s).Lawful where
  refl _ := List.prefix_rfl
  trans := List.IsPrefix.trans
  note hready hsound hlater _ _ :=
    ⟨leads_note hready.sound hsound hlater rfl (.refl _), List.prefix_append _ _⟩
  allocate {_ i _ _ _ _} _ cell hready hsound hlater hb :=
    ⟨leads_note (i := i) hready.sound hsound hlater rfl (.of_allocates (.fill cell hb)),
      List.prefix_append _ _, trivial⟩
  enter hsound _ _ := ⟨hsound, trivial, trivial⟩
  later_enter := List.prefix_rfl
  leave _ hlater hsound := ⟨hsound, hlater⟩

end Discipline

/-- The points of an evaluation lead from the store it finds to the store it leaves. -/
theorem Expr.leads_trace {limit : Nat} {e : Expr} {held : List Value} {m n : Machine}
    {outcome : Except RuntimeError Value} {moments : List Moment}
    (h : e.trace limit held m = (outcome, n, moments)) :
    Leads limit m.store (moments.map .evaluated) n.store := by
  have hlawful := Discipline.timeline_lawful limit m.store
  have hready : (Discipline.timeline limit m.store).Ready ⟨[], m⟩ FrameId.global held :=
    ⟨.nil, trivial, fun _ _ => trivial⟩
  have hsound := (Discipline.upholds_traceWith hlawful
    (Discipline.calls_traceCallAt hlawful limit limit) e trivial hready).sound
  change Leads limit m.store (([] ++ (e.trace limit held m).2.2).map .evaluated)
    (e.trace limit held m).2.1.store at hsound
  rw [h] at hsound
  exact hsound

theorem Expr.eval_of_trace {limit : Nat} {e : Expr} {held : List Value} {m n : Machine}
    {outcome : Except RuntimeError Value} {moments : List Moment}
    (h : e.trace limit held m = (outcome, n, moments)) :
    e.eval limit FrameId.global m = (outcome, n) := by
  rw [← Expr.forget_trace limit held e, Traced.forget, h]

/-! ## The points of statements -/

theorem Traced.bind_cases {α β : Type} {x : ReaderT (List Value) Traced α}
    {f : α → ReaderT (List Value) Traced β} {held : List Value} {m n : Machine}
    {outcome : Except RuntimeError β} {moments : List Moment}
    (h : (x >>= f) held m = (outcome, n, moments)) :
    (∃ e, x held m = (.error e, n, moments) ∧ outcome = .error e) ∨
      ∃ a m' early late, x held m = (.ok a, m', early) ∧ f a held m' = (outcome, n, late) ∧
        moments = early ++ late := by
  replace h := (bind_apply (x held) (f · held) m).symm.trans h
  rcases hx : x held m with ⟨e | a, m', early⟩
  · rw [hx] at h
    cases h
    exact .inl ⟨e, rfl, rfl⟩
  · rw [hx] at h
    cases h
    exact .inr ⟨a, m', early, _, rfl, rfl, rfl⟩

/-- An action that ends a statement completes no evaluation. -/
theorem Traced.act_bind_pure {α : Type} {call : TracedCaller} {x : Eval Unit} {a : α}
    {held : List Value} {m n : Machine} {outcome : Except RuntimeError α} {moments : List Moment}
    (h : ((Interpretation.tracing call).act x >>= fun _ => pure a) held m =
      (outcome, n, moments)) : moments = [] ∧ n = (x m).2 := by
  replace h := (bind_apply (ofEval x) (fun _ => pure a) m).symm.trans h
  rw [ofEval] at h
  rcases hx : x m with ⟨e | _, m'⟩
  · rw [hx] at h
    cases h
    exact ⟨rfl, rfl⟩
  · rw [hx] at h
    cases h
    exact ⟨rfl, rfl⟩

namespace Stmt

/-- The evaluations of a statement come first; its own action is the last step. -/
theorem leads_trace {limit : Nat} {st : Stmt} {m n : Machine}
    {outcome : Except RuntimeError (List String)} {moments : List Moment}
    (h : st.trace limit m = (outcome, n, moments)) :
    ∃ t, Leads limit m.store (moments.map .evaluated) t ∧
      (Point.executed st m n).Follows limit t := by
  cases st with
  | define name expr =>
    obtain ⟨e, hexpr, _⟩ | ⟨v, m₁, early, late, hexpr, hrest, rfl⟩ := Traced.bind_cases h
    · exact ⟨_, Expr.leads_trace hexpr, .grown (.refl _)⟩
    · change ((Interpretation.tracing (traceCallAt limit limit)).act
        (Eval.putEnvironment (m₁.env.define FrameId.global name v)) >>= fun _ => pure []) [] m₁ = _
        at hrest
      obtain ⟨rfl, rfl⟩ := Traced.act_bind_pure hrest
      have hstore : (Eval.putEnvironment (m₁.env.define FrameId.global name v) m₁).2.store =
          m₁.store := by
        cases m₁.env.define FrameId.global name v <;> rfl
      rw [List.append_nil]
      exact ⟨_, Expr.leads_trace hexpr, .grown (by rw [Point.stop, hstore]; exact .refl _)⟩
  | assign location expr =>
    obtain ⟨e, hlocation, _⟩ | ⟨target, m₁, early, late, hlocation, hrest, rfl⟩ :=
      Traced.bind_cases h
    · exact ⟨_, Expr.leads_trace hlocation, .grown (.refl _)⟩
    have hleads := Expr.leads_trace hlocation
    obtain ⟨e, hexpr, _⟩ | ⟨v, m₂, mid, last, hexpr, hlast, rfl⟩ := Traced.bind_cases hrest
    · rw [List.map_append]
      exact ⟨_, hleads.append (Expr.leads_trace hexpr), .grown (.refl _)⟩
    obtain ⟨rfl, rfl⟩ := Traced.act_bind_pure (x := assignTo location target v) hlast
    rw [List.append_nil, List.map_append]
    refine ⟨_, hleads.append (Expr.leads_trace hexpr), ?_⟩
    rcases hassign : assignTo location target v m₂ with ⟨outcome', n⟩
    obtain ⟨_, _, rfl⟩ | ⟨p, store, rfl, hwrite, _, rfl⟩ | ⟨_, _, _, _, _, _, rfl⟩ :=
      assignTo_cases hassign
    · exact .grown (.refl _)
    · exact .written (Expr.eval_of_trace hlocation) hwrite
    · exact .grown (.refl _)
  | print expr =>
    obtain ⟨e, hexpr, _⟩ | ⟨v, m₁, early, late, hexpr, hrest, rfl⟩ := Traced.bind_cases h
    · exact ⟨_, Expr.leads_trace hexpr, .grown (.refl _)⟩
    · cases hrest
      rw [List.append_nil]
      exact ⟨_, Expr.leads_trace hexpr, .grown (.refl _)⟩

theorem leads_points (limit : Nat) (st : Stmt) (m : Machine) :
    Leads limit m.store (st.points limit m) (st.exec limit m).2.store := by
  rcases htrace : st.trace limit m with ⟨outcome, n, moments⟩
  have hexec : st.exec limit m = (outcome, n) := by
    rw [← forget_trace, Traced.forget, htrace]
  obtain ⟨t, hleads, hfollows⟩ := leads_trace htrace
  rw [points, htrace, hexec]
  exact .snoc hleads hfollows ⟨[], List.nil_prefix, rfl⟩

theorem leads_pointsAll (limit : Nat) (ss : List Stmt) (m : Machine) :
    Leads limit m.store (pointsAll limit ss m) (execAll limit ss m).2.store := by
  induction ss generalizing m with
  | nil => exact .nil
  | cons st ss ih =>
    have hfirst := leads_points limit st m
    rw [pointsAll, execAll_cons, Eval.bind_apply]
    rcases hexec : st.exec limit m with ⟨e | lines, n⟩
    · rw [hexec] at hfirst
      dsimp only
      rw [List.append_nil]
      exact hfirst
    · rw [hexec] at hfirst
      have hrest := ih n
      dsimp only
      rw [Eval.bind_apply]
      rcases hmore : execAll limit ss n with ⟨e | more, o⟩
      · rw [hmore] at hrest
        exact hfirst.append hrest
      · rw [hmore] at hrest
        exact hfirst.append hrest

end Stmt

/-! ## The points of runs -/

namespace Session

theorem leads_request (s : Session) {r : Request} (hr : r ≠ .reset) :
    Leads s.limit s.machine.store (r.points s.limit s.machine) (s.serve r).2.machine.store := by
  cases r with
  | program p => exact Stmt.leads_pointsAll s.limit p.stmts s.machine
  | stmt st => exact Stmt.leads_points s.limit st s.machine
  | expr e =>
    rcases htrace : e.trace s.limit [] s.machine with ⟨outcome, n, moments⟩
    have hstore : (s.serve (.expr e)).2.machine.store = n.store :=
      congrArg (fun r => r.2.store) (Expr.eval_of_trace htrace)
    rw [Request.points, htrace, hstore]
    exact Expr.leads_trace htrace
  | reset => exact absurd rfl hr

theorem leads_points (s : Session) {rs : List Request} (hrs : ∀ r ∈ rs, r ≠ .reset) :
    Leads s.limit s.machine.store (s.points rs) (s.after rs).machine.store := by
  induction rs generalizing s with
  | nil => exact .nil
  | cons r rs ih =>
    have hfirst := s.leads_request (hrs r List.mem_cons_self)
    have hlimit : (s.serve r).2.limit = s.limit := by cases r <;> rfl
    have hrest := ih (s.serve r).2 fun r' hr' => hrs r' (List.mem_cons_of_mem _ hr')
    rw [hlimit] at hrest
    exact hfirst.append hrest

/-- The life cycle of cells. A run without a reset, from any state that a session can reach, has its
points in the order of time; the last one has the store that the run leaves, and whatever ends at a
point began with the store of an earlier one. Between any two points the capacity is the same, a
cell in use stays in use with its type, no cell becomes free, and the content of a cell in use
differs only if an assignment to that cell lies between them. -/
theorem cell_life_cycle (settings : Settings) (earlier rs : List Request)
    (hrs : ∀ r ∈ rs, r ≠ .reset) :
    let s := (ofSettings settings).after earlier
    let store := s.machine.store.reached
    store (s.points rs) = (s.after rs).machine.store ∧
    (∀ before x after, s.points rs = before ++ x :: after →
      ∃ begun, begun <+: before ∧ x.start.store = store begun) ∧
    ∀ first between rest, s.points rs = first ++ between ++ rest →
      (store (first ++ between)).capacity = (store first).capacity ∧
      (∀ i c, (store first).get? i = some c → c.isFree = false →
        ∃ d, (store (first ++ between)).get? i = some d ∧ d.type? = c.type?) ∧
      (store (first ++ between)).free ≤ (store first).free ∧
      ∀ i c, (store first).get? i = some c → c.isFree = false →
        (store (first ++ between)).get? i ≠ some c → ∃ x ∈ between, x.AssignsTo s.limit i := by
  intro s store
  have hleads := s.leads_points hrs
  refine ⟨hleads.reached_eq, fun before x after hpoints => ?_, fun first between rest hpoints => ?_⟩
  · rw [hpoints, List.append_cons] at hleads
    exact hleads.of_append.of_snoc.2.2.1
  · rw [hpoints] at hleads
    have hbetween := hleads.of_append
    have hpersists := hbetween.persists
    exact ⟨hpersists.capacity_eq, hpersists.typed, hpersists.free_le,
      fun i c hc hused hchanged => hbetween.assignsTo hc hused hchanged⟩

theorem cell_life_cycle_of_assigned_cell :
    let s := (ofSettings ⟨2, 1⟩).after []
    let rs : List Request := [.stmt (.define "p" (.new (.keyword .bool) 1)),
      .stmt (.assign (.var "p") (.bool true))]
    let first := (s.points rs).take 3
    let between := (s.points rs).drop 3
    (∀ r ∈ rs, r ≠ .reset) ∧ s.points rs = first ++ between ++ [] ∧
      (s.machine.store.reached first).get? 0 = some (.bool false) ∧
      (s.machine.store.reached (first ++ between)).get? 0 = some (.bool true) ∧
      (s.machine.store.reached (first ++ between)).free ≤ (s.machine.store.reached first).free ∧
      ∃ x ∈ between, x.AssignsTo s.limit 0 := by
  intro s rs first between
  have hrs : ∀ r ∈ rs, r ≠ .reset := by simp [rs]
  have hpoints : s.points rs = first ++ between := (List.take_append_drop 3 _).symm
  have hfirst : (s.machine.store.reached first).get? 0 = some (.bool false) := by
    unfold first s rs
    with_unfolding_all rfl
  obtain ⟨hlast, _, hbetween⟩ := cell_life_cycle ⟨2, 1⟩ [] rs hrs
  have hafter : (s.machine.store.reached (first ++ between)).get? 0 = some (.bool true) := by
    have hend : s.machine.store.reached (s.points rs) = (s.after rs).machine.store := hlast
    rw [← hpoints, hend]
    unfold s rs
    with_unfolding_all rfl
  obtain ⟨_, _, hfree, hassigns⟩ :=
    hbetween first between [] (by rw [List.append_nil]; exact hpoints)
  refine ⟨hrs, by rw [List.append_nil]; exact hpoints, hfirst, hafter, hfree,
    hassigns 0 _ hfirst rfl ?_⟩
  rw [hafter]
  simp

end Session

end CellLang
