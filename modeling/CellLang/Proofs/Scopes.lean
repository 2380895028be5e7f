import CellLang.Proofs.Frames

/-!
# Scopes

Frames share their outer frames, so one binding is seen from many frames and hidden from others by
nearer bindings of the same name. All operations agree on which binding is meant: the one of the
first frame on the chain of parents that binds the name. A definition and an assignment both give
one name a value in one frame, and what is seen afterwards from any frame follows from that alone.
-/

namespace CellLang.Environment

variable {env later : Environment}

/-- The frame is on the chain, and no frame before it on the chain binds the name. -/
def Exposed (env : Environment) (name : String) (id : FrameId) (ids : List FrameId) : Prop :=
  ∃ before after, ids = before ++ id :: after ∧ ∀ i ∈ before, env.bindsAt name i = false

theorem exposed_self (env : Environment) (name : String) (id : FrameId) (ids : List FrameId) :
    env.Exposed name id (id :: ids) := ⟨[], ids, rfl, nofun⟩

/-- Past another frame, a frame is exposed if the other one does not hide it. -/
theorem exposed_cons {name : String} {id i : FrameId} {ids : List FrameId} (hne : i ≠ id) :
    env.Exposed name id (i :: ids) ↔ env.bindsAt name i = false ∧ env.Exposed name id ids := by
  constructor
  · intro h
    obtain ⟨before, after, hids, hfree⟩ := h
    cases before with
    | nil => exact absurd (List.cons.inj hids).1 hne
    | cons j before =>
      obtain ⟨rfl, rfl⟩ := List.cons.inj hids
      exact ⟨hfree i List.mem_cons_self, before, after, rfl,
        fun k hk => hfree k (List.mem_cons_of_mem i hk)⟩
  · intro h
    obtain ⟨hi, before, after, rfl, hfree⟩ := h
    exact ⟨i :: before, after, rfl, List.forall_mem_cons.2 ⟨hi, hfree⟩⟩

theorem not_exposed_nil (env : Environment) (name : String) (id : FrameId) :
    ¬ env.Exposed name id [] := by
  intro h
  obtain ⟨before, after, hids, _⟩ := h
  simp at hids

/-- A frame that binds the name is exposed on a chain exactly when it is the first one to do so. -/
theorem exposed_iff_find? {name : String} {id : FrameId} (hbinds : env.bindsAt name id = true)
    (ids : List FrameId) : env.Exposed name id ids ↔ ids.find? (env.bindsAt name) = some id := by
  induction ids with
  | nil => simp [not_exposed_nil]
  | cons i ids ih =>
    by_cases hi : i = id
    · subst hi
      rw [List.find?_cons_of_pos hbinds]
      exact iff_of_true (exposed_self env name i ids) rfl
    · rw [exposed_cons hi, ih]
      cases hname : env.bindsAt name i with
      | true => simp [hname, hi]
      | false => simp [hname]

/-! ## One binding is changed -/

/-- In the second environment the name has the value in one frame; nothing else is different. -/
structure Updates (env later : Environment) (id : FrameId) (name : String) (v : Value) : Prop where
  others : ∀ i, i ≠ id → later.frames[i]? = env.frames[i]?
  frame : ∃ f g, env.frames[id]? = some f ∧ later.frames[id]? = some g ∧ g.parent = f.parent ∧
    ∀ other, g.find? other = if other = name then some v else f.find? other

theorem updates_of_modify {id : FrameId} {f : Frame} (hf : env.frames[id]? = some f)
    {change : Frame → Frame} {name : String} {v : Value} (hparent : (change f).parent = f.parent)
    (hfind : ∀ other, (change f).find? other = if other = name then some v else f.find? other) :
    env.Updates ⟨env.frames.modify id change⟩ id name v := by
  refine ⟨fun i hi => ?_, f, change f, hf, ?_, hparent, hfind⟩
  · rw [Array.getElem?_modify, if_neg (Ne.symm hi)]
  · rw [Array.getElem?_modify, if_pos rfl, hf, Option.map_some]

theorem define_of_bound {id : FrameId} {name : String} (h : env.bindsAt name id = true)
    (v : Value) : env.define id name v = .error (.redefinition name) := by
  obtain ⟨f, hf, hbinds⟩ := (Option.any_eq_true _ _).1 h
  rw [define, hf]
  exact if_pos hbinds

/-- A definition binds a name that the frame does not bind yet. -/
theorem define_of_free {id : FrameId} (hid : id < env.size) {name : String}
    (h : env.bindsAt name id = false) (v : Value) :
    ∃ later, env.define id name v = .ok later ∧ env.Updates later id name v := by
  obtain ⟨f, hf⟩ := exists_frame hid
  rw [bindsAt_of_frame hf] at h
  rw [define, hf]
  simp only [h, Bool.false_eq_true, if_false, Except.ok.injEq, exists_eq_left']
  exact updates_of_modify hf rfl fun other => f.find?_insert name other v

theorem bindsAt_of_owner? {id owner : FrameId} {name : String}
    (h : env.owner? name id = some owner) : env.bindsAt name owner = true := by
  obtain ⟨f, hf, hbinds⟩ := binds_of_owner? h
  rw [bindsAt_of_frame hf, hbinds]

/-- An assignment gives the name its new value in the owner. -/
theorem set?_of_owner? {id owner : FrameId} {name : String} (h : env.owner? name id = some owner)
    (v : Value) : ∃ later, env.set? id name v = some later ∧ env.Updates later owner name v := by
  obtain ⟨f, hf, hbinds⟩ := binds_of_owner? h
  obtain ⟨old, hold⟩ := Option.isSome_iff_exists.1 hbinds
  rw [set?_eq_owner?, h]
  refine ⟨_, rfl, updates_of_modify hf rfl fun other => ?_⟩
  rw [Frame.find?_replace]
  by_cases hname : other = name
  · rw [hname, hold, Option.map_some, if_pos rfl, if_pos rfl]
  · simp [hname]

/-! ## What is seen after the change -/

/-- What is seen along a chain, now and before, when a name was given a value in one frame: the new
value if that frame is exposed for the name, and otherwise the same as before. -/
def Shows (env : Environment) (id : FrameId) (name : String) (v : Value) (other : String)
    (ids : List FrameId) (now old : Option Value) : Prop :=
  (other = name ∧ env.Exposed name id ids → now = some v) ∧
    (¬ (other = name ∧ env.Exposed name id ids) → now = old)

variable {id : FrameId} {name : String} {v : Value}

theorem shows_nil (other : String) (now : Option Value) : env.Shows id name v other [] now now :=
  ⟨fun h => absurd h.2 (not_exposed_nil env name id), fun _ => rfl⟩

/-- One more frame in front of a chain: it is the changed frame, or it hides the others, or it lets
them be seen. -/
theorem shows_cons {i : FrameId} {f g : Frame} {ids : List FrameId} {other : String}
    {now old : Option Value} (hf : env.frames[i]? = some f)
    (hfind : g.find? other = if i = id ∧ other = name then some v else f.find? other)
    (h : env.Shows id name v other ids now old) :
    env.Shows id name v other (i :: ids) ((g.find? other).or now) ((f.find? other).or old) := by
  by_cases hi : i = id
  · subst hi
    by_cases hname : other = name
    · rw [if_pos ⟨rfl, hname⟩] at hfind
      rw [hfind, Option.some_or]
      exact ⟨fun _ => rfl, fun hnot => absurd ⟨hname, exposed_self env name i ids⟩ hnot⟩
    · rw [if_neg (fun h => hname h.2)] at hfind
      rw [hfind, h.2 fun h => hname h.1]
      exact ⟨fun h => absurd h.1 hname, fun _ => rfl⟩
  · rw [if_neg (fun h => hi h.1)] at hfind
    rw [hfind, Shows, exposed_cons hi, bindsAt_of_frame hf, Frame.binds]
    cases hold : f.find? other with
    | some w =>
      -- the frame hides the rest of the chain, before and after
      refine ⟨fun hexposed => ?_, fun _ => rfl⟩
      obtain ⟨rfl, hfree, _⟩ := hexposed
      rw [hold] at hfree
      cases hfree
    | none =>
      rw [Option.none_or, Option.none_or]
      refine ⟨fun hexposed => h.1 ⟨hexposed.1, hexposed.2.2⟩, fun hnot => ?_⟩
      refine h.2 fun hexposed => hnot ?_
      obtain ⟨rfl, hids⟩ := hexposed
      exact ⟨rfl, by rw [hold]; rfl, hids⟩

theorem Updates.exists_frame (h : env.Updates later id name v) {i : FrameId} {f : Frame}
    (hf : env.frames[i]? = some f) : ∃ g, later.frames[i]? = some g ∧ g.parent = f.parent ∧
      ∀ other, g.find? other = if i = id ∧ other = name then some v else f.find? other := by
  by_cases hi : i = id
  · subst hi
    obtain ⟨f', g, hf', hg, hparent, hfind⟩ := h.frame
    obtain rfl : f' = f := Option.some.inj (hf'.symm.trans hf)
    exact ⟨g, hg, hparent, fun other => by simpa using hfind other⟩
  · refine ⟨f, (h.others i hi).trans hf, rfl, fun other => ?_⟩
    rw [if_neg fun h => hi h.1]

/-- After a change in one frame, another frame sees the new value of the name if nothing on its
chain hides the changed frame; everything else is seen as before. -/
theorem Updates.shows (h : env.Updates later id name v) (hparents : env.ParentsOlder)
    {i : FrameId} {ids : List FrameId} (hwalk : env.Walk i ids) (other : String) :
    env.Shows id name v other ids (later.get? i other) (env.get? i other) := by
  induction hwalk with
  | @last i f hf hnone =>
    obtain ⟨g, hg, hparent, hfind⟩ := h.exists_frame hf
    rw [get?_of_no_parent hf hnone, get?_of_no_parent hg (hparent.trans hnone)]
    have hshows := shows_cons hf (hfind other) (shows_nil other none)
    rwa [Option.or_none, Option.or_none] at hshows
  | @step i p f ids hf hsome _ ih =>
    obtain ⟨g, hg, hparent, hfind⟩ := h.exists_frame hf
    have hlt := hparents i f p hf hsome
    rw [get?_of_parent hf hsome hlt, get?_of_parent hg (hparent.trans hsome) hlt]
    exact shows_cons hf (hfind other) ih

/-- Frames that are still there see what they saw. -/
theorem Extends.get?_eq (h : env.Extends later) (hparents : env.ParentsOlder) {i : FrameId}
    {ids : List FrameId} (hwalk : env.Walk i ids) (other : String) :
    later.get? i other = env.get? i other := by
  induction hwalk with
  | last hf hnone =>
    rw [get?_of_no_parent hf hnone, get?_of_no_parent (h _ _ hf) hnone]
  | @step i p f ids hf hsome _ ih =>
    have hlt := hparents i f p hf hsome
    rw [get?_of_parent hf hsome hlt, get?_of_parent (h i f hf) hsome hlt, ih]

/-! ## The operations -/

theorem get?_eq_some_iff {w : Value} : env.get? id name = some w ↔
    ∃ owner f, env.owner? name id = some owner ∧ env.frames[owner]? = some f ∧
      f.find? name = some w := by
  rw [get?_eq_owner?]
  constructor
  · intro h
    obtain ⟨owner, howner, h⟩ := Option.bind_eq_some_iff.1 h
    obtain ⟨f, hf, hfind⟩ := Option.bind_eq_some_iff.1 h
    exact ⟨owner, f, howner, hf, hfind⟩
  · intro h
    obtain ⟨owner, f, howner, hf, hfind⟩ := h
    rw [howner, Option.bind_some, hf]
    exact hfind

theorem contains_iff : env.contains id name = true ↔ ∃ owner, env.owner? name id = some owner := by
  rw [contains, isSome_get?, Option.isSome_iff_exists]

theorem set?_of_no_owner (h : env.owner? name id = none) (v : Value) :
    env.set? id name v = none := by
  rw [set?_eq_owner?, h]
  rfl

theorem exists_set?_iff (v : Value) :
    (∃ later, env.set? id name v = some later) ↔ ∃ owner, env.owner? name id = some owner := by
  constructor
  · intro h
    cases howner : env.owner? name id with
    | none =>
      rw [set?_of_no_owner howner] at h
      exact absurd h (by simp)
    | some owner => exact ⟨owner, rfl⟩
  · intro h
    obtain ⟨owner, howner⟩ := h
    obtain ⟨later, hset, _⟩ := set?_of_owner? howner v
    exact ⟨later, hset⟩

theorem assign_eq_ok_iff : env.assign id name v = .ok later ↔ env.set? id name v = some later := by
  rw [assign]
  cases env.set? id name v <;> simp

/-- After an assignment, the new value is seen from the frames with the same owner of the name. -/
theorem get?_of_set? (hparents : env.ParentsOlder) (h : env.set? id name v = some later)
    {g : FrameId} (hg : g < env.size) (other : String) : later.get? g other =
      if other = name ∧ env.owner? name g = env.owner? name id then some v
      else env.get? g other := by
  obtain ⟨owner, howner⟩ := (exists_set?_iff v).1 ⟨later, h⟩
  obtain ⟨later', hset, hupdates⟩ := set?_of_owner? howner v
  obtain rfl : later' = later := Option.some.inj (hset.symm.trans h)
  obtain ⟨ids, hwalk, hsearch⟩ := hparents.searchable g hg
  -- the owner binds the name, so it is exposed on a chain exactly when the chain leads to it
  have hexposed := exposed_iff_find? (bindsAt_of_owner? howner) ids
  rw [← hsearch, ← howner] at hexposed
  obtain ⟨hnew, hold⟩ := hupdates.shows hparents hwalk other
  rw [hexposed] at hnew hold
  split
  · next hsees => exact hnew hsees
  · next hsees => exact hold hsees

/-- A new frame binds its one name and sees all others as the frame around it does. -/
theorem get?_extend (hparents : env.ParentsOlder) (hid : id < env.size) (name : String) (v : Value)
    (other : String) : (env.extend id name v).2.get? env.size other =
      if other = name then some v else env.get? id other := by
  have hframe : (env.extend id name v).2.frames[env.size]? = some ⟨[(name, v)], some id⟩ := by
    rw [frames_extend, if_pos rfl]
  obtain ⟨ids, hwalk⟩ := hparents.exists_walk id hid
  rw [get?_of_parent hframe rfl hid, (Extends.extend env id name v).get?_eq hparents hwalk,
    Frame.find?, List.lookup_cons]
  by_cases hname : other = name
  · simp [hname]
  · have hkey : (other == name) = false := beq_eq_false_iff_ne.2 hname
    simp [hname, hkey]

/-- All operations resolve a name alike. In every environment whose parents are older frames, the
owner of a name, seen from a live frame, is the first frame on the chain of that frame which binds
the name. The name has the owner's value, and looking for it or setting it succeeds exactly when
there is an owner. Setting it changes what is seen of this name from the frames with the same owner,
and nothing else. A definition is refused exactly when the frame itself binds the name; otherwise
the new value is seen from the frames on whose chain the frame stands before any other that binds
the name, and nothing else changes. A new frame sees its own name and, apart from that, what the
frame around it sees; older frames see what they saw. -/
theorem scopes_are_resolved_alike {env : Environment} (hparents : env.ParentsOlder) :
    (∀ f < env.size, ∃ ids, env.Walk f ids ∧
      ∀ n, env.owner? n f = ids.find? (env.bindsAt n)) ∧
    ∀ f < env.size, ∀ (n : String) (v : Value),
      (∀ w, env.get? f n = some w ↔ ∃ o frame, env.owner? n f = some o ∧
        env.frames[o]? = some frame ∧ frame.find? n = some w) ∧
      (env.contains f n = true ↔ ∃ o, env.owner? n f = some o) ∧
      ((∃ later, env.set? f n v = some later) ↔ ∃ o, env.owner? n f = some o) ∧
      (∀ later, env.assign f n v = .ok later ↔ env.set? f n v = some later) ∧
      (∀ later, env.set? f n v = some later → ∀ g < env.size, ∀ m, later.get? g m =
        if m = n ∧ env.owner? n g = env.owner? n f then some v else env.get? g m) ∧
      (env.define f n v = .error (.redefinition n) ↔ env.bindsAt n f = true) ∧
      (env.bindsAt n f = false → ∃ later, env.define f n v = .ok later ∧
        ∀ g m ids, env.Walk g ids →
          (m = n ∧ env.Exposed n f ids → later.get? g m = some v) ∧
          (¬ (m = n ∧ env.Exposed n f ids) → later.get? g m = env.get? g m)) ∧
      ∀ c later, env.extend f n v = (c, later) →
        (∀ m, later.get? c m = if m = n then some v else env.get? f m) ∧
        ∀ g < env.size, ∀ m, later.get? g m = env.get? g m := by
  refine ⟨hparents.searchable, fun f hf n v => ⟨fun w => get?_eq_some_iff, contains_iff,
    exists_set?_iff v, fun later => assign_eq_ok_iff, fun later hset g hg m => ?_, ?_, ?_, ?_⟩⟩
  · exact get?_of_set? hparents hset hg m
  · refine ⟨fun h => ?_, fun h => define_of_bound h v⟩
    cases hbinds : env.bindsAt n f with
    | true => rfl
    | false =>
      obtain ⟨later, hdefine, _⟩ := define_of_free hf hbinds v
      rw [hdefine] at h
      cases h
  · intro hfree
    obtain ⟨later, hdefine, hupdates⟩ := define_of_free hf hfree v
    exact ⟨later, hdefine, fun g m ids hwalk => hupdates.shows hparents hwalk m⟩
  · intro c later hextend
    cases hextend
    refine ⟨get?_extend hparents hf n v, fun g hg m => ?_⟩
    obtain ⟨ids, hwalk⟩ := hparents.exists_walk g hg
    exact (Extends.extend env f n v).get?_eq hparents hwalk m

/-- A name bound in a frame beside the one where it is set: the binding there hides the change. -/
theorem scopes_are_resolved_alike_beside_hidden_name :
    let one := Value.num (.ofNat 1)
    let env := ((withPrimitives.extend 0 "+" one).2.extend 0 "x" one).2
    env.ParentsOlder ∧ 2 < env.size ∧ ∃ later, env.set? 2 "+" (.bool true) = some later ∧
      later.get? 0 "+" = some (.bool true) ∧ later.get? 2 "+" = some (.bool true) ∧
      later.get? 1 "+" = some one := by
  intro one env
  have hparents : env.ParentsOlder := by
    have hinner := WellFormed.withPrimitives.extend Nat.one_pos "+" (v := one) trivial
    exact (hinner.extend (by decide) "x" (v := one) trivial).parentsOlder
  have howner : env.owner? "+" 2 = some 0 := by decide +kernel
  have hglobal : env.owner? "+" 0 = some 0 := by decide +kernel
  have hhidden : env.owner? "+" 1 = some 1 := by decide +kernel
  have hsize : 2 < env.size := by decide
  obtain ⟨_, hset, _, hsees, _⟩ :=
    ((scopes_are_resolved_alike hparents).2 2 hsize "+" (.bool true)).2
  obtain ⟨later, hlater⟩ := hset.2 ⟨0, howner⟩
  refine ⟨hparents, hsize, later, hlater, ?_, ?_, ?_⟩
  · rw [hsees later hlater 0 (by decide), if_pos ⟨rfl, hglobal.trans howner.symm⟩]
  · rw [hsees later hlater 2 hsize, if_pos ⟨rfl, rfl⟩]
  · rw [hsees later hlater 1 (by decide), hhidden, howner, if_neg (by decide)]
    have hframe : env.frames[1]? = some ⟨[("+", one)], some 0⟩ := rfl
    rw [get?_of_frame hframe]
    rfl

end CellLang.Environment
