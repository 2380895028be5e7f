import CellLang.Proofs.History

/-!
# Disciplines

A discipline describes the sound histories of a run, the values that may be held in them, the frames
that code may run in and the errors that may come up. The laws ask of a discipline only what each
single action does: a name is looked up, cells are allocated, a pointer moves, a call enters and
leaves its frame. From them it follows once, for all disciplines, that every evaluation from a sound
history ends in a sound one, and that every run does.
-/

namespace CellLang

/-- Neither a closure nor a pointer. -/
def Value.isPlain : Value → Bool
  | .closure _ | .pointer _ => false
  | _ => true

theorem Value.isClosure_of_isPlain {v : Value} (h : v.isPlain = true) : v.isClosure = false := by
  cases v with
  | closure _ | pointer _ => cases h
  | num _ | bool _ | prim _ | keyword _ => rfl

/-- Faults that do not come from the store. -/
def Fault.isPlain : Fault → Bool
  | .outOfBounds _ | .uninitializedRead _ | .uninitializedWrite _ | .capacityExceeded _
  | .storeFull | .unknownOperator _ | .invalidAllocationSize _ => false
  | _ => true

/-- The computation fails with a plain fault only, and what it returns satisfies `good`. -/
def FailsPlainly {α : Type} (good : α → Prop) : Except Fault α → Prop
  | .ok a => good a
  | .error f => f.isPlain = true

theorem FailsPlainly.bind {α β : Type} {good : α → Prop} {fine : β → Prop} {x : Except Fault α}
    {f : α → Except Fault β} (hx : FailsPlainly good x)
    (hf : ∀ a, good a → FailsPlainly fine (f a)) : FailsPlainly fine (x >>= f) := by
  cases x with
  | error e => exact hx
  | ok a => exact hf a hx

namespace Primitive

theorem two_plain (p : Primitive) (args : List Value) :
    FailsPlainly (fun _ => True) (p.two args) := by
  unfold two
  split
  · trivial
  · rfl

theorem twoNumbers_plain (p : Primitive) (args : List Value) :
    FailsPlainly (fun _ => True) (p.twoNumbers args) := by
  refine (two_plain p args).bind fun ⟨a, b⟩ _ => ?_
  cases a <;> cases b <;> trivial

theorem twoBooleans_plain (p : Primitive) (args : List Value) :
    FailsPlainly (fun _ => True) (p.twoBooleans args) := by
  refine (two_plain p args).bind fun ⟨a, b⟩ _ => ?_
  cases a <;> cases b <;> trivial

theorem divide_plain (args : List Value) :
    FailsPlainly (fun v => v.isPlain = true) (divide args) := by
  refine (twoNumbers_plain .div args).bind fun ⟨a, b⟩ _ => ?_
  change FailsPlainly _ (if b.isZero then .error .divisionByZero else .ok (Value.num (a.div b)))
  split <;> rfl

theorem equality_plain (args : List Value) :
    FailsPlainly (fun v => v.isPlain = true) (equality args) := by
  refine (two_plain .eq args).bind fun ⟨a, b⟩ _ => ?_
  cases a <;> cases b <;> rfl

theorem negation_plain (args : List Value) :
    FailsPlainly (fun v => v.isPlain = true) (negation args) := by
  unfold negation
  split <;> rfl

/-- A primitive returns a plain value, or fails for the number or the types of its arguments or for
a division by zero. -/
theorem call_plain (p : Primitive) (args : List Value) :
    FailsPlainly (fun v => v.isPlain = true) (p.call args) := by
  cases p with
  | add | sub | mul => exact (twoNumbers_plain _ args).bind fun _ _ => rfl
  | lt | le | gt | ge => exact (twoNumbers_plain _ args).bind fun _ _ => rfl
  | and | or => exact (twoBooleans_plain _ args).bind fun _ _ => rfl
  | div => exact divide_plain args
  | eq => exact equality_plain args
  | not => exact negation_plain args

end Primitive

/-- The expressions that evaluation of this one may evaluate in the same frame. -/
def Expr.parts : Expr → List Expr
  | .app head args => head :: args
  | .cond guard thenBranch elseBranch => [guard, thenBranch, elseBranch]
  | .new type _ => [type]
  | .deref target => [target]
  | .move _ pointer offset => [pointer, offset]
  | _ => []

/-- The cells handed out by one evaluation of `new`. -/
structure Allocation where
  size : Nat
  bounds : Bounds

/-- The allocation made by a moment, if it is a `new` that succeeded. -/
def Moment.allocation? (x : Moment) : Option Allocation :=
  match x.expr, x.outcome with
  | .new _ size, .ok (.pointer p) => some ⟨size, p.bounds⟩
  | _, _ => none

theorem Store.read_plain (s : Store) {index : Nat} {v : Value} (hread : s.read index = .ok v) :
    v.isPlain = true := by
  unfold Store.read at hread
  split at hread
  · cases hread
  · next cell _ => cases cell <;> cases hread <;> rfl

namespace History

def note (h : History) (x : Moment) : History := ⟨h.past ++ [x], h.now⟩

def enter (h : History) (c : Closure) (arg : Value) : History := ⟨h.past, h.now.enter c arg⟩

/-- Drops the frames from position `mark` on. -/
def leave (h : History) (mark : Nat) : History :=
  ⟨h.past, { h.now with env := h.now.env.release mark }⟩

def withEnv (h : History) (env : Environment) : History := ⟨h.past, { h.now with env }⟩

def withStore (h : History) (store : Store) : History := ⟨h.past, { h.now with store }⟩

end History

/-- The expressions that a statement evaluates. -/
def Stmt.exprs : Stmt → List Expr
  | .define _ expr => [expr]
  | .assign location expr => [location, expr]
  | .print expr => [expr]

/-- The expressions that a request evaluates. -/
def Request.exprs : Request → List Expr
  | .program p => p.stmts.flatMap Stmt.exprs
  | .stmt s => s.exprs
  | .expr e => [e]
  | .reset => []

/-- The error of a reply, if it reports one. -/
def Reply.error? : Reply → Option RuntimeError
  | .lines (.error e) | .value (.error e) => some e
  | _ => none

theorem Reply.error?_eq_some {reply : Reply} {e : RuntimeError} (h : reply.error? = some e) :
    reply = .lines (.error e) ∨ reply = .value (.error e) := by
  unfold Reply.error? at h
  split at h
  · exact .inl (by rw [Option.some.inj h])
  · exact .inr (by rw [Option.some.inj h])
  · cases h

structure Discipline where
  /-- Code that may be run. -/
  Code : Expr → Prop
  Sound : History → Prop
  /-- Frames that code may run in. -/
  Sees : History → FrameId → Prop
  /-- Values that may be held. -/
  Fits : History → Value → Prop
  /-- Errors that may come up. -/
  Allows : RuntimeError → Prop
  /-- How a history may go on while values are held. -/
  Later : History → History → Prop

namespace Discipline

/-- An evaluation may start here. -/
structure Ready (D : Discipline) (h : History) (frame : FrameId) (held : List Value) : Prop where
  sound : D.Sound h
  sees : D.Sees h frame
  fits : ∀ v ∈ held, D.Fits h v

/-- What the actions of evaluation must keep. A law with a default is one that holds by itself where
the discipline asks nothing: nothing of frames, values or code, or no error excluded. -/
structure Lawful (D : Discipline) : Prop where
  refl : ∀ h, D.Later h h
  trans : ∀ {h i j}, D.Later h i → D.Later i j → D.Later h j
  sees_later : ∀ {h i frame}, D.Later h i → D.Sees h frame → D.Sees i frame := by
    intros; trivial
  fits_later : ∀ {h i v}, D.Later h i → D.Fits h v → D.Fits i v := by intros; trivial
  code_part : ∀ {e part}, D.Code e → part ∈ e.parts → D.Code part := by intros; trivial
  fits_plain : ∀ {h v}, v.isPlain = true → D.Fits h v := by intros; trivial
  fits_lookup : ∀ {h frame name v}, D.Sound h → D.Sees h frame →
    h.now.env.get? frame name = some v → D.Fits h v := by intros; trivial
  fits_lambda : ∀ {h frame param body}, D.Sees h frame → D.Code (.lambda param body) →
    D.Fits h (.closure ⟨param, body, frame⟩) := by intros; trivial
  fits_move : ∀ {h p q op x}, D.Fits h (.pointer p) →
    p.offset op x h.now.store.capacity = .ok q → D.Fits h (.pointer q) := by intros; trivial
  note : ∀ {h i frame held e outcome}, D.Ready h frame held → D.Sound i → D.Later h i →
    (∀ v, outcome = .ok v → D.Fits i v) →
    Moment.allocation? ⟨frame, e, held, h.now, outcome, i.now⟩ = none →
    D.Sound (i.note ⟨frame, e, held, h.now, outcome, i.now⟩) ∧
      D.Later i (i.note ⟨frame, e, held, h.now, outcome, i.now⟩)
  allocate : ∀ {h i frame held size b} (type : Expr) (cell : CellType), D.Ready h frame held →
    D.Sound i → D.Later h i → i.now.store.allocate size = .ok b →
    let j := i.withStore (i.now.store.fill b (.zero cell))
    let x : Moment := ⟨frame, .new type size, held, h.now, .ok (.pointer (.atStart b)), j.now⟩
    D.Sound (j.note x) ∧ D.Later i (j.note x) ∧ D.Fits (j.note x) (.pointer (.atStart b))
  enter : ∀ {h c arg}, D.Sound h → D.Fits h (.closure c) → D.Fits h arg →
    D.Sound (h.enter c arg) ∧ D.Sees (h.enter c arg) h.now.env.size ∧ D.Code c.body
  later_enter : ∀ {h c arg}, D.Later h (h.enter c arg)
  leave : ∀ {h i c arg}, D.Sound h → D.Later (h.enter c arg) i → D.Sound i →
    D.Sound (i.leave h.now.env.size) ∧ D.Later h (i.leave h.now.env.size)
  fits_leave : ∀ {h mark v}, v.isClosure = false → D.Fits h v → D.Fits (h.leave mark) v := by
    intros; trivial
  allows_plain : ∀ {f}, f.isPlain = true → D.Allows (.of f) := by intros; trivial
  allows_allocate : ∀ {s : Store} {type size f}, D.Code (.new type size) →
    s.allocate size = .error f → D.Allows (.of f) := by intros; trivial
  allows_access : ∀ {h p target f}, D.Sound h → D.Fits h (.pointer p) →
    p.checked = .error f → D.Allows (.inExpr (.deref target) f) := by intros; trivial
  allows_read : ∀ {h p index f}, D.Sound h → D.Fits h (.pointer p) → p.checked = .ok index →
    h.now.store.read index = .error f → D.Allows (.of f) := by intros; trivial
  allows_move : ∀ {p op x capacity pointer offset f}, Pointer.offset p op x capacity = .error f →
    D.Allows (.inExpr (.move op pointer offset) f) := by intros; trivial

/-- The computation ends in a sound history, and its error is an allowed one. -/
structure Keeps (D : Discipline) {α : Type} (x : Traced α) (h : History) : Prop where
  sound : D.Sound (x.advance h).2
  error : ∀ e, (x.advance h).1 = .error e → D.Allows e

/-- The history the computation ends in is also a later one, and its value satisfies `post`. -/
structure Upholds (D : Discipline) {α : Type} (x : Traced α) (h : History)
    (post : α → History → Prop) : Prop extends D.Keeps x h where
  later : D.Later h (x.advance h).2
  value : ∀ a, (x.advance h).1 = .ok a → post a (x.advance h).2

theorem advance_bind {α β : Type} (x : Traced α) (f : α → Traced β) (h : History) :
    (x >>= f).advance h = match x.advance h with
      | (.ok a, i) => (f a).advance i
      | (.error e, i) => (.error e, i) := by
  unfold Traced.advance
  rw [Traced.bind_apply]
  rcases x h.now with ⟨_ | a, m, early⟩
  · rfl
  · simp only [List.append_assoc]

theorem advance_recorded (frame : FrameId) (held : List Value) (e : Expr) (x : Traced Value)
    (h : History) : (Traced.recorded frame held e x).advance h =
      ((x.advance h).1, (x.advance h).2.note
        ⟨frame, e, held, h.now, (x.advance h).1, (x.advance h).2.now⟩) := by
  simp only [Traced.advance, Traced.recorded, History.note, List.append_assoc]

theorem advance_ofEval {α : Type} (x : Eval α) (h : History) :
    (Traced.ofEval x).advance h = ((x h.now).1, ⟨h.past, (x h.now).2⟩) := by
  simp only [Traced.advance, Traced.ofEval, List.append_nil]

theorem advance_pure {α : Type} (a : α) (h : History) :
    (pure a : Traced α).advance h = (.ok a, h) := by
  change (Except.ok a, (⟨h.past ++ [], h.now⟩ : History)) = _
  rw [List.append_nil]

variable {D : Discipline} {α β : Type}

/-! ## Composing computations -/

namespace Keeps

theorem of_ok {x : Traced α} {a : α} {h i : History} (hrun : x.advance h = (.ok a, i))
    (hsound : D.Sound i) : D.Keeps x h :=
  ⟨by rw [hrun]; exact hsound, by rw [hrun]; rintro _ ⟨⟩⟩

theorem of_error {x : Traced α} {e : RuntimeError} {h i : History}
    (hrun : x.advance h = (.error e, i)) (hsound : D.Sound i) (hallows : D.Allows e) :
    D.Keeps x h :=
  ⟨by rw [hrun]; exact hsound, by rw [hrun]; rintro _ ⟨⟩; exact hallows⟩

theorem bind {x : ReaderT (List Value) Traced α} {f : α → ReaderT (List Value) Traced β}
    {held : List Value} {h : History} (hx : D.Keeps (x held) h)
    (hf : ∀ a i, (x held).advance h = (.ok a, i) → D.Sound i → D.Keeps (f a held) i) :
    D.Keeps ((x >>= f) held) h := by
  obtain ⟨hsound, herror⟩ := hx
  have hbind : ((x >>= f) held).advance h = _ := advance_bind (x held) (f · held) h
  rcases hrun : (x held).advance h with ⟨e | a, i⟩
  · rw [hrun] at hbind hsound herror
    exact of_error hbind hsound (herror e rfl)
  · rw [hrun] at hbind hsound
    have hnext := hf a i hrun hsound
    exact ⟨by rw [hbind]; exact hnext.sound, by rw [hbind]; exact hnext.error⟩

end Keeps

namespace Upholds

theorem of_ok {x : Traced α} {a : α} {h i : History} {post : α → History → Prop}
    (hrun : x.advance h = (.ok a, i)) (hsound : D.Sound i) (hlater : D.Later h i)
    (hpost : post a i) : D.Upholds x h post := by
  refine ⟨.of_ok hrun hsound, ?_, ?_⟩
  · rw [hrun]; exact hlater
  · rw [hrun]; rintro _ ⟨⟩; exact hpost

theorem of_error {x : Traced α} {e : RuntimeError} {h i : History} {post : α → History → Prop}
    (hrun : x.advance h = (.error e, i)) (hsound : D.Sound i) (hlater : D.Later h i)
    (hallows : D.Allows e) : D.Upholds x h post := by
  refine ⟨.of_error hrun hsound hallows, ?_, ?_⟩
  · rw [hrun]; exact hlater
  · rw [hrun]; rintro _ ⟨⟩

theorem of_run {x : Traced α} {a : α} {h i : History} {post : α → History → Prop}
    (hx : D.Upholds x h post) (hrun : x.advance h = (.ok a, i)) :
    D.Sound i ∧ D.Later h i ∧ post a i := by
  obtain ⟨⟨hsound, _⟩, hlater, hvalue⟩ := hx
  rw [hrun] at hsound hlater hvalue
  exact ⟨hsound, hlater, hvalue a rfl⟩

theorem bind {x : ReaderT (List Value) Traced α} {f : α → ReaderT (List Value) Traced β}
    {held : List Value} {h : History} {mid : α → History → Prop} {post : β → History → Prop}
    (hD : D.Lawful) (hx : D.Upholds (x held) h mid)
    (hf : ∀ a i, D.Sound i → D.Later h i → mid a i → D.Upholds (f a held) i post) :
    D.Upholds ((x >>= f) held) h post := by
  obtain ⟨⟨hsound, herror⟩, hlater, hvalue⟩ := hx
  have hbind : ((x >>= f) held).advance h = _ := advance_bind (x held) (f · held) h
  rcases hrun : (x held).advance h with ⟨e | a, i⟩
  · rw [hrun] at hbind hsound hlater herror
    exact of_error hbind hsound hlater (herror e rfl)
  · rw [hrun] at hbind hsound hlater hvalue
    have hnext := hf a i hsound hlater (hvalue a rfl)
    refine ⟨⟨?_, ?_⟩, ?_, ?_⟩
    · rw [hbind]; exact hnext.sound
    · rw [hbind]; exact hnext.error
    · rw [hbind]; exact hD.trans hlater hnext.later
    · rw [hbind]; exact hnext.value

theorem pure {a : α} {h : History} {post : α → History → Prop} (hD : D.Lawful)
    (hsound : D.Sound h) (hpost : post a h) : D.Upholds (pure a) h post :=
  of_ok (advance_pure a h) hsound (hD.refl h) hpost

theorem returns {x : Eval α} {a : α} {h : History} {post : α → History → Prop} (hD : D.Lawful)
    (hsound : D.Sound h) (hrun : x h.now = (.ok a, h.now)) (hpost : post a h) :
    D.Upholds (Traced.ofEval x) h post :=
  of_ok (by rw [advance_ofEval, hrun]) hsound (hD.refl h) hpost

theorem fails {x : Eval α} {e : RuntimeError} {h : History} {post : α → History → Prop}
    (hD : D.Lawful) (hsound : D.Sound h) (hrun : x h.now = (.error e, h.now))
    (hallows : D.Allows e) : D.Upholds (Traced.ofEval x) h post :=
  of_error (by rw [advance_ofEval, hrun]) hsound (hD.refl h) hallows

theorem fault {f : Fault} {h : History} {post : α → History → Prop} (hD : D.Lawful)
    (hsound : D.Sound h) (hf : f.isPlain = true) :
    D.Upholds (Traced.ofEval (Eval.fault f)) h post :=
  fails hD hsound rfl (hD.allows_plain hf)

/-- Recording an evaluation that is no successful allocation. -/
theorem recorded {call : TracedCaller} {frame : FrameId} {held : List Value} {e : Expr}
    {x : ReaderT (List Value) Traced Value} {h : History} (hD : D.Lawful)
    (hready : D.Ready h frame held) (hx : D.Upholds (x held) h fun v i => D.Fits i v)
    (hnone : Moment.allocation?
      ⟨frame, e, held, h.now, ((x held).advance h).1, ((x held).advance h).2.now⟩ = none) :
    D.Upholds ((Interpretation.tracing call).evaluation frame e x held) h
      fun v i => D.Fits i v := by
  obtain ⟨hsound, hlater⟩ := hD.note hready hx.sound hx.later hx.value hnone
  have hadvance : ((Interpretation.tracing call).evaluation frame e x held).advance h = _ :=
    advance_recorded frame held e (x held) h
  refine ⟨⟨?_, ?_⟩, ?_, ?_⟩
  · rw [hadvance]; exact hsound
  · rw [hadvance]; exact hx.error
  · rw [hadvance]; exact hD.trans hx.later hlater
  · rw [hadvance]
    intro v hv
    exact hD.fits_later hlater (hx.value v hv)

end Upholds

namespace Ready

theorem later {h i : History} {frame : FrameId} {held : List Value} (hD : D.Lawful)
    (hready : D.Ready h frame held) (hsound : D.Sound i) (hlater : D.Later h i) :
    D.Ready i frame held :=
  ⟨hsound, hD.sees_later hlater hready.sees,
    fun v hv => hD.fits_later hlater (hready.fits v hv)⟩

theorem hold {h : History} {frame : FrameId} {held : List Value} {v : Value}
    (hready : D.Ready h frame held) (hv : D.Fits h v) : D.Ready h frame (v :: held) :=
  ⟨hready.sound, hready.sees, fun w hw => (List.mem_cons.1 hw).elim (fun heq => heq ▸ hv)
    (hready.fits w)⟩

end Ready

/-! ## Evaluation -/

/-- Calls uphold the discipline. -/
def Calls (D : Discipline) (call : TracedCaller) : Prop :=
  ∀ {h : History} {held : List Value} {c : Closure} {arg : Value}, D.Sound h →
    (∀ v ∈ held, D.Fits h v) → D.Fits h (.closure c) → D.Fits h arg →
    D.Upholds (call held c arg) h fun v i => D.Fits i v

/-- Evaluating the expression upholds the discipline wherever it may start. -/
def Evaluates (D : Discipline) (call : TracedCaller) (e : Expr) : Prop :=
  D.Code e → ∀ {h : History} {frame : FrameId} {held : List Value}, D.Ready h frame held →
    D.Upholds (e.traceWith call frame held) h fun v i => D.Fits i v

variable {call : TracedCaller}

theorem upholds_apply (hD : D.Lawful) (hcall : D.Calls call) {h : History} {held : List Value}
    {callee : Value} {args : List Value} (hsound : D.Sound h)
    (hheld : ∀ v ∈ held, D.Fits h v) (hcallee : D.Fits h callee)
    (hargs : ∀ v ∈ args, D.Fits h v) :
    D.Upholds (callee.traceApplyWith call held args) h fun v i => D.Fits i v := by
  cases callee with
  | closure c =>
    match args with
    | [] => exact .fault hD hsound rfl
    | [arg] => exact hcall hsound hheld hcallee (hargs arg List.mem_cons_self)
    | _ :: _ :: _ => exact .fault hD hsound rfl
  | prim p =>
    have hplain := p.call_plain args
    change D.Upholds (Traced.ofEval (Eval.lift (p.call args))) h _
    cases hp : p.call args with
    | error f => rw [hp] at hplain; exact .fault hD hsound hplain
    | ok v => rw [hp] at hplain; exact .pure hD hsound (hD.fits_plain hplain)
  | num _ => exact .fault hD hsound rfl
  | bool _ => exact .fault hD hsound rfl
  | pointer _ => exact .fault hD hsound rfl
  | keyword _ => exact .fault hD hsound rfl

theorem upholds_all (hD : D.Lawful) (es : List Expr) (hes : ∀ e ∈ es, D.Evaluates call e)
    (hcode : ∀ e ∈ es, D.Code e) {h : History} {frame : FrameId} {held : List Value}
    (hready : D.Ready h frame held) :
    D.Upholds (Expr.traceAllWith call frame held es) h fun vs i => ∀ v ∈ vs, D.Fits i v := by
  induction es generalizing h held with
  | nil => exact .pure hD hready.sound fun v hv => absurd hv List.not_mem_nil
  | cons e es ih =>
    have hhead := hes e List.mem_cons_self (hcode e List.mem_cons_self) hready
    refine .bind hD hhead fun v i hsound hlater hv => ?_
    have hrest := ih (fun e' he' => hes e' (List.mem_cons_of_mem _ he'))
      (fun e' he' => hcode e' (List.mem_cons_of_mem _ he'))
      ((hready.later hD hsound hlater).hold hv)
    refine .bind hD hrest fun vs j hsound' hlater' hvs => ?_
    refine .pure hD hsound' fun w hw => ?_
    rcases List.mem_cons.1 hw with rfl | hw
    · exact hD.fits_later hlater' hv
    · exact hvs w hw

/-- Dereferencing a pointer reads its cell. -/
theorem derefValue_pointer (target : Expr) (p : Pointer) (m : Machine) :
    Expr.derefValue target (.pointer p) m =
      match p.checked with
      | .ok index => Eval.lift (m.store.read index) m
      | .error f => (.error (.inExpr (.deref target) f), m) := by
  cases hindex : p.checked <;> simp only [Expr.derefValue, hindex] <;> rfl

theorem upholds_deref (hD : D.Lawful) {h : History} {target : Expr} {v : Value}
    (hsound : D.Sound h) (hv : D.Fits h v) :
    D.Upholds (Traced.ofEval (Expr.derefValue target v)) h fun v i => D.Fits i v := by
  cases v with
  | pointer p =>
    have hrun := derefValue_pointer target p h.now
    cases hindex : p.checked with
    | error f =>
      rw [hindex] at hrun
      exact .fails hD hsound hrun (hD.allows_access hsound hv hindex)
    | ok index =>
      simp only [hindex] at hrun
      cases hread : h.now.store.read index with
      | error f =>
        rw [hread] at hrun
        exact .fails hD hsound hrun (hD.allows_read hsound hv hindex hread)
      | ok w =>
        rw [hread] at hrun
        exact .returns hD hsound hrun (hD.fits_plain (h.now.store.read_plain hread))
  | closure _ => exact .fault hD hsound rfl
  | num _ => exact .fault hD hsound rfl
  | bool _ => exact .fault hD hsound rfl
  | prim _ => exact .fault hD hsound rfl
  | keyword _ => exact .fault hD hsound rfl

theorem upholds_move (hD : D.Lawful) {h : History} {op : Operator} {pointer offset : Expr}
    {base amount : Value} (hsound : D.Sound h) (hbase : D.Fits h base) :
    D.Upholds (Traced.ofEval (Expr.moveValue (.move op pointer offset) op base amount)) h
      fun v i => D.Fits i v := by
  cases base with
  | pointer p =>
    cases amount with
    | num x =>
      cases hmove : p.offset op x h.now.store.capacity with
      | error f =>
        have hrun : Expr.moveValue (.move op pointer offset) op (.pointer p) (.num x) h.now =
            (.error (.inExpr (.move op pointer offset) f), h.now) := by
          simp only [Expr.moveValue, Eval.bind_apply, Eval.store, hmove]; rfl
        exact .fails hD hsound hrun (hD.allows_move hmove)
      | ok q =>
        have hrun : Expr.moveValue (.move op pointer offset) op (.pointer p) (.num x) h.now =
            (.ok (.pointer q), h.now) := by
          simp only [Expr.moveValue, Eval.bind_apply, Eval.store, hmove]; rfl
        exact .returns hD hsound hrun (hD.fits_move hbase hmove)
    | closure _ => exact .fault hD hsound rfl
    | bool _ => exact .fault hD hsound rfl
    | prim _ => exact .fault hD hsound rfl
    | pointer _ => exact .fault hD hsound rfl
    | keyword _ => exact .fault hD hsound rfl
  | closure _ => exact .fault hD hsound rfl
  | num _ => exact .fault hD hsound rfl
  | bool _ => exact .fault hD hsound rfl
  | prim _ => exact .fault hD hsound rfl
  | keyword _ => exact .fault hD hsound rfl

/-- An allocation and its record are one action: the pointer is known to the past as soon as it is
returned. -/
theorem upholds_new (hD : D.Lawful) {type : Expr} {size : Nat} (htype : D.Evaluates call type)
    (hcode : D.Code (.new type size)) {h : History} {frame : FrameId} {held : List Value}
    (hready : D.Ready h frame held) :
    D.Upholds ((Expr.new type size).traceWith call frame held) h fun v i => D.Fits i v := by
  obtain ⟨⟨hsound, herror⟩, hlater, _⟩ :=
    htype (hD.code_part hcode List.mem_cons_self) hready
  let body : ReaderT (List Value) Traced Value := do
    let value ← type.evalIn (.tracing call) frame
    (Interpretation.tracing call).act (Expr.newValue size value)
  change D.Upholds ((Interpretation.tracing call).evaluation frame (.new type size) body held) h _
  have hbody : (body held).advance h = _ := advance_bind (type.traceWith call frame held)
    (fun value => .ofEval (Expr.newValue size value)) h
  rcases hrun : (type.traceWith call frame held).advance h with ⟨e | v, i⟩
  · rw [hrun] at hbody hsound hlater herror
    exact .recorded hD hready (.of_error hbody hsound hlater (herror e rfl)) (by rw [hbody]; rfl)
  · rw [hrun] at hbody hsound hlater
    cases v with
    | keyword t =>
      replace hbody := hbody.trans (advance_ofEval (Eval.allocate t size) i)
      rw [Eval.allocate] at hbody
      cases hb : i.now.store.allocate size with
      | error f =>
        rw [hb] at hbody
        exact .recorded hD hready
          (.of_error hbody hsound hlater (hD.allows_allocate hcode hb)) (by rw [hbody]; rfl)
      | ok b =>
        rw [hb] at hbody
        obtain ⟨hsound', hlater', hfits⟩ :=
          hD.allocate type t hready hsound hlater hb
        have hadvance := advance_recorded frame held (.new type size) (body held) h
        rw [hbody] at hadvance
        exact .of_ok hadvance hsound' (hD.trans hlater hlater') hfits
    | closure _ | num _ | bool _ | prim _ | pointer _ =>
      replace hbody := hbody.trans (advance_ofEval (Eval.fault _) i)
      exact .recorded hD hready
        (.of_error hbody hsound hlater (hD.allows_plain rfl)) (by rw [hbody]; rfl)

/-- Every expression upholds a discipline that its calls uphold. -/
theorem upholds_traceWith (hD : D.Lawful) (hcall : D.Calls call) (e : Expr) :
    D.Evaluates call e := by
  induction e using Expr.inductOn with
  | var name =>
    intro _ h frame held hready
    refine .recorded hD hready ?_ rfl
    have henv : D.Upholds ((Interpretation.tracing call).act Eval.environment held) h
        fun env i => env = h.now.env ∧ i = h :=
      .returns (x := Eval.environment) hD hready.sound rfl ⟨rfl, rfl⟩
    refine .bind hD henv fun env i hsound _ heq => ?_
    obtain ⟨rfl, rfl⟩ := heq
    cases hget : i.now.env.get? frame name with
    | none =>
      have hrun : Eval.lift (i.now.env.lookup frame name) i.now =
          (.error (.of (.unboundVariable name)), i.now) := by
        simp only [Environment.lookup, hget]; rfl
      exact .fails hD hsound hrun (hD.allows_plain rfl)
    | some v =>
      have hrun : Eval.lift (i.now.env.lookup frame name) i.now = (.ok v, i.now) := by
        simp only [Environment.lookup, hget]; rfl
      exact .returns hD hsound hrun (hD.fits_lookup hsound hready.sees hget)
  | num x =>
    intro _ h frame held hready
    exact .recorded hD hready (.pure hD hready.sound (hD.fits_plain rfl)) rfl
  | bool b =>
    intro _ h frame held hready
    exact .recorded hD hready (.pure hD hready.sound (hD.fits_plain rfl)) rfl
  | keyword t =>
    intro _ h frame held hready
    exact .recorded hD hready (.pure hD hready.sound (hD.fits_plain rfl)) rfl
  | lambda param body _ =>
    intro hcode h frame held hready
    exact .recorded hD hready
      (.pure hD hready.sound (hD.fits_lambda hready.sees hcode)) rfl
  | app head args ihHead ihArgs =>
    intro hcode h frame held hready
    refine .recorded hD hready ?_ rfl
    have hhead := ihHead (hD.code_part hcode List.mem_cons_self) hready
    refine .bind hD hhead fun callee i hsound hlater hcallee => ?_
    have hready' := hready.later hD hsound hlater
    have hargs := upholds_all hD args ihArgs
      (fun a ha => hD.code_part hcode (List.mem_cons_of_mem _ ha)) (hready'.hold hcallee)
    refine .bind hD hargs fun values j hsound' hlater' hvalues => ?_
    exact upholds_apply hD hcall hsound' (hready'.later hD hsound' hlater').fits
      (hD.fits_later hlater' hcallee) hvalues
  | cond g t f ihGuard ihThen ihElse =>
    intro hcode h frame held hready
    refine .recorded hD hready ?_ rfl
    have hparts : D.Code g ∧ D.Code t ∧ D.Code f :=
      ⟨hD.code_part hcode (by simp [Expr.parts]), hD.code_part hcode (by simp [Expr.parts]),
        hD.code_part hcode (by simp [Expr.parts])⟩
    refine .bind hD (ihGuard hparts.1 hready) fun v i hsound hlater _ => ?_
    have hready' := hready.later hD hsound hlater
    split
    · exact ihThen hparts.2.1 hready'
    · exact ihElse hparts.2.2 hready'
    · exact .fault hD hsound rfl
  | new type size ihType =>
    intro hcode h frame held hready
    exact upholds_new hD ihType hcode hready
  | deref target ihTarget =>
    intro hcode h frame held hready
    refine .recorded hD hready ?_ rfl
    have htarget := ihTarget (hD.code_part hcode List.mem_cons_self) hready
    exact .bind hD htarget fun v i hsound _ hv => upholds_deref hD hsound hv
  | move op p o ihPointer ihOffset =>
    intro hcode h frame held hready
    refine .recorded hD hready ?_ rfl
    have hpointer := ihPointer (hD.code_part hcode List.mem_cons_self) hready
    refine .bind hD hpointer fun base i hsound hlater hbase => ?_
    have hoffset := ihOffset (hD.code_part hcode (by simp [Expr.parts]))
      ((hready.later hD hsound hlater).hold hbase)
    refine .bind hD hoffset fun amount j hsound' hlater' _ => ?_
    exact upholds_move hD hsound' (hD.fits_later hlater' hbase)

/-- Calls uphold every lawful discipline, however many of them may still be nested. -/
theorem calls_traceCallAt (hD : D.Lawful) (limit left : Nat) :
    D.Calls (traceCallAt limit left) := by
  induction left with
  | zero =>
    intro h held c arg hsound _ _ _
    exact .fault hD hsound rfl
  | succ left ih =>
    intro h held c arg hsound hheld hc harg
    obtain ⟨hsound', hsees, hcode⟩ := hD.enter hsound hc harg
    have hready : D.Ready (h.enter c arg) h.now.env.size (.closure c :: arg :: held) := by
      refine ⟨hsound', hsees, fun v hv => hD.fits_later hD.later_enter ?_⟩
      rcases List.mem_cons.1 hv with rfl | hv
      · exact hc
      rcases List.mem_cons.1 hv with rfl | hv
      · exact harg
      · exact hheld v hv
    obtain ⟨⟨hsoundEnd, herror⟩, hlaterEnd, hvalue⟩ := upholds_traceWith hD ih c.body hcode hready
    have hcall : (traceCallAt limit (left + 1) held c arg).advance h =
        (fun r => (r.1, ⟨r.2.past, r.2.now.settle h.now.env.size r.1⟩))
          ((c.body.traceWith (traceCallAt limit left) h.now.env.size
            (.closure c :: arg :: held)).advance (h.enter c arg)) := rfl
    rcases hrun : (c.body.traceWith (traceCallAt limit left) h.now.env.size
      (.closure c :: arg :: held)).advance (h.enter c arg) with ⟨e | v, i⟩
    · rw [hrun] at hcall hsoundEnd hlaterEnd herror
      obtain ⟨hleft, hlater⟩ := hD.leave hsound hlaterEnd hsoundEnd
      exact .of_error hcall hleft hlater (herror e rfl)
    · rw [hrun] at hcall hsoundEnd hlaterEnd hvalue
      cases hclosure : v.isClosure with
      | true =>
        simp only [Machine.settle_closure i.now h.now.env.size hclosure] at hcall
        exact .of_ok hcall hsoundEnd (hD.trans hD.later_enter hlaterEnd) (hvalue v rfl)
      | false =>
        simp only [Machine.settle_other i.now h.now.env.size hclosure] at hcall
        obtain ⟨hleft, hlater⟩ := hD.leave hsound hlaterEnd hsoundEnd
        exact .of_ok hcall hleft hlater (hD.fits_leave hclosure (hvalue v rfl))

/-! ## Runs -/

/-- What the actions of statements must keep as well. -/
structure Durable (D : Discipline) : Prop extends D.Lawful where
  fresh : ∀ capacity, D.Sound ⟨[], .fresh capacity⟩
  sees_global : ∀ {h}, D.Sound h → D.Sees h FrameId.global := by intros; trivial
  define : ∀ {h name v env}, D.Sound h → D.Fits h v →
    h.now.env.define FrameId.global name v = .ok env → D.Sound (h.withEnv env)
  assign : ∀ {h name v env}, D.Sound h → D.Fits h v →
    h.now.env.assign FrameId.global name v = .ok env → D.Sound (h.withEnv env)
  write : ∀ {h p index v store}, D.Sound h → D.Fits h (.pointer p) → p.checked = .ok index →
    h.now.store.write index v = .ok store → D.Sound (h.withStore store)
  allows_locate : ∀ {h p f}, D.Sound h → D.Fits h (.pointer p) → p.checked = .error f →
    D.Allows (.of f) := by intros; trivial
  allows_write : ∀ {h p index v f}, D.Sound h → D.Fits h (.pointer p) → p.checked = .ok index →
    h.now.store.write index v = .error f → D.Allows (.of f) := by intros; trivial

theorem upholds_trace (hD : D.Durable) {e : Expr} (hcode : D.Code e) (limit : Nat) {h : History}
    {held : List Value} (hsound : D.Sound h) (hheld : ∀ v ∈ held, D.Fits h v) :
    D.Upholds (e.trace limit held) h fun v i => D.Fits i v :=
  upholds_traceWith hD.toLawful (calls_traceCallAt hD.toLawful limit limit) e hcode
    ⟨hsound, hD.sees_global hsound, hheld⟩

/-- Both operands of an assignment fit when it is carried out. -/
theorem fits_operands (hD : D.Durable) {location e : Expr} (hlocation : D.Code location)
    (he : D.Code e) {limit : Nat} {h i j : History} {target value : Value} (hsound : D.Sound h)
    (hrun : (location.trace limit []).advance h = (.ok target, i))
    (hrun' : (e.trace limit [target]).advance i = (.ok value, j)) :
    D.Sound j ∧ D.Later h j ∧ D.Fits j target ∧ D.Fits j value := by
  obtain ⟨hsound', hlater, htarget⟩ := (upholds_trace hD hlocation limit hsound
    fun v hv => absurd hv List.not_mem_nil).of_run hrun
  obtain ⟨hsound'', hlater', hvalue⟩ := (upholds_trace hD he limit hsound'
    fun v hv => (List.mem_singleton.1 hv) ▸ htarget).of_run hrun'
  exact ⟨hsound'', hD.trans hlater hlater', hD.fits_later hlater' htarget, hvalue⟩

/-- Assigning to a pointer writes its cell. -/
theorem assignTo_pointer {location : Expr} {p : Pointer} {value : Value} {m : Machine} :
    Stmt.assignTo location (.pointer p) value m =
      match p.checked with
      | .ok index => Eval.putStore (m.store.write index value) m
      | .error f => (.error (.of f), m) := by
  cases hindex : p.checked <;> simp only [Stmt.assignTo, hindex] <;> rfl

/-- Assigning to any other value rebinds the variable that the location names. -/
theorem assignTo_other {location : Expr} {target value : Value} {m : Machine}
    (htarget : ∀ p, target ≠ .pointer p) :
    Stmt.assignTo location target value m =
      match location with
      | .var name => Eval.putEnvironment (m.env.assign FrameId.global name value) m
      | _ => (.error (.of (.invalidAssignTarget location.text)), m) := by
  cases target with
  | pointer p => exact absurd rfl (htarget p)
  | num _ | bool _ | closure _ | prim _ | keyword _ => cases location <;> rfl

theorem plain_of_define {env : Environment} {id : FrameId} {name : String} {v : Value} {f : Fault}
    (hdefine : env.define id name v = .error f) : f.isPlain = true := by
  unfold Environment.define at hdefine
  split at hdefine
  · split at hdefine <;> cases hdefine
    rfl
  · cases hdefine

theorem plain_of_assign {env : Environment} {id : FrameId} {name : String} {v : Value} {f : Fault}
    (hassign : env.assign id name v = .error f) : f.isPlain = true := by
  unfold Environment.assign at hassign
  split at hassign <;> cases hassign
  rfl

theorem keeps_putEnvironment (hD : D.Durable) {h : History} {made : Except Fault Environment}
    (hsound : D.Sound h) (hok : ∀ env, made = .ok env → D.Sound (h.withEnv env))
    (herror : ∀ f, made = .error f → f.isPlain = true) :
    D.Keeps (Traced.ofEval (Eval.putEnvironment made)) h := by
  cases made with
  | error f => exact .of_error (advance_ofEval _ h) hsound (hD.allows_plain (herror f rfl))
  | ok env => exact .of_ok (advance_ofEval _ h) (hok env rfl)

theorem keeps_assignTo (hD : D.Durable) {location : Expr} {target value : Value} {h : History}
    (hsound : D.Sound h) (htarget : D.Fits h target) (hvalue : D.Fits h value) :
    D.Keeps (Traced.ofEval (Stmt.assignTo location target value)) h := by
  have hadvance := advance_ofEval (Stmt.assignTo location target value) h
  by_cases hpointer : ∃ p, target = .pointer p
  · obtain ⟨p, rfl⟩ := hpointer
    rw [assignTo_pointer] at hadvance
    cases hindex : p.checked with
    | error f =>
      rw [hindex] at hadvance
      exact .of_error hadvance hsound (hD.allows_locate hsound htarget hindex)
    | ok index =>
      simp only [hindex] at hadvance
      cases hwrite : h.now.store.write index value with
      | error f =>
        rw [hwrite] at hadvance
        exact .of_error hadvance hsound (hD.allows_write hsound htarget hindex hwrite)
      | ok store =>
        rw [hwrite] at hadvance
        exact .of_ok hadvance (hD.write hsound htarget hindex hwrite)
  · rw [assignTo_other fun p hp => hpointer ⟨p, hp⟩] at hadvance
    cases location with
    | var name =>
      have hput : D.Keeps (Traced.ofEval (Eval.putEnvironment
          (h.now.env.assign FrameId.global name value))) h :=
        keeps_putEnvironment hD hsound (fun _ => hD.assign hsound hvalue)
          fun _ => plain_of_assign
      have heq := hadvance.trans (advance_ofEval (Eval.putEnvironment _) h).symm
      exact ⟨by rw [heq]; exact hput.sound, by rw [heq]; exact hput.error⟩
    | num _ | bool _ | keyword _ | lambda _ _ | app _ _ | cond _ _ _ | new _ _ | deref _
    | move _ _ _ => exact .of_error hadvance hsound (hD.allows_plain rfl)

theorem keeps_stmt (hD : D.Durable) (limit : Nat) {s : Stmt} (hcode : ∀ e ∈ s.exprs, D.Code e)
    {h : History} (hsound : D.Sound h) : D.Keeps (s.trace limit) h := by
  have hnone : ∀ v ∈ ([] : List Value), D.Fits h v := fun v hv => absurd hv List.not_mem_nil
  cases s with
  | define name expr =>
    have hexpr := upholds_trace hD (hcode expr (by simp [Stmt.exprs])) limit hsound hnone
    refine .bind hexpr.toKeeps fun value i hrun hsound' => ?_
    have hvalue := (hexpr.of_run hrun).2.2
    refine .bind (.of_ok (advance_ofEval Eval.environment i) hsound') fun env j hrun' _ => ?_
    cases (advance_ofEval Eval.environment i).symm.trans hrun'
    refine .bind (keeps_putEnvironment hD hsound' (fun _ => hD.define hsound' hvalue)
      fun _ => plain_of_define) fun _ k _ hsound'' => .of_ok (advance_pure [] k) hsound''
  | assign location expr =>
    have hlocation := hcode location (by simp [Stmt.exprs])
    have he := hcode expr (by simp [Stmt.exprs])
    have htarget := upholds_trace hD hlocation limit hsound hnone
    refine .bind htarget.toKeeps fun target i hrun hsound' => ?_
    have hexpr := upholds_trace hD he limit hsound'
      (fun v hv => (List.mem_singleton.1 hv) ▸ (htarget.of_run hrun).2.2)
    refine .bind hexpr.toKeeps fun value j hrun' hsound'' => ?_
    obtain ⟨_, _, hfits, hvalue⟩ := fits_operands hD hlocation he hsound hrun hrun'
    exact .bind (keeps_assignTo hD hsound'' hfits hvalue)
      fun _ k _ hsound3 => .of_ok (advance_pure [] k) hsound3
  | print expr =>
    have hexpr := upholds_trace hD (hcode expr (by simp [Stmt.exprs])) limit hsound hnone
    exact .bind hexpr.toKeeps fun value i _ hsound' => .of_ok (advance_pure _ i) hsound'

theorem keeps_stmts (hD : D.Durable) (limit : Nat) (ss : List Stmt)
    (hcode : ∀ s ∈ ss, ∀ e ∈ s.exprs, D.Code e) {h : History} (hsound : D.Sound h) :
    D.Keeps (Stmt.traceAll limit ss) h := by
  induction ss generalizing h with
  | nil => exact .of_ok (advance_pure [] h) hsound
  | cons s ss ih =>
    refine .bind (keeps_stmt hD limit (hcode s List.mem_cons_self) hsound) fun lines i _ hi => ?_
    refine .bind (ih (fun s' hs' => hcode s' (List.mem_cons_of_mem _ hs')) hi) fun more j _ hj => ?_
    exact .of_ok (advance_pure _ j) hj

/-- Serving a request keeps a durable discipline, whether it succeeds or fails: the history stays
sound, a value that is returned fits it, and an error is an allowed one. -/
theorem sound_serve (hD : D.Durable) (limit : Nat) {r : Request}
    (hcode : ∀ e ∈ r.exprs, D.Code e) {h : History} (hsound : D.Sound h) :
    D.Sound (h.serve limit r).2 ∧
      (∀ v, (h.serve limit r).1 = .value (.ok v) → D.Fits (h.serve limit r).2 v) ∧
      ∀ e, (h.serve limit r).1.error? = some e → D.Allows e := by
  cases r with
  | program p =>
    have hkeeps := keeps_stmts hD limit p.stmts
      (fun s hs e he => hcode e (List.mem_flatMap.2 ⟨s, hs, he⟩)) hsound
    refine ⟨hkeeps.sound, fun v hv => (by cases hv), fun e he => hkeeps.error e ?_⟩
    obtain he | he := Reply.error?_eq_some he <;> injection he
  | stmt s =>
    have hkeeps := keeps_stmt hD limit hcode hsound
    refine ⟨hkeeps.sound, fun v hv => (by cases hv), fun e he => hkeeps.error e ?_⟩
    obtain he | he := Reply.error?_eq_some he <;> injection he
  | expr e =>
    have hupholds := upholds_trace hD (hcode e List.mem_cons_self) limit hsound
      fun v hv => absurd hv List.not_mem_nil
    refine ⟨hupholds.sound, fun v hv => hupholds.value v ?_, fun e he => hupholds.error e ?_⟩
    · injection hv
    · obtain he | he := Reply.error?_eq_some he <;> injection he
  | reset => exact ⟨hD.fresh _, fun v hv => (by cases hv), fun e he => by cases he⟩

/-- A durable discipline holds at the end of every run. -/
theorem sound_after (hD : D.Durable) (limit : Nat) (rs : List Request)
    (hcode : ∀ r ∈ rs, ∀ e ∈ r.exprs, D.Code e) {h : History} (hsound : D.Sound h) :
    D.Sound (h.after limit rs) := by
  induction rs generalizing h with
  | nil => exact hsound
  | cons r rs ih =>
    exact ih (fun r' hr' => hcode r' (List.mem_cons_of_mem _ hr'))
      (sound_serve hD limit (hcode r List.mem_cons_self) hsound).1

end Discipline

end CellLang
