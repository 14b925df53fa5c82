import FiberLoop.Fiber.Trampoline

/-!
# What a fiber does next

Between two steps a fiber stands somewhere: with a stack of frames, a stack of masks and what comes next. The
stand alone decides what kind of step comes: the fiber pushes or pops a frame, calls a closure, registers a
callback, or exits. The world is asked only whether an interrupt is pending, and what the closure does.

The main result of this module is `World.step_eq`: one step of a fiber is the deed of its stand.
-/

namespace FiberLoop

/-- Where a fiber stands between two steps. -/
structure Stand where
  run : Run
  next : Next

/-- A closure that is called for what comes next. -/
inductive Call where
  /-- The closure of a leaf with a value. -/
  | value (value : Value)
  /-- The closure of a leaf with a cause. -/
  | cause (cause : Cause Value)
  /-- The closure of a leaf with an exit. -/
  | exit (exit : Exit Value Value)
  /-- The closure of a suspended step. -/
  | thunk (thunk : Thunk)
  /-- The closure of a chain, or of a fold whose source yielded a value. -/
  | bind (next : Continuation) (value : Value)
  /-- The closure of a fold whose source ended with a cause. -/
  | recover (handler : Recovery) (cause : Cause Value)

namespace Call

/-- What the closure does. -/
def act : Call → Act Next
  | .value v => return .value v
  | .cause c => return .cause c
  | .exit x => return .ofExit x
  | .thunk t => t.run
  | .bind k v => k.apply v
  | .recover r c => r.apply c

/-- Whether a pending interrupt takes the place of the closure. -/
def yields : Call → Bool
  | .value _ | .exit _ | .thunk _ => true
  | .cause _ | .bind .. | .recover .. => false

end Call

/-- What a fiber does next. -/
inductive Deed where
  /-- Push or pop a frame, or yield the loop. -/
  | move (stand : Stand)
  /-- Call a closure and go on from the run with what it says. -/
  | call (call : Call) (run : Run)
  | register (registration : Registration)
  | exit (exit : Exit Value Value)

namespace Stand

/-- The deed of a stand. -/
def deed (s : Stand) : Deed :=
  match s.next with
  | .eval (.succeeded v) => .call (.value v) s.run
  | .eval (.caused c) => .call (.cause c) s.run
  | .eval (.complete x) => .call (.exit x) s.run
  | .eval (.suspend thunk) => .call (.thunk thunk) s.run
  | .eval (.async registration) => .register registration
  | .eval (.chain source next) => .move ⟨s.run.push (.chain next), .eval source⟩
  | .eval (.fold source onValue onCause) => .move ⟨s.run.push (.fold onValue onCause), .eval source⟩
  | .eval .currentLoop => .move ⟨s.run, .value .null⟩
  | .eval (.region body status) => .move ⟨s.run.enter status, .eval body⟩
  | .value v =>
    match s.run.frames with
    | [] => .exit (.value v)
    | .chain next :: rest => .call (.bind next v) { s.run with frames := rest }
    | .fold onValue _ :: rest => .call (.bind onValue v) { s.run with frames := rest }
    | .region :: rest => .move ⟨{ frames := rest, masks := s.run.masks.pop }, .value v⟩
  | .cause c =>
    match s.run.frames with
    | [] => .exit (.cause c)
    | .chain _ :: rest => .move ⟨{ s.run with frames := rest }, .cause c⟩
    | .fold _ onCause :: rest => .call (.recover onCause c) { s.run with frames := rest }
    | .region :: rest => .move ⟨{ frames := rest, masks := s.run.masks.pop }, .cause c⟩

/-- The closure of a suspended step is called at that step. -/
theorem of_thunk {s : Stand} {thunk : Thunk} {run : Run} (h : s.deed = .call (.thunk thunk) run) :
    s = ⟨run, .eval (.suspend thunk)⟩ := by
  obtain ⟨⟨frames, masks⟩, next⟩ := s
  cases next with
  | eval e => cases e <;> cases h <;> rfl
  | value v | cause c =>
    cases frames with
    | nil => cases h
    | cons frame rest => cases frame <;> cases h

end Stand

namespace World

/-- Whether a pending interrupt takes the place of a closure. -/
def cuts (w : World) (f : FiberId) (c : Call) (run : Run) : Bool :=
  c.yields && w.interruptPending f run.masks

/-- What the fiber does next after a closure was called. -/
def called (w : World) (c : Call) (run : Run) : Stand × World :=
  (⟨run, .ofExcept (c.act.caught w).1⟩, (c.act.caught w).2)

/-- **One step of a fiber is the deed of its stand.** -/
theorem step_eq (f : FiberId) (s : Stand) (w : World) :
    w.step f s.run s.next = match s.deed with
      | .move s' => (.running s'.run s'.next, w)
      | .call c run =>
        if w.cuts f c run then (.running run (.cause .interrupted), w)
        else (.running (w.called c run).1.run (w.called c run).1.next, (w.called c run).2)
      | .register registration => w.register f s.run registration
      | .exit x => (.left, w.finish f x) := by
  obtain ⟨run, next⟩ := s
  cases next with
  | eval e =>
    cases e with
    | succeeded v => rfl
    | caused c => rfl
    | complete x => rfl
    | suspend thunk => rfl
    | async registration => rfl
    | chain source next => rfl
    | fold source onValue onCause => rfl
    | currentLoop => rfl
    | region body status => rfl
  | value v =>
    obtain ⟨frames, masks⟩ := run
    cases frames with
    | nil => rfl
    | cons frame rest => cases frame <;> rfl
  | cause c =>
    obtain ⟨frames, masks⟩ := run
    cases frames with
    | nil => rfl
    | cons frame rest => cases frame <;> rfl

end World

end FiberLoop
