import FiberLoop.Fiber.Listening
import FiberLoop.Fiber.Parallel

/-!
# Running a fiber

`World.step` is one step of a fiber: it looks at what comes next and yields what comes after, with the stacks
changed. Composition nodes only push frames; leaves and closures make progress; a value or a cause pops the
frame that waits for it.

`World.turn` takes steps until the fiber is done, is parked, or has used up its budget, and then queues the rest
as a task. A pending interrupt replaces every leaf and every registration that is reached outside all
uninterruptible regions.
-/

namespace FiberLoop

namespace Canceler

/-- Cancel. -/
def cancel : Canceler → Act Unit
  | .none => return
  | .actions body env => Action.runAll env Option.none body
  | .timer t => Act.update (World.cancelTimer t)
  | .waiter d key => Act.update (World.leaveDeferred d key)
  | .listener f key => Act.update (World.withdraw f key)
  | .interrupt fibers => Act.update (World.interruptAll fibers)

/-- The canceler that runs actions, if there are any to run. -/
def ofActions (body : Option (List Action)) (env : Env) : Canceler :=
  body.elim .none fun list => .actions list env

end Canceler

namespace Registration

/-- Register a callback; the answer says how to cancel. -/
def run (registration : Registration) (callback : Callback) : Act Canceler :=
  match registration with
  | .never => return .none
  | .actions register cancel env => do
    Action.runAll env (some callback) register
    return .ofActions cancel env
  | .total register cancel value env => do
    Action.runAll env none register
    let v ← value.eval env
    Act.update (World.settle callback (.value v))
    return .ofActions cancel env
  | .timer delay => return .timer (← Act.updateGet (World.schedule delay (.succeed callback .null)))
  | .deferred d => do
    match ← Act.updateGet (World.awaitDeferred d callback) with
    | some (.settled exit) =>
      Act.update (World.settle callback exit)
      return .none
    | some (.queued key) => return .waiter d key
    | none => return .none
  | .exitOf f => do
    match ← World.listen f (.resume callback) with
    | some key => return .listener f key
    | none => return .none
  | .race left right => return .interrupt (← Act.updateGet (World.startRace left right callback))
  | .parZip left right f => do
    return .interrupt (← Act.updateGet (World.startPairing left right f callback))

end Registration

namespace ExitHook

/-- Tell what becomes of an exit about it. -/
def run (hook : ExitHook) (f : FiberId) (exit : Exit Value Value) : Act Unit :=
  match hook with
  | .report name throws => do
    Act.update (World.log (.exited name exit))
    if throws then Act.throwText "exit callback"
  | .publish => World.publish f exit
  | .race r side => Act.update (World.finishRace r side exit)
  | .parZip p side => Act.update (World.finishPairing p side exit)
  | .deliver outbox => Act.update fun w =>
    { w with session := { w.session with outboxes := w.session.outboxes.set outbox (some exit) } }

end ExitHook

/-- What a step leads to. -/
inductive Progress where
  /-- The run goes on. -/
  | running (run : Run) (next : Next)
  /-- The run has ended or is stored in the record of its fiber. -/
  | left

namespace Run

/-- Push a frame. -/
def push (run : Run) (frame : Frame) : Run := { run with frames := frame :: run.frames }

/-- Enter a region. -/
def enter (run : Run) (status : Interruptibility) : Run :=
  { frames := .region :: run.frames, masks := run.masks.push status }

end Run

/-- What comes next after a closure has run. -/
def Next.ofExcept : Except Defect Next → Next
  | .ok next => next
  | .error d => .cause (.aborted d)

namespace World

/-- Run a closure that says what comes next; a throw becomes a defect. -/
def runClosure (act : Act Next) (run : Run) (w : World) : Progress × World :=
  let (result, w) := act.caught w
  (.running run (.ofExcept result), w)

/-- Start a new epoch of a fiber. -/
def advanceEpoch (f : FiberId) (phase : Phase) (w : World) : World :=
  w.modifyFiber f fun r => { r with phase := phase, epoch := r.epoch + 1 }

/-- End a registration whose closure returned: an early result is taken; otherwise the fiber is unwound if it
was interrupted meanwhile, and parked if not. -/
def endRegistration (f : FiberId) (run : Run) (canceler : Canceler) (w : World) : Progress × World :=
  match (w.fiber? f).map Fiber.phase with
  | some (.registering (some exit)) => (.running run (.ofExit exit), w.advanceEpoch f .running)
  | some (.registering none) =>
    if w.interruptPending f run.masks then
      (.running run (.cause .interrupted), canceler.cancel.attempt (w.advanceEpoch f .running))
    else (.left, w.modifyFiber f fun r => { r with phase := .suspended run canceler })
  | _ =>
    (.running run (.cause (.aborted (.literal "async registration left the fiber in an unexpected phase"))), w)

/-- Register a callback for a fiber. -/
def register (f : FiberId) (run : Run) (registration : Registration) (w : World) : Progress × World :=
  if w.interruptPending f run.masks then (.running run (.cause .interrupted), w)
  else
    let w := w.advanceEpoch f (.registering none)
    let epoch := (w.fiber? f).elim 0 (·.epoch)
    match (registration.run { fiber := f, epoch := epoch }).caught w with
    | (.error d, w) => (.running run (.cause (.aborted d)), w.advanceEpoch f .running)
    | (.ok canceler, w) => w.endRegistration f run canceler

/-- End a fiber. -/
def finish (f : FiberId) (exit : Exit Value Value) (w : World) : World :=
  let hook := (w.fiber? f).bind (·.hook)
  let w := w.modifyFiber f fun r =>
    { r with phase := .done, outcome := .ofExit exit, hook := none }
  match hook with
  | some hook => (hook.run f exit).attempt w
  | none => w

/-- A step at a leaf, which a pending interrupt replaces. -/
def stepLeaf (f : FiberId) (run : Run) (closure : Act Next) (w : World) : Progress × World :=
  if w.interruptPending f run.masks then (.running run (.cause .interrupted), w)
  else w.runClosure closure run

/-- A step into an effect. -/
def stepEffect (f : FiberId) (run : Run) (e : Effect) (w : World) : Progress × World :=
  match e with
  | .succeeded v => w.stepLeaf f run (return .value v)
  | .caused c => (.running run (.cause c), w)
  | .complete exit => w.stepLeaf f run (return .ofExit exit)
  | .suspend thunk => w.stepLeaf f run thunk.run
  | .async registration => w.register f run registration
  | .chain source next => (.running (run.push (.chain next)) (.eval source), w)
  | .fold source onValue onCause => (.running (run.push (.fold onValue onCause)) (.eval source), w)
  | .currentLoop => (.running run (.value .null), w)
  | .region body status => (.running (run.enter status) (.eval body), w)

/-- A step with a value. -/
def stepValue (f : FiberId) (run : Run) (v : Value) (w : World) : Progress × World :=
  match run.frames with
  | [] => (.left, w.finish f (.value v))
  | .chain next :: rest => w.runClosure (next.apply v) { run with frames := rest }
  | .fold onValue _ :: rest => w.runClosure (onValue.apply v) { run with frames := rest }
  | .region :: rest => (.running { frames := rest, masks := run.masks.pop } (.value v), w)

/-- A step with a cause. -/
def stepCause (f : FiberId) (run : Run) (c : Cause Value) (w : World) : Progress × World :=
  match run.frames with
  | [] => (.left, w.finish f (.cause c))
  | .chain _ :: rest => (.running { run with frames := rest } (.cause c), w)
  | .fold _ onCause :: rest => w.runClosure (onCause.apply c) { run with frames := rest }
  | .region :: rest => (.running { frames := rest, masks := run.masks.pop } (.cause c), w)

/-- One step of a fiber. -/
def step (f : FiberId) (run : Run) (next : Next) (w : World) : Progress × World :=
  match next with
  | .eval e => w.stepEffect f run e
  | .value v => w.stepValue f run v
  | .cause c => w.stepCause f run c

/-- Take steps while the budget lasts, then yield. -/
def turn (f : FiberId) : Nat → Run → Next → World → World
  | 0, run, next, w => w.dispatch (.resume f run next)
  | budget + 1, run, next, w =>
    match w.step f run next with
    | (.running run next, w) => turn f budget run next w
    | (.left, w) => w

/-- Give a fiber a turn. -/
def giveTurn (f : FiberId) (run : Run) (next : Next) (w : World) : World :=
  turn f w.loop.config.yieldBudget run next w

/-- Begin a fiber that has not been started. -/
def begin (f : FiberId) (w : World) : World :=
  match (w.fiber? f).map Fiber.phase with
  | some (.created root) => (w.modifyFiber f fun r => { r with phase := .running }).giveTurn f {} (.eval root)
  | _ => w

end World

end FiberLoop
