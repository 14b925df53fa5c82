import FiberLoop.Loop.Pass
import FiberLoop.Proofs.Runtime.Deed

/-!
# Moments of a run

A pass of the loop is cut into moments. Between two moments the loop does one small thing: it takes a message, a
fiber takes one step, the closure of a registration runs, the registration ends, a canceler runs, or an exit is
told. The activity of a moment says who is in the middle of what.

`Moment.next` is the next moment. It says nothing new: `Moment.pass_of_next` shows that the moments of a pass
lead from the world before it to the world after it.
-/

namespace FiberLoop

/-- What the loop is in the middle of. -/
inductive Activity where
  /-- Nothing: the next message comes. -/
  | idle
  /-- A fiber runs, and may take some more steps in this turn. -/
  | running (fiber : FiberId) (left : Nat) (stand : Stand)
  /-- A fiber is about to run the closure of a registration. -/
  | registering (fiber : FiberId) (left : Nat) (run : Run) (registration : Registration) (epoch : Nat)
  /-- The closure of a registration has returned. -/
  | returning (fiber : FiberId) (left : Nat) (run : Run) (canceler : Canceler)
  /-- A fiber was interrupted and is about to cancel what it waited for. -/
  | canceling (fiber : FiberId) (left : Nat) (run : Run) (canceler : Canceler)
  /-- A fiber has ended and its exit is about to be told. -/
  | exiting (fiber : FiberId) (exit : Exit Value Value) (hook : ExitHook)

namespace Activity

/-- The fiber that is in the middle of something. -/
def fiber? : Activity → Option FiberId
  | .idle => none
  | .running f .. | .registering f .. | .returning f .. | .canceling f .. | .exiting f .. => some f

end Activity

/-- A moment of a run. -/
structure Moment where
  world : World
  activity : Activity

namespace World

/-- The epoch of a fiber. -/
def epoch (f : FiberId) (w : World) : Nat := (w.fiber? f).elim 0 (·.epoch)

/-- The phase of a fiber. -/
def phase? (f : FiberId) (w : World) : Option Phase := (w.fiber? f).map Fiber.phase

/-- The number of steps of a turn. -/
def budget (w : World) : Nat := w.loop.config.yieldBudget

/-- Begin with a message. -/
def takeUp (message : Message) (w : World) : Moment :=
  match message with
  | .task (.start f) =>
    match (w.fiber? f).map Fiber.phase with
    | some (.created root) =>
      ⟨w.modifyFiber f fun r => { r with phase := .running }, .running f w.budget ⟨{}, .eval root⟩⟩
    | _ => ⟨w, .idle⟩
  | .task (.resume f run next) => ⟨w, .running f w.budget ⟨run, next⟩⟩
  | .task (.unwind f canceler run) => ⟨w, .canceling f w.budget run canceler⟩
  | message => ⟨w.handle message, .idle⟩

/-- Take the first message of the inbox out of it. -/
def dropMessage (w : World) : World := { w with loop := { w.loop with inbox := w.loop.inbox.tail } }

/-- Run the timers that are due and begin with the next message. -/
def takeNext (w : World) : Moment :=
  match w.loop.inbox with
  | [] => ⟨w, .idle⟩
  | message :: _ => w.dropMessage.takeUp message

/-- Mark a fiber as done. -/
def markDone (f : FiberId) (exit : Exit Value Value) (w : World) : World :=
  w.modifyFiber f fun r => { r with phase := .done, outcome := .ofExit exit, hook := none }

/-- Do what a fiber does next, with some steps left afterwards. -/
def act (f : FiberId) (left : Nat) (s : Stand) (w : World) : Moment :=
  match s.deed with
  | .move s' => ⟨w, .running f left s'⟩
  | .call c run =>
    if w.cuts f c run then ⟨w, .running f left ⟨run, .cause .interrupted⟩⟩
    else ⟨(w.called c run).2, .running f left (w.called c run).1⟩
  | .register registration =>
    if w.interruptPending f s.run.masks then ⟨w, .running f left ⟨s.run, .cause .interrupted⟩⟩
    else
      let w := w.advanceEpoch f (.registering none)
      ⟨w, .registering f left s.run registration (w.epoch f)⟩
  | .exit x =>
    match (w.fiber? f).bind (·.hook) with
    | some hook => ⟨w.markDone f x, .exiting f x hook⟩
    | none => ⟨w.markDone f x, .idle⟩

/-- Run the closure of a registration. -/
def beginRegistration (f : FiberId) (left : Nat) (run : Run) (registration : Registration) (epoch : Nat)
    (w : World) : Moment :=
  match (registration.run { fiber := f, epoch := epoch }).caught w with
  | (.error d, w) => ⟨w.advanceEpoch f .running, .running f left ⟨run, .cause (.aborted d)⟩⟩
  | (.ok canceler, w) => ⟨w, .returning f left run canceler⟩

/-- End a registration whose closure has returned. -/
def leaveRegistration (f : FiberId) (left : Nat) (run : Run) (canceler : Canceler) (w : World) : Moment :=
  match (w.fiber? f).map Fiber.phase with
  | some (.registering (some exit)) =>
    ⟨w.advanceEpoch f .running, .running f left ⟨run, .ofExit exit⟩⟩
  | some (.registering none) =>
    if w.interruptPending f run.masks then
      ⟨w.advanceEpoch f .running, .canceling f left run canceler⟩
    else ⟨w.modifyFiber f fun r => { r with phase := .suspended run canceler }, .idle⟩
  | _ => ⟨w, .running f left
      ⟨run, .cause (.aborted (.literal "async registration left the fiber in an unexpected phase"))⟩⟩

end World

namespace Moment

/-- The next moment. A loop that has stopped stays where it is. -/
def next (m : Moment) : Moment :=
  match m.activity with
  | .idle => if m.world.loop.stopped then m else m.world.fireDue.takeNext
  | .running f 0 s => ⟨m.world.dispatch (.resume f s.run s.next), .idle⟩
  | .running f (left + 1) s => m.world.act f left s
  | .registering f left run registration epoch => m.world.beginRegistration f left run registration epoch
  | .returning f left run canceler => m.world.leaveRegistration f left run canceler
  | .canceling f left run canceler =>
    ⟨canceler.cancel.attempt m.world, .running f left ⟨run, .cause .interrupted⟩⟩
  | .exiting f exit hook => ⟨(hook.run f exit).attempt m.world, .idle⟩

end Moment

end FiberLoop
