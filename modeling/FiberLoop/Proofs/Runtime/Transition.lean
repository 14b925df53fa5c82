import FiberLoop.Proofs.Runtime.Moment
import FiberLoop.Proofs.Runtime.Request
import FiberLoop.Scenario

/-!
# Transitions

How the runtime gets from one moment to another, with what happens on the way. At any moment somebody may make a
request: a closure of some fiber, a listener, a timer, or a caller from outside. Between two tasks the loops may
change places, the clock and the timers may move, and a message that concerns no fiber may be taken. Everything
else is done by the fibers, one small step at a time.

`Reachable` are the moments of all runs: every configuration, every set of definitions, every order of requests
and of the two loops. Each branch of the code has its rule, also those that are shown never to be taken.
-/

namespace FiberLoop

/-- A loop between two tasks: it may have taken a quiet message, and its timers go on with no fiber. -/
structure EventLoop.Tends (l l' : EventLoop) : Prop where
  config : l'.config = l.config
  inbox : l'.inbox = l.inbox ∨ ∃ m : Message, m.isQuiet = true ∧ l.inbox = m :: l'.inbox
  timers : ∀ t ∈ l'.timers, t.task.isErrand = true

namespace World

/-- The world in which the exit of a fiber is told: a fiber that publishes its exit has it in its notice. -/
def announce (f : FiberId) (exit : Exit Value Value) (hook : ExitHook) (w : World) : World :=
  match hook, w.notice? f with
  | .publish, some (.pending ..) => w.setNotice f (.done exit)
  | _, _ => w

end World

/-- The defect of a registration that ends in a phase in which none can. -/
def unexpectedPhase : Next :=
  .cause (.aborted (.literal "async registration left the fiber in an unexpected phase"))

/-- A step of the runtime and what it makes happen. -/
inductive Transition : Moment → Chronicle → Moment → Prop where
  | request {w w' : World} {es : Chronicle} (h : Request w es w') (a : Activity) :
    Transition ⟨w, a⟩ es ⟨w', a⟩
  -- between two tasks
  | switch (w : World) : Transition ⟨w, .idle⟩ [] ⟨w.switch, .idle⟩
  | tend {w : World} {l : EventLoop} (h : w.loop.Tends l) (clock : Nat) :
    Transition ⟨w, .idle⟩ [] ⟨{ w with loop := l, clock := clock }, .idle⟩
  -- a task is taken
  | start {w : World} {f : FiberId} {rest : List Message} {root : Effect}
    (hinbox : w.loop.inbox = .task (.start f) :: rest) (hphase : w.phase? f = some (.created root)) :
    Transition ⟨w, .idle⟩ [(f, .began root)]
      ⟨w.dropMessage.modifyFiber f fun r => { r with phase := .running },
        .running f w.budget ⟨{}, .eval root⟩⟩
  | startLate {w : World} {f : FiberId} {rest : List Message}
    (hinbox : w.loop.inbox = .task (.start f) :: rest)
    (hphase : ∀ root, w.phase? f ≠ some (.created root)) : Transition ⟨w, .idle⟩ [] ⟨w.dropMessage, .idle⟩
  | resume {w : World} {f : FiberId} {rest : List Message} {s : Stand}
    (hinbox : w.loop.inbox = .task (.resume f s.run s.next) :: rest) :
    Transition ⟨w, .idle⟩ [] ⟨w.dropMessage, .running f w.budget s⟩
  | unwind {w : World} {f : FiberId} {rest : List Message} {canceler : Canceler} {run : Run}
    (hinbox : w.loop.inbox = .task (.unwind f canceler run) :: rest) :
    Transition ⟨w, .idle⟩ [] ⟨w.dropMessage, .canceling f w.budget run canceler⟩
  -- a fiber takes a step
  | yield (w : World) (f : FiberId) (s : Stand) :
    Transition ⟨w, .running f 0 s⟩ [] ⟨w.dispatch (.resume f s.run s.next), .idle⟩
  | move (w : World) (f : FiberId) (left : Nat) {s s' : Stand} (hdeed : s.deed = .move s') :
    Transition ⟨w, .running f (left + 1) s⟩ [(f, .stepped .move s')] ⟨w, .running f left s'⟩
  | call {w : World} {f : FiberId} (left : Nat) {s : Stand} {c : Call} {run : Run} {es : Chronicle}
    (hdeed : s.deed = .call c run) (hcuts : w.cuts f c run = false) (h : Requests w es (w.called c run).2) :
    Transition ⟨w, .running f (left + 1) s⟩ (es ++ [(f, .stepped (.call c) (w.called c run).1)])
      ⟨(w.called c run).2, .running f left (w.called c run).1⟩
  | cut {w : World} {f : FiberId} (left : Nat) {s : Stand} {c : Call} {run : Run}
    (hdeed : s.deed = .call c run) (hcuts : w.cuts f c run = true) :
    Transition ⟨w, .running f (left + 1) s⟩ [(f, .stepped .cut ⟨run, .cause .interrupted⟩)]
      ⟨w, .running f left ⟨run, .cause .interrupted⟩⟩
  | cutWait {w : World} {f : FiberId} (left : Nat) {s : Stand} {r : Registration}
    (hdeed : s.deed = .register r) (hpending : w.interruptPending f s.run.masks = true) :
    Transition ⟨w, .running f (left + 1) s⟩ [(f, .stepped .cut ⟨s.run, .cause .interrupted⟩)]
      ⟨w, .running f left ⟨s.run, .cause .interrupted⟩⟩
  | register {w v : World} {f : FiberId} (left : Nat) {s : Stand} {r : Registration}
    (hdeed : s.deed = .register r) (hpending : w.interruptPending f s.run.masks = false)
    (hv : v = w.advanceEpoch f (.registering none)) :
    Transition ⟨w, .running f (left + 1) s⟩ [(f, .registered r (v.epoch f))]
      ⟨v, .registering f left s.run r (v.epoch f)⟩
  | exit {w : World} {f : FiberId} (left : Nat) {s : Stand} {x : Exit Value Value} {hook : ExitHook}
    (hdeed : s.deed = .exit x) (hhook : (w.fiber? f).bind (·.hook) = some hook) :
    Transition ⟨w, .running f (left + 1) s⟩ [(f, .exited x)] ⟨w.markDone f x, .exiting f x hook⟩
  | exitSilently {w : World} {f : FiberId} (left : Nat) {s : Stand} {x : Exit Value Value}
    (hdeed : s.deed = .exit x) (hhook : (w.fiber? f).bind (·.hook) = none) :
    Transition ⟨w, .running f (left + 1) s⟩ [(f, .exited x)] ⟨w.markDone f x, .idle⟩
  -- a registration goes on
  | throw {w v : World} {f : FiberId} (left : Nat) (run : Run) {r : Registration} {epoch : Nat}
    {d : Defect} {es : Chronicle} (hrun : (r.run ⟨f, epoch⟩).caught w = (.error d, v))
    (h : Requests w es v) :
    Transition ⟨w, .registering f left run r epoch⟩
      (es ++ [(f, .ended epoch (.threw d)),
        (f, .continued epoch (.threw d) ⟨run, .cause (.aborted d)⟩)])
      ⟨v.advanceEpoch f .running, .running f left ⟨run, .cause (.aborted d)⟩⟩
  | return {w v : World} {f : FiberId} (left : Nat) (run : Run) {r : Registration} {epoch : Nat}
    {canceler : Canceler} {es : Chronicle} (hrun : (r.run ⟨f, epoch⟩).caught w = (.ok canceler, v))
    (h : Requests w es v) :
    Transition ⟨w, .registering f left run r epoch⟩ (es ++ [(f, .returned epoch canceler)])
      ⟨v, .returning f left run canceler⟩
  | early {w : World} {f : FiberId} (left : Nat) (run : Run) (canceler : Canceler) {x : Exit Value Value}
    (hphase : w.phase? f = some (.registering (some x))) :
    Transition ⟨w, .returning f left run canceler⟩
      [(f, .ended (w.epoch f) (.early x)), (f, .continued (w.epoch f) (.early x) ⟨run, .ofExit x⟩)]
      ⟨w.advanceEpoch f .running, .running f left ⟨run, .ofExit x⟩⟩
  | leave {w : World} {f : FiberId} (left : Nat) {run : Run} (canceler : Canceler)
    (hphase : w.phase? f = some (.registering none)) (hpending : w.interruptPending f run.masks = true) :
    Transition ⟨w, .returning f left run canceler⟩ [(f, .ended (w.epoch f) .interrupted)]
      ⟨w.advanceEpoch f .running, .canceling f left run canceler⟩
  | park {w : World} {f : FiberId} (left : Nat) {run : Run} (canceler : Canceler)
    (hphase : w.phase? f = some (.registering none)) (hpending : w.interruptPending f run.masks = false) :
    Transition ⟨w, .returning f left run canceler⟩ [(f, .parked (w.epoch f))]
      ⟨w.modifyFiber f fun r => { r with phase := .suspended run canceler }, .idle⟩
  | unexpected {w : World} {f : FiberId} (left : Nat) (run : Run) (canceler : Canceler)
    (hphase : ∀ early, w.phase? f ≠ some (.registering early)) :
    Transition ⟨w, .returning f left run canceler⟩ [(f, .unexpected)]
      ⟨w, .running f left ⟨run, unexpectedPhase⟩⟩
  | cancel {w v : World} {f : FiberId} (left : Nat) (run : Run) {canceler : Canceler} {es : Chronicle}
    (hv : v = canceler.cancel.attempt w) (h : Requests w es v) :
    Transition ⟨w, .canceling f left run canceler⟩
      (es ++ [(f, .canceled (v.epoch f - 1) canceler),
        (f, .continued (v.epoch f - 1) .interrupted ⟨run, .cause .interrupted⟩)])
      ⟨v, .running f left ⟨run, .cause .interrupted⟩⟩
  -- an exit is told
  | tell {w v : World} {f : FiberId} {x : Exit Value Value} {hook : ExitHook} {es : Chronicle}
    (hv : v = (hook.run f x).attempt w) (h : Requests (w.announce f x hook) es v) :
    Transition ⟨w, .exiting f x hook⟩ ((f, .told x hook) :: es) ⟨v, .idle⟩

/-- Transitions one after the other. -/
inductive Transitions : Moment → Chronicle → Moment → Prop where
  | refl (m : Moment) : Transitions m [] m
  | step {m m' m'' : Moment} {es es' : Chronicle} (h : Transitions m es m') (last : Transition m' es' m'') :
    Transitions m (es ++ es') m''

namespace Transitions

variable {m m' m'' : Moment} {es es' : Chronicle}

theorem one (h : Transition m es m') : Transitions m es m' := .step (.refl m) h

theorem append (h : Transitions m es m') (h' : Transitions m' es' m'') : Transitions m (es ++ es') m'' := by
  induction h' with
  | refl => rwa [List.append_nil]
  | step _ last ih =>
    rw [← List.append_assoc]
    exact .step ih last

/-- Requests can be made at any moment. -/
theorem requests {w w' : World} (h : Requests w es w') (a : Activity) :
    Transitions ⟨w, a⟩ es ⟨w', a⟩ := by
  induction h with
  | refl w => exact .refl _
  | step first _ ih => exact (one (.request first a)).append ih

end Transitions

/-- A moment of some run, and what has happened before it. -/
def Reachable (events : Chronicle) (m : Moment) : Prop :=
  ∃ config definitions, Transitions ⟨Scenario.initial config definitions, .idle⟩ events m

namespace Reachable

variable {es es' : Chronicle} {m m' : Moment}

theorem initial (config : Config) (definitions : List (Name × Definition)) :
    Reachable [] ⟨Scenario.initial config definitions, .idle⟩ := ⟨config, definitions, .refl _⟩

theorem append (h : Reachable es m) (htransitions : Transitions m es' m') : Reachable (es ++ es') m' := by
  obtain ⟨config, definitions, hbefore⟩ := h
  exact ⟨config, definitions, hbefore.append htransitions⟩

end Reachable

end FiberLoop
