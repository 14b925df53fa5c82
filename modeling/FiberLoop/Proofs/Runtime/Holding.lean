import FiberLoop.Proofs.Closures.Footprint

/-!
# Who holds a fiber

The run of a fiber lies in its record or in a task that waits in the inbox of a loop. `World.tokens` lists
the waiting tasks that go on with a fiber; `World.record` is the record of the fiber up to those who listen to
its exit.

The lemmas of this module say what each primitive operation does to the two.
-/

namespace FiberLoop

/-- The fiber that a task goes on with. -/
def Task.fiber? : Task → Option FiberId
  | .start f | .resume f .. | .unwind f .. => some f
  | .succeed .. | .actions .. => none

theorem Task.fiber?_of_isErrand {task : Task} (h : task.isErrand = true) : task.fiber? = none := by
  cases task with
  | succeed callback v => rfl
  | actions list env => rfl
  | _ => cases h

namespace Message

/-- The task of a message if it goes on with that fiber. -/
def token? (f : FiberId) : Message → Option Task
  | .task t => if t.fiber? = some f then some t else none
  | _ => none

/-- Whether a message goes on with no fiber, now or later. -/
def isQuiet : Message → Bool
  | .task t | .timer _ _ t => t.isErrand
  | .shutdown => true

theorem token?_of_isQuiet {m : Message} (h : m.isQuiet = true) (f : FiberId) : m.token? f = none := by
  cases m with
  | task t =>
    have hfiber := Task.fiber?_of_isErrand h
    simp [token?, hfiber]
  | timer deadline timer t => rfl
  | shutdown => rfl

end Message

/-- The waiting tasks of a loop that go on with a fiber. -/
def EventLoop.tokens (f : FiberId) (l : EventLoop) : List Task := l.inbox.filterMap (Message.token? f)

namespace EventLoop

variable {l l' : EventLoop}

theorem tokens_queue (f : FiberId) (t : Task) (l : EventLoop) :
    (l.queue t).tokens f = l.tokens f ++ ((Message.task t).token? f).toList := by
  simp only [tokens, queue, List.filterMap_append, List.filterMap_cons, List.filterMap_nil]
  cases (Message.task t).token? f <;> rfl

/-- A loop has only got quiet messages behind those that it had. -/
structure Grows (l l' : EventLoop) : Prop where
  config : l'.config = l.config
  timers : l'.timers = l.timers
  stopped : l'.stopped = l.stopped
  inbox : ∃ added : List Message, (∀ m ∈ added, m.isQuiet = true) ∧ l'.inbox = l.inbox ++ added

namespace Grows

theorem refl (l : EventLoop) : l.Grows l := ⟨rfl, rfl, rfl, [], fun _ h => (nomatch h), by simp⟩

theorem tokens (h : l.Grows l') (f : FiberId) : l'.tokens f = l.tokens f := by
  obtain ⟨added, hquiet, hinbox⟩ := h.inbox
  have hnone : added.filterMap (Message.token? f) = [] := by
    rw [List.filterMap_eq_nil_iff]
    intro m hm
    exact Message.token?_of_isQuiet (hquiet m hm) f
  rw [EventLoop.tokens, hinbox, List.filterMap_append, hnone, List.append_nil]
  rfl

/-- A quiet message is put behind the others. -/
theorem put {m : Message} (h : m.isQuiet = true) (hconfig : l'.config = l.config)
    (htimers : l'.timers = l.timers) (hstopped : l'.stopped = l.stopped) (hinbox : l'.inbox = l.inbox ++ [m]) :
    l.Grows l' := by
  refine ⟨hconfig, htimers, hstopped, [m], ?_, hinbox⟩
  intro m' hm'
  rw [List.mem_singleton.1 hm']
  exact h

end Grows

end EventLoop

/-- The notice up to those who wait in it. -/
def ExitNotice.core : ExitNotice → ExitNotice
  | .pending .. => .pending [] 0
  | .done exit => .done exit

/-- The record up to those who listen to the exit. -/
def Fiber.core (r : Fiber) : Fiber := { r with notice := r.notice.map ExitNotice.core }

namespace World

/-- The waiting tasks that go on with a fiber. -/
def tokens (f : FiberId) (w : World) : List Task := w.loop.tokens f ++ w.aside.tokens f

/-- The record of a fiber up to those who listen to its exit. -/
def record (f : FiberId) (w : World) : Option Fiber := (w.fiber? f).map Fiber.core

/-! ## Records -/

theorem fiber?_of_record {w : World} {f : FiberId} {r : Fiber} (h : w.record f = some r) :
    ∃ fiber, w.fiber? f = some fiber ∧ fiber.core = r := by
  unfold record at h
  cases hf : w.fiber? f with
  | none =>
    rw [hf] at h
    cases h
  | some fiber =>
    rw [hf] at h
    exact ⟨fiber, rfl, Option.some.inj h⟩

theorem fiber?_of_record_none {w : World} {f : FiberId} (h : w.record f = none) : w.fiber? f = none := by
  unfold record at h
  exact Option.map_eq_none_iff.1 h

theorem record_modifyFiber_of_ne {f g : FiberId} (h : f ≠ g) (w : World) (change : Fiber → Fiber) :
    (w.modifyFiber f change).record g = w.record g := by
  simp only [record, fiber?_modifyFiber_of_ne h]

theorem record_modifyFiber_self {w : World} {f : FiberId} {fiber : Fiber} (h : w.fiber? f = some fiber)
    (change : Fiber → Fiber) : (w.modifyFiber f change).record f = some (change fiber).core := by
  simp only [record, fiber?_modifyFiber_self, h, Option.map_some]

@[simp] theorem record_dispatchTo (w : World) (name : LoopName) (t : Task) (f : FiberId) :
    (w.dispatchTo name t).record f = w.record f := by
  simp only [record, fiber?_dispatchTo]

@[simp] theorem tokens_modifyFiber (w : World) (g f : FiberId) (change : Fiber → Fiber) :
    (w.modifyFiber g change).tokens f = w.tokens f := rfl

/-! ## Tokens -/

theorem token?_task_self {f : FiberId} {t : Task} (h : t.fiber? = some f) :
    (Message.task t).token? f = some t := by
  simp [Message.token?, h]

theorem token?_task_of_ne {f : FiberId} {t : Task} (h : t.fiber? ≠ some f) :
    (Message.task t).token? f = none := by
  simp [Message.token?, h]

theorem tokens_of_empty {w : World} (hloop : w.loop.inbox = []) (haside : w.aside.inbox = []) (f : FiberId) :
    w.tokens f = [] := by
  rw [World.tokens, EventLoop.tokens, EventLoop.tokens, hloop, haside]
  rfl

/-- A task that goes on with another fiber is no token of this one. -/
theorem tokens_dispatchTo_of_ne {f : FiberId} {t : Task} (h : t.fiber? ≠ some f) (w : World)
    (name : LoopName) : (w.dispatchTo name t).tokens f = w.tokens f := by
  have hnone := token?_task_of_ne h
  unfold dispatchTo
  split
  · simp [tokens, dispatch, EventLoop.tokens_queue, hnone]
  · simp [tokens, EventLoop.tokens_queue, hnone]

/-- A fiber for which no task waits is held by the task that is queued for it. -/
theorem tokens_dispatchTo_of_nil {f : FiberId} {t : Task} (h : t.fiber? = some f) {w : World}
    (hnil : w.tokens f = []) (name : LoopName) : (w.dispatchTo name t).tokens f = [t] := by
  have hsome := token?_task_self h
  obtain ⟨hloop, haside⟩ := List.append_eq_nil_iff.1 hnil
  unfold dispatchTo
  split
  · simp [tokens, dispatch, EventLoop.tokens_queue, hsome, hloop, haside]
  · simp [tokens, EventLoop.tokens_queue, hsome, hloop, haside]

theorem dispatch_eq_dispatchTo (w : World) (t : Task) : w.dispatch t = w.dispatchTo w.here t := by
  simp [dispatchTo]

end World

end FiberLoop
