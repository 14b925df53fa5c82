import FiberLoop.Proofs.Closures.Footprint
import FiberLoop.Proofs.Runtime.Course
import FiberLoop.Proofs.Runtime.Holding

/-!
# Requests

What a closure does to the fibers of a world comes down to four requests: it launches a fiber, asks for an
interruption, completes a callback, or does something that concerns no fiber. Each request is labelled with what
it makes happen, and to which fiber.

The main result of this module is the instance of `Permits`: the operations of the library are requests, and
so is everything that a closure does.
-/

namespace FiberLoop

/-- What has happened, and to which fiber. -/
abbrev Chronicle := List (FiberId × Event)

namespace World

/-- A change that concerns no fiber: the records stay, and only quiet messages are queued. -/
structure Quiet (w w' : World) : Prop where
  here : w'.here = w.here
  loop : w.loop.Grows w'.loop
  aside : w.aside.Grows w'.aside
  record : ∀ f, w'.record f = w.record f

/-- What a request to interrupt a fiber makes happen. -/
def interruptEvents (f : FiberId) (w : World) : Chronicle :=
  match w.fiber? f with
  | none => []
  | some fiber =>
    if fiber.interruptRequested then []
    else
      match fiber.phase with
      | .suspended run _ =>
        if run.masks.isInterruptible then [(f, .requested), (f, .ended fiber.epoch .interrupted)]
        else [(f, .requested)]
      | _ => [(f, .requested)]

/-- What the completion of a callback makes happen. -/
def settleEvents (callback : Callback) (exit : Exit Value Value) (w : World) : Chronicle :=
  match w.fiber? callback.fiber with
  | none => []
  | some fiber =>
    if fiber.epoch ≠ callback.epoch then []
    else
      match fiber.phase with
      | .registering none => [(callback.fiber, .kept fiber.epoch exit)]
      | .suspended run _ => [(callback.fiber, .ended fiber.epoch (.answered exit)),
          (callback.fiber, .continued fiber.epoch (.answered exit) ⟨run, .ofExit exit⟩)]
      | _ => []

end World

/-- A request and what it makes happen. -/
inductive Request : World → Chronicle → World → Prop where
  | quiet {w w' : World} (h : w.Quiet w') : Request w [] w'
  | interrupt (w : World) (f : FiberId) : Request w (w.interruptEvents f) (w.interrupt f)
  | settle (w : World) (callback : Callback) (exit : Exit Value Value) :
    Request w (w.settleEvents callback exit) (w.settle callback exit)
  | launch (w : World) (root : Effect) (hook : ExitHook) :
    Request w [(⟨w.fibers.size⟩, .launched root hook)] (w.launch root hook hook.notice).2

/-- Requests one after the other. -/
inductive Requests : World → Chronicle → World → Prop where
  | refl (w : World) : Requests w [] w
  | step {u v w : World} {es es' : Chronicle} (first : Request u es v) (h : Requests v es' w) :
    Requests u (es ++ es') w

/-- A world comes out of another one by requests. -/
def Requested (w w' : World) : Prop := ∃ es, Requests w es w'

namespace Requests

theorem one {w w' : World} {es : Chronicle} (h : Request w es w') : Requests w es w' := by
  have hstep := Requests.step h (.refl w')
  rwa [List.append_nil] at hstep

theorem append {u v w : World} {es es' : Chronicle} (h : Requests u es v) (h' : Requests v es' w) :
    Requests u (es ++ es') w := by
  induction h with
  | refl w => exact h'
  | step first _ ih =>
    rw [List.append_assoc]
    exact .step first (ih h')

end Requests

namespace World.Quiet

/-- The stores, the session and the count of throws concern no fiber. -/
theorem besides (w : World) (stores : Stores) (session : Session) (caughtThrows : Nat) :
    w.Quiet { w with stores := stores, session := session, caughtThrows := caughtThrows } :=
  ⟨rfl, .refl _, .refl _, fun _ => rfl⟩

theorem stores (w : World) (stores : Stores) : w.Quiet { w with stores := stores } :=
  besides w stores w.session w.caughtThrows

/-- A quiet message is put into the inbox of the loop that runs. -/
theorem put {w : World} {l : EventLoop} {m : Message} (stores : Stores) (hquiet : m.isQuiet = true)
    (hconfig : l.config = w.loop.config) (htimers : l.timers = w.loop.timers)
    (hstopped : l.stopped = w.loop.stopped) (hinbox : l.inbox = w.loop.inbox ++ [m]) :
    w.Quiet { w with loop := l, stores := stores } :=
  ⟨rfl, .put hquiet hconfig htimers hstopped hinbox, .refl _, fun _ => rfl⟩

/-- Listeners come and go without a change to the record. -/
theorem watch {w : World} {f : FiberId} {listeners : List (Nat × Listener)} {key : Nat}
    (h : w.notice? f = some (.pending listeners key)) (listeners' : List (Nat × Listener)) (key' : Nat) :
    w.Quiet (w.setNotice f (.pending listeners' key')) := by
  refine ⟨rfl, .refl _, .refl _, fun g => ?_⟩
  unfold World.notice? at h
  cases hf : w.fiber? f with
  | none =>
    rw [hf] at h
    cases h
  | some r =>
    rw [hf] at h
    have hnotice : r.notice = some (.pending listeners key) := h
    by_cases hg : f = g
    · subst hg
      have hself := World.record_modifyFiber_self hf
        fun r => { r with notice := some (.pending listeners' key') }
      rw [World.setNotice, hself, World.record, hf]
      simp [Fiber.core, hnotice, ExitNotice.core]
    · exact World.record_modifyFiber_of_ne hg w _

end World.Quiet

namespace Requested

theorem refl (w : World) : Requested w w := ⟨[], .refl w⟩

theorem trans {u v w : World} (h : Requested u v) (h' : Requested v w) : Requested u w := by
  obtain ⟨es, hfirst⟩ := h
  obtain ⟨es', hsecond⟩ := h'
  exact ⟨es ++ es', hfirst.append hsecond⟩

theorem quiet {w w' : World} (h : w.Quiet w') : Requested w w' := ⟨[], .one (.quiet h)⟩

theorem settle (w : World) (callback : Callback) (exit : Exit Value Value) :
    Requested w (w.settle callback exit) := ⟨_, .one (.settle w callback exit)⟩

/-- The stores, the session and the count of throws concern no fiber. -/
theorem besides (w : World) (stores : Stores) (session : Session) (caughtThrows : Nat) :
    Requested w { w with stores := stores, session := session, caughtThrows := caughtThrows } :=
  quiet (.besides w stores session caughtThrows)

theorem stores (w : World) (stores : Stores) : Requested w { w with stores := stores } :=
  quiet (.stores w stores)

/-- A quiet message is put into the inbox of the loop that runs. -/
theorem put {w : World} {l : EventLoop} {m : Message} (stores : Stores) (hquiet : m.isQuiet = true)
    (hconfig : l.config = w.loop.config) (htimers : l.timers = w.loop.timers)
    (hstopped : l.stopped = w.loop.stopped) (hinbox : l.inbox = w.loop.inbox ++ [m]) :
    Requested w { w with loop := l, stores := stores } :=
  quiet (.put stores hquiet hconfig htimers hstopped hinbox)

theorem watch {w : World} {f : FiberId} {listeners : List (Nat × Listener)} {key : Nat}
    (h : w.notice? f = some (.pending listeners key)) (listeners' : List (Nat × Listener)) (key' : Nat) :
    Requested w (w.setNotice f (.pending listeners' key')) := quiet (.watch h listeners' key')

/-! ## Deferreds -/

theorem settleAll (waiters : List (Nat × Callback)) (exit : Exit Value Value) (w : World) :
    Requested w (waiters.foldl (fun w waiter => w.settle waiter.2 exit) w) := by
  induction waiters generalizing w with
  | nil => exact refl w
  | cons waiter rest ih => exact trans (settle w waiter.2 exit) (ih _)

theorem completeDeferred (w : World) (d : DeferredId) (exit : Exit Value Value) :
    Requested w (w.completeDeferred d exit).2 := by
  unfold World.completeDeferred
  split
  · exact trans (stores w _) (settleAll _ exit _)
  · exact refl w

theorem awaitDeferred (w : World) (d : DeferredId) (callback : Callback) :
    Requested w (w.awaitDeferred d callback).2 := by
  unfold World.awaitDeferred
  split
  · exact stores w _
  · exact refl w
  · exact refl w

theorem leaveDeferred (w : World) (d : DeferredId) (key : Nat) : Requested w (w.leaveDeferred d key) := by
  unfold World.leaveDeferred
  split
  · exact stores w _
  · exact refl w

theorem requestShutdown (w : World) : Requested w w.requestShutdown := by
  unfold World.requestShutdown
  split
  · exact refl w
  · exact put w.stores (m := .shutdown) rfl rfl rfl rfl rfl

end Requested

/-- **Everything that the library lets a closure do is a request.** -/
instance : Permits Requested where
  refl := Requested.refl
  trans := Requested.trans
  supply w _ _ := Requested.stores w _
  makeDeferred w := Requested.stores w _
  completeDeferred := Requested.completeDeferred
  stores w stores _ _ := Requested.stores w stores
  cancelTimer w _ := Requested.stores w _
  session w s _ := Requested.besides w w.stores s w.caughtThrows
  caughtThrow w := Requested.besides w w.stores w.session _
  interrupt w f := ⟨_, .one (.interrupt w f)⟩
  settle := Requested.settle
  launch w root hook := ⟨_, .one (.launch w root hook)⟩
  dispatch w actions env :=
    Requested.put w.stores (m := .task (.actions actions env)) rfl rfl rfl rfl rfl
  schedule w delay {task} h :=
    Requested.put _ (m := .timer (w.clock + delay) ⟨w.stores.timers.size⟩ task) h rfl rfl rfl rfl
  requestShutdown := Requested.requestShutdown
  watch _ _ _ _ h := Requested.watch h
  awaitDeferred := Requested.awaitDeferred
  leaveDeferred := Requested.leaveDeferred

end FiberLoop
