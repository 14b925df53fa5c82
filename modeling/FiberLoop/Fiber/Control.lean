import FiberLoop.World.Basic

/-!
# Controlling fibers

How fibers are created and started, how a request to interrupt one takes effect, and how a callback is
completed. None of these runs any step of a fiber: what is to be run is queued on the fiber's home.

A run is handed from its record to a task exactly when the record leaves the suspended phase, and the epoch
moves on at the same time; `settle_of_epoch_ne` says that a callback of another epoch changes nothing, and
`interrupt_interrupt` that a second request does not either.
-/

namespace FiberLoop

namespace World

/-- Create a fiber that is not started yet. Its home is the loop that runs now. -/
def prepare (root : Effect) (hook : ExitHook) (notice : Option ExitNotice) (w : World) : FiberId × World :=
  let fiber : Fiber := { home := w.here, phase := .created root, hook := some hook, notice := notice }
  (⟨w.fibers.size⟩, { w with fibers := w.fibers.push fiber })

/-- Queue the first step of a fiber. -/
def start (f : FiberId) (w : World) : World := w.dispatch (.start f)

/-- Create a fiber and queue its first step. -/
def launch (root : Effect) (hook : ExitHook) (notice : Option ExitNotice) (w : World) : FiberId × World :=
  let (f, w) := w.prepare root hook notice
  (f, w.start f)

/-- Start a fiber whose exit can be waited for. -/
def fork (root : Effect) (w : World) : FiberId × World :=
  w.launch root .publish (some (.pending [] 0))

/-- Request that a fiber be interrupted. A fiber that is parked where it may be interrupted is unwound by a
task; any other finds the request at its next interruptible step. -/
def interrupt (f : FiberId) (w : World) : World :=
  match w.fiber? f with
  | none => w
  | some fiber =>
    if fiber.interruptRequested then w
    else
      match fiber.phase with
      | .suspended run canceler =>
        if run.masks.isInterruptible then
          (w.modifyFiber f fun r =>
            { r with interruptRequested := true, phase := .running, epoch := r.epoch + 1 }).dispatchTo
              fiber.home (.unwind f canceler run)
        else w.modifyFiber f fun r => { r with interruptRequested := true }
      | _ => w.modifyFiber f fun r => { r with interruptRequested := true }

/-- Request that several fibers be interrupted, in order. -/
def interruptAll (fibers : List FiberId) (w : World) : World :=
  fibers.foldl (fun w f => w.interrupt f) w

/-- Complete a callback. The first completion during the registration is kept for its end; one of a parked
fiber resumes it; any other comes too late. -/
def settle (callback : Callback) (exit : Exit Value Value) (w : World) : World :=
  match w.fiber? callback.fiber with
  | none => w
  | some fiber =>
    if fiber.epoch ≠ callback.epoch then w
    else
      match fiber.phase with
      | .registering early =>
        w.modifyFiber callback.fiber fun r =>
          { r with phase := .registering (early.or (some exit)) }
      | .suspended run _ =>
        (w.modifyFiber callback.fiber fun r =>
          { r with phase := .running, epoch := r.epoch + 1 }).dispatchTo
            fiber.home (.resume callback.fiber run (.ofExit exit))
      | _ => w

/-- Whether a request to interrupt applies to a fiber under the given masks. -/
def interruptPending (w : World) (f : FiberId) (masks : Masks) : Bool :=
  masks.isInterruptible && (w.fiber? f).any (·.interruptRequested)

theorem settle_of_epoch_ne {w : World} {cb : Callback} {fiber : Fiber}
    (hf : w.fiber? cb.fiber = some fiber) (h : fiber.epoch ≠ cb.epoch) (exit : Exit Value Value) :
    w.settle cb exit = w := by
  simp [settle, hf, h]

theorem interrupt_of_requested {w : World} {f : FiberId} {fiber : Fiber}
    (hf : w.fiber? f = some fiber) (h : fiber.interruptRequested = true) : w.interrupt f = w := by
  simp [interrupt, hf, h]

theorem fiber?_modifyFiber_self (w : World) (f : FiberId) (change : Fiber → Fiber) :
    (w.modifyFiber f change).fiber? f = (w.fiber? f).map change := by
  simp [fiber?, modifyFiber, Table.get?_modify]

theorem fiber?_modifyFiber_of_ne {f g : FiberId} (h : f ≠ g) (w : World) (change : Fiber → Fiber) :
    (w.modifyFiber f change).fiber? g = w.fiber? g := by
  have : f.index ≠ g.index := fun e => h (by cases f; cases g; simp_all)
  simp [fiber?, modifyFiber, Table.get?_modify, this]

@[simp] theorem fiber?_dispatch (w : World) (task : Task) (f : FiberId) :
    (w.dispatch task).fiber? f = w.fiber? f := rfl

@[simp] theorem fiber?_dispatchTo (w : World) (name : LoopName) (task : Task) (f : FiberId) :
    (w.dispatchTo name task).fiber? f = w.fiber? f := by
  unfold dispatchTo
  split <;> rfl

/-- After a request the flag of the fiber is set. -/
theorem interruptRequested_interrupt {w : World} {f : FiberId} {fiber : Fiber}
    (hf : w.fiber? f = some fiber) :
    ∃ fiber', (w.interrupt f).fiber? f = some fiber' ∧ fiber'.interruptRequested = true := by
  by_cases h : fiber.interruptRequested = true
  · exact ⟨fiber, by rw [interrupt_of_requested hf h]; exact hf, h⟩
  · simp only [interrupt, hf, if_neg h]
    split
    · split <;> simp [fiber?_modifyFiber_self, hf]
    · simp [fiber?_modifyFiber_self, hf]

/-- A second request to interrupt the same fiber changes nothing. -/
theorem interrupt_interrupt (w : World) (f : FiberId) : (w.interrupt f).interrupt f = w.interrupt f := by
  cases hf : w.fiber? f with
  | none => simp [interrupt, hf]
  | some fiber =>
    obtain ⟨fiber', hf', h⟩ := interruptRequested_interrupt hf
    exact interrupt_of_requested hf' h

end World

end FiberLoop
