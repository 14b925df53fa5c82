import FiberLoop.Fiber.Control

/-!
# Deferreds

A deferred is completed once; the first completion fixes its exit for ever and resumes everybody who waits, in
the order of arrival. Whoever comes later gets the exit at once.
-/

namespace FiberLoop

/-- The result of asking a deferred for its exit. -/
inductive Waiting where
  /-- The exit is there. -/
  | settled (exit : Exit Value Value)
  /-- The callback waits under a key. -/
  | queued (key : Nat)

namespace World

def deferred? (w : World) (d : DeferredId) : Option Deferred := w.stores.deferreds.get? d.index

def setDeferred (d : DeferredId) (row : Deferred) (w : World) : World :=
  { w with stores := { w.stores with deferreds := w.stores.deferreds.set d.index row } }

/-- A new deferred. -/
def makeDeferred (w : World) : DeferredId × World :=
  (⟨w.stores.deferreds.size⟩,
    { w with stores := { w.stores with deferreds := w.stores.deferreds.push .fresh } })

/-- The exit of a deferred, once it is there. -/
def pollDeferred (d : DeferredId) (w : World) : Option (Exit Value Value) :=
  (w.deferred? d).bind Deferred.exit?

/-- Complete a deferred; the answer says whether this completion was the first. -/
def completeDeferred (d : DeferredId) (exit : Exit Value Value) (w : World) : Bool × World :=
  match w.deferred? d with
  | some (.pending waiters _) =>
    (true, waiters.foldl (fun w waiter => w.settle waiter.2 exit) (w.setDeferred d (.done exit)))
  | _ => (false, w)

/-- Wait for a deferred with a callback. -/
def awaitDeferred (d : DeferredId) (callback : Callback) (w : World) : Option Waiting × World :=
  match w.deferred? d with
  | some (.pending waiters key) =>
    (some (.queued key), w.setDeferred d (.pending (waiters ++ [(key, callback)]) (key + 1)))
  | some (.done exit) => (some (.settled exit), w)
  | none => (none, w)

/-- Leave the line of a deferred. -/
def leaveDeferred (d : DeferredId) (key : Nat) (w : World) : World :=
  match w.deferred? d with
  | some (.pending waiters next) => w.setDeferred d (.pending (waiters.eraseP (·.1 == key)) next)
  | _ => w

theorem deferred?_setDeferred_self {w : World} {d : DeferredId} {row old : Deferred} (h : w.deferred? d = some old) :
    (w.setDeferred d row).deferred? d = some row := by
  show (w.stores.deferreds.set d.index row).get? d.index = _
  rw [Table.get?_set, if_pos rfl]
  exact congrArg (Option.map fun _ => row) h

theorem deferred?_setDeferred_of_ne {w : World} {d d' : DeferredId} {row : Deferred} (h : d' ≠ d) :
    (w.setDeferred d row).deferred? d' = w.deferred? d' := by
  show (w.stores.deferreds.set d.index row).get? d'.index = _
  rw [Table.get?_set, if_neg fun he => h (congrArg DeferredId.mk he).symm]
  rfl

/-- A completed deferred keeps its exit. -/
theorem completeDeferred_of_done {w : World} {d : DeferredId} {exit : Exit Value Value}
    (h : w.pollDeferred d = some exit) (exit' : Exit Value Value) :
    w.completeDeferred d exit' = (false, w) := by
  unfold pollDeferred at h
  unfold completeDeferred
  cases hd : w.deferred? d with
  | none => simp
  | some row =>
    cases row with
    | pending waiters key => simp [hd, Deferred.exit?] at h
    | done x => rfl

end World

end FiberLoop
