import FiberLoop.Proofs.Closures.Scope

/-!
# What closures are made of

A closure is a computation on the world that may throw. Whatever it computes, it changes the world only by the
operations of the library: it completes callbacks, requests interruptions, launches fibers, queues tasks, uses
the stores and notes things in the session. None of them runs a step of a fiber, and none of them asks whether
the interruption of a fiber was requested.

`Tracks V J` says that the judgement `J` about computations and their results holds of each of these operations
and is passed on from the parts of a computation to the whole. `Observes V J` says this of the little that evaluates
an expression, and `TracksReading V J` of everything but writing to a cell. What is known in the scope `V` is used
only inside it: a closure that is given what the scope has yields nothing else. So whatever is shown of the operations
once holds of all closures: `Tracks.thunk`, `Tracks.continuation`, `Tracks.recovery`, `Tracks.registration`,
`Tracks.canceler`, `Tracks.exitHook` and `Tracks.scenario`.

The operations that hand out something new, a deferred, a semaphore or a queue, are left out here, and so are
those on the permits of a semaphore. A closure that performs one of them does nothing else, so they are treated
one by one where it matters.
-/

namespace FiberLoop

/-- The notice with which a fiber starts: a fiber that publishes its exit has an empty one. -/
def ExitHook.notice : ExitHook → Option ExitNotice
  | .publish => some (.pending [] 0)
  | _ => none

/-- Whether a task goes on with no fiber. -/
def Task.isErrand : Task → Bool
  | .succeed .. | .actions .. => true
  | .start _ | .resume .. | .unwind .. => false

namespace World

/-- Set the flag of a fiber, and nothing else. -/
def raise (f : FiberId) (w : World) : World := w.modifyFiber f fun r => { r with interruptRequested := true }

theorem fiber?_raise (w : World) (f g : FiberId) :
    (w.raise f).fiber? g =
      (w.fiber? g).map fun r => if f = g then { r with interruptRequested := true } else r := by
  by_cases h : f = g
  · subst h
    simp [raise, fiber?_modifyFiber_self]
  · simp [raise, fiber?_modifyFiber_of_ne h, h]

/-- What does not look at the flag of a record is the same after a flag was set. -/
theorem reading_raise {β : Type} (look : Option Fiber → β)
    (hlook : ∀ r : Fiber, look (some { r with interruptRequested := true }) = look (some r)) (w : World)
    (f g : FiberId) : look ((w.raise f).fiber? g) = look (w.fiber? g) := by
  rw [fiber?_raise]
  cases w.fiber? g with
  | none => rfl
  | some r =>
    simp only [Option.map_some]
    split
    · exact hlook r
    · rfl

theorem fiberState_raise (w : World) (f g : FiberId) : (w.raise f).fiberState g = w.fiberState g :=
  reading_raise (fun o => o.elim FiberState.runnable Fiber.state) (fun _ => rfl) w f g

theorem isDone_raise (w : World) (f g : FiberId) :
    ((w.raise f).fiber? g).any Fiber.isDone = (w.fiber? g).any Fiber.isDone :=
  reading_raise (fun o => o.any Fiber.isDone) (fun _ => rfl) w f g

theorem notice?_raise (w : World) (f g : FiberId) : (w.raise f).notice? g = w.notice? g :=
  reading_raise (fun o => o.bind (·.notice)) (fun _ => rfl) w f g

theorem debugHandle_raise (w : World) (f g : FiberId) : (w.raise f).debugHandle g = w.debugHandle g := by
  unfold debugHandle
  rw [fiberState_raise]

theorem fiberReport_raise (w : World) (f g : FiberId) : (w.raise f).fiberReport g = w.fiberReport g := by
  have hexit := reading_raise (fun o => o.bind Fiber.exit?) (fun _ => rfl) w f g
  simp only [fiberReport, fiberState_raise, isDone_raise, hexit]

/-- Put a listener into the notice of a fiber. The answer is its key, or the exit if it is there. -/
def enlist (f : FiberId) (listener : Listener) (w : World) : Option (Nat ⊕ Exit Value Value) × World :=
  match w.notice? f with
  | some (.pending listeners key) =>
    (some (.inl key), w.setNotice f (.pending (listeners ++ [(key, listener)]) (key + 1)))
  | some (.done exit) => (some (.inr exit), w)
  | none => (none, w)

end World

/-- A statement about a computation and what its results are like. -/
abbrev Judgement := (α : Type) → Act α → (α → Prop) → Prop

/-- The judgement `J` holds of what evaluates an expression in the scope `V`, and is passed on from the parts to the
whole. -/
class Observes (V : outParam Scope) (J : Judgement) : Prop where
  pure {α : Type} {Q : α → Prop} {a : α} (h : Q a) : J α (Pure.pure a) Q
  throw {α : Type} {Q : α → Prop} (d : Defect) : J α (throw d) Q
  bind {α β : Type} {act : Act α} {k : α → Act β} {Q : α → Prop} {P : β → Prop} (h : J α act Q)
    (hk : ∀ a, Q a → J β (k a) P) : J β (act >>= k) P
  /-- What is read from the world does not depend on the flag of any fiber. -/
  read {α : Type} {Q : α → Prop} {k : World → Act α} (hk : ∀ w f, k (w.raise f) = k w)
    (h : ∀ w, w.Confined V → J α (k w) Q) : J α (get >>= k) Q
  freshSerial : J _ (Act.updateGet World.freshSerial) fun _ => True

/-- The judgement `J` also holds of the other operations of the library, apart from writing to a cell, and of a
computation that is caught. -/
class TracksReading (V : outParam Scope) (J : Judgement) : Prop extends Observes V J where
  caught {α : Type} {act : Act α} {Q : α → Prop} (h : J α act Q) :
    J _ (Act.updateGet act.caught) fun result => ∀ a, result = .ok a → Q a
  /-- The session changes, but for the definitions. -/
  session {α : Type} {Q : α → Prop} (change : Session → α × Session)
    (hdefinitions : ∀ s, (change s).2.definitions = s.definitions)
    (h : ∀ s, s.In V → (change s).2.In V ∧ Q (change s).1) :
    J α (Act.updateGet fun w => ((change w.session).1, { w with session := (change w.session).2 })) Q
  interrupt (f : FiberId) : J _ (Act.update (World.interrupt f)) fun _ => True
  settle {callback : Callback} (hcallback : V.callback callback) {x : Exit Value Value} (h : Value.ExitIn V x) :
    J _ (Act.update (World.settle callback x)) fun _ => True
  launch {root : Effect} (h : root.In V) (hook : ExitHook) (hhook : hook.joint? = none) :
    J _ (Act.updateGet (World.launch root hook hook.notice)) fun _ => True
  dispatch (actions : List Action) {env : Env} (h : env.In V) :
    J _ (Act.update (World.dispatch (.actions actions env))) fun _ => True
  schedule (delay : Nat) {task : Task} (herrand : task.isErrand = true) (h : task.In V) :
    J _ (Act.updateGet (World.schedule delay task)) fun _ => True
  cancelTimer (timer : TimerId) : J _ (Act.update (World.cancelTimer timer)) fun _ => True
  requestShutdown : J _ (Act.update World.requestShutdown) fun _ => True
  enlist (f : FiberId) {listener : Listener} (h : listener.In V) :
    J _ (Act.updateGet (World.enlist f listener)) fun answer => ∀ x, answer = some (.inr x) → Value.ExitIn V x
  withdraw (f : FiberId) (key : Nat) : J _ (Act.update (World.withdraw f key)) fun _ => True
  makeCell {initial : Value} (h : initial.In V) : J _ (Act.updateGet (World.makeCell initial)) fun _ => True
  completeDeferred {d : DeferredId} (hd : V.mentions (.deferred d)) {x : Exit Value Value} (h : Value.ExitIn V x) :
    J _ (Act.updateGet (World.completeDeferred d x)) fun _ => True
  awaitDeferred (hlines : V.lines) {d : DeferredId} (hd : V.mentions (.wait d)) {callback : Callback}
    (h : V.callback callback) :
    J _ (Act.updateGet (World.awaitDeferred d callback)) fun answer =>
      ∀ x, answer = some (.settled x) → Value.ExitIn V x
  leaveDeferred (hlines : V.lines) {d : DeferredId} (hd : V.mentions (.wait d)) (key : Nat) :
    J _ (Act.update (World.leaveDeferred d key)) fun _ => True
  offerItem {q : QueueId} (hq : V.queue q) {item : Value} (h : item.In V) :
    J _ (Act.update (World.offerItem q item)) fun _ => True
  putBackItem {q : QueueId} (hq : V.queue q) {item : Value} (h : item.In V) :
    J _ (Act.update (World.putBackItem q item)) fun _ => True
  abandonItem {q : QueueId} (hq : V.queue q) {latch : DeferredId} (h : V.mentions (.wait latch)) :
    J _ (Act.update (World.abandonItem q latch)) fun _ => True
  startRace {left right : Effect} (hleft : left.In V) (hright : right.In V) {callback : Callback}
    (h : V.callback callback) (hstarts : V.starts) :
    J _ (Act.updateGet (World.startRace left right callback)) fun _ => True
  modifyRace {r : RaceId} (hr : V.joint (.race r)) {change : Race → Race} (h : ∀ row, row.In V → (change row).In V) :
    J _ (Act.update (World.modifyRace r change)) fun _ => True
  startPairing {left right : Effect} (hleft : left.In V) (hright : right.In V) {f : Combine} (hf : f.In V)
    {callback : Callback} (h : V.callback callback) (hstarts : V.starts) :
    J _ (Act.updateGet (World.startPairing left right f callback)) fun _ => True
  modifyPairing {p : PairingId} (hp : V.joint (.pairing p)) {change : Pairing → Pairing} (h : ∀ row, row.In V → (change row).In V) :
    J _ (Act.update (World.modifyPairing p change)) fun _ => True

/-- The judgement `J` also holds of writing to a cell. -/
class Tracks (V : outParam Scope) (J : Judgement) : Prop extends TracksReading V J where
  setCell (c : CellId) {v : Value} (h : v.In V) : J _ (Act.update (World.setCell c v)) fun _ => True

/-- A judgement in a scope where everything may be mentioned also holds of the operations that hand out something
new and of those on permits. -/
class TracksMaking (V : outParam Scope) (J : Judgement) : Prop extends TracksReading V J where
  everything : ∀ d, V.mentions d
  used : ∀ q, V.queue q
  makeDeferred : J _ (Act.updateGet World.makeDeferred) fun _ => True
  makeSemaphore (permits : Nat) : J _ (Act.updateGet (World.makeSemaphore permits)) fun _ => True
  makeQueue (policy : Overflow) : J _ (Act.updateGet (World.makeQueue policy)) fun _ => True
  requestPermit (s : SemaphoreId) : J _ (Act.updateGet (World.requestPermit s)) fun _ => True
  tryAcquire (s : SemaphoreId) : J _ (Act.updateGet (World.tryAcquire s)) fun _ => True
  releasePermit (s : SemaphoreId) : J _ (Act.update (World.releasePermit s)) fun _ => True
  abandonPermit (s : SemaphoreId) (latch : DeferredId) :
    J _ (Act.update (World.abandonPermit s latch)) fun _ => True
  requestItem (q : QueueId) : J _ (Act.updateGet (World.requestItem q)) fun _ => True

/-- A judgement in a scope where everything may be mentioned holds of all operations of the library. -/
class TracksAll (V : outParam Scope) (J : Judgement) : Prop extends TracksMaking V J, Tracks V J

namespace TracksAll

export TracksMaking (everything used makeDeferred makeSemaphore makeQueue requestPermit tryAcquire releasePermit
  abandonPermit requestItem)

end TracksAll

namespace Act

section Running

variable {α β : Type}

@[simp] theorem run_get (w : World) : (get : Act World).run w = (.ok w, w) := rfl

@[simp] theorem run_update (f : World → World) (w : World) : (Act.update f).run w = (.ok (), f w) := rfl

@[simp] theorem run_updateGet (f : World → α × World) (w : World) :
    (Act.updateGet f).run w = (.ok (f w).1, (f w).2) := rfl

/-- Computations are the same if they do the same in every world. -/
theorem run_ext {act act' : Act α} (h : ∀ w, act.run w = act'.run w) : act = act' := funext h

/-- A computation that goes on with another one: the second runs in the world that the first leaves, unless
the first throws. -/
theorem run_bind (act : Act α) (k : α → Act β) (w : World) :
    (act >>= k).run w = match act.run w with
      | (.ok a, v) => (k a).run v
      | (.error d, v) => (.error d, v) := by
  show (ExceptT.bind act k).run w = _
  simp only [ExceptT.bind, ExceptT.run, ExceptT.mk, Bind.bind, StateT.bind]
  cases act w with
  | mk result v => cases result <;> rfl

theorem caught_fst (act : Act α) (w : World) : (act.caught w).1 = (act.run w).1 := by
  unfold Act.caught
  split <;> simp_all

end Running

end Act

namespace Observes

variable {V : Scope} {J : Judgement} [observes : Observes V J] {α β : Type} {Q : α → Prop}

include observes

/-- What is known of the results may be forgotten. -/
theorem mono {P : α → Prop} {act : Act α} (h : J α act Q) (hP : ∀ a, Q a → P a) : J α act P := by
  have hbind : J α (act >>= Pure.pure) P := bind h fun a ha => pure (hP a ha)
  rwa [bind_pure] at hbind

theorem throwText (message : String) : J α (Act.throwText message) Q := throw _

theorem mapM {f : α → Act β} {P : β → Prop} (items : List α) (h : ∀ a ∈ items, J β (f a) P) :
    J _ (items.mapM f) fun results => ∀ b ∈ results, P b := by
  induction items with
  | nil => exact pure nofun
  | cons a rest ih =>
    rw [List.mapM_cons]
    refine bind (h a List.mem_cons_self) fun b hb => ?_
    refine bind (ih fun a' ha' => h a' (List.mem_cons_of_mem _ ha')) fun bs hbs => pure ?_
    exact List.forall_mem_cons.2 ⟨hb, hbs⟩

theorem forM {f : α → Act PUnit} (items : List α) (h : ∀ a ∈ items, J _ (f a) fun _ => True) :
    J _ (items.forM f) fun _ => True := by
  induction items with
  | nil => exact pure trivial
  | cons a rest ih =>
    exact bind (h a List.mem_cons_self) fun _ _ => ih fun a' ha' => h a' (List.mem_cons_of_mem _ ha')

end Observes

namespace Tracks

export Observes (pure throw bind read freshSerial mono throwText mapM forM)

export TracksReading (caught session interrupt settle launch dispatch schedule cancelTimer requestShutdown enlist
  withdraw makeCell completeDeferred awaitDeferred leaveDeferred offerItem putBackItem abandonItem startRace modifyRace
  startPairing modifyPairing)

variable {V : Scope} {J : Judgement} [tracks : TracksReading V J] {α : Type} {Q : α → Prop}

include tracks

/-- Only the session changes. -/
theorem updateSession (change : Session → Session) (hdefinitions : ∀ s, (change s).definitions = s.definitions)
    (h : ∀ s, s.In V → (change s).In V) :
    J _ (Act.update fun w => { w with session := change w.session }) fun _ => True :=
  session (fun s => ((), change s)) hdefinitions fun s hs => ⟨h s hs, trivial⟩

end Tracks

end FiberLoop
