import FiberLoop.Proofs.Closures.Waiting

/-!
# What closures may do to the world

`Permits R` says that the relation `R` between worlds allows each operation of the library one after the other, and
`act.Keeps R` that the computation `act` leaves the world related by `R` to the one that it was given. If `R`
permits the operations, then every closure keeps to it: nothing is hidden from it, and what it computes does not
matter (`Keeping`).
-/

namespace FiberLoop

/-- The relation `R` allows what the operations on semaphores and queues come down to. -/
class PermitsStores (R : World → World → Prop) : Prop where
  refl (w : World) : R w w
  trans {u v w : World} (first : R u v) (second : R v w) : R u w
  /-- Permits and items may change at will. -/
  supply (w : World) (semaphores : Table Semaphore) (queues : Table Queue) :
    R w { w with stores := { w.stores with semaphores := semaphores, queues := queues } }
  makeDeferred (w : World) : R w w.makeDeferred.2
  completeDeferred (w : World) (d : DeferredId) (exit : Exit Value Value) : R w (w.completeDeferred d exit).2

namespace PermitsStores

variable {R : World → World → Prop} [PermitsStores R]

theorem semaphores (w : World) (semaphores : Table Semaphore) :
    R w { w with stores := { w.stores with semaphores := semaphores } } := supply w semaphores w.stores.queues

theorem queues (w : World) (queues : Table Queue) : R w { w with stores := { w.stores with queues := queues } } :=
  supply w w.stores.semaphores queues

theorem wakeFirst (line : List DeferredId) (w : World) : R w (World.wakeFirst line w).2 := by
  induction line generalizing w with
  | nil => exact refl w
  | cons latch rest ih =>
    have hcomplete := completeDeferred (R := R) w latch (.value .null)
    unfold World.wakeFirst
    split
    · rename_i heq
      rw [heq] at hcomplete
      exact hcomplete
    · rename_i heq
      rw [heq] at hcomplete
      exact trans hcomplete (ih _)

theorem releasePermit (w : World) (s : SemaphoreId) : R w (w.releasePermit s) := by
  unfold World.releasePermit
  split
  · exact refl w
  · rename_i row _
    have hwake := wakeFirst (R := R) row.waiters w
    split
    · rename_i heq
      rw [heq] at hwake
      exact trans hwake (semaphores _ _)
    · rename_i heq
      rw [heq] at hwake
      exact trans hwake (semaphores _ _)

theorem tryAcquire (w : World) (s : SemaphoreId) : R w (w.tryAcquire s).2 := by
  unfold World.tryAcquire
  split
  · split
    · exact semaphores w _
    · exact refl w
  · exact refl w

theorem joinLine (w : World) (s : SemaphoreId) : R w (w.joinLine s).2 := by
  unfold World.joinLine
  dsimp only
  split
  · exact trans (makeDeferred w) (semaphores _ _)
  · exact makeDeferred w

theorem requestPermit (w : World) (s : SemaphoreId) : R w (w.requestPermit s).2 := by
  have hacquire := tryAcquire (R := R) w s
  unfold World.requestPermit
  split
  · rename_i heq
    rw [heq] at hacquire
    exact hacquire
  · rename_i heq
    rw [heq] at hacquire
    exact trans hacquire (joinLine _ s)

theorem abandonPermit (w : World) (s : SemaphoreId) (latch : DeferredId) : R w (w.abandonPermit s latch) := by
  unfold World.abandonPermit
  split
  · exact refl w
  · split
    · exact semaphores w _
    · split
      · exact releasePermit w s
      · exact refl w

theorem makeQueue (w : World) (policy : Overflow) : R w (w.makeQueue policy).2 := by
  unfold World.makeQueue
  cases policy with
  | bounded n =>
    exact supply w (w.stores.semaphores.push { permits := n })
      (w.stores.queues.push { policy := .bounded n, gate := some ⟨w.stores.semaphores.size⟩ })
  | _ => exact queues w _

theorem deliver (w : World) (q : QueueId) (item : Value) (place : Overflow → List Value → Value → List Value) :
    R w (w.deliver q item place) := by
  unfold World.deliver
  split
  · exact refl w
  · split
    · exact trans (completeDeferred w _ _) (queues _ _)
    · exact queues w _
    · exact queues w _

theorem joinQueue (w : World) (q : QueueId) : R w (w.joinQueue q).2 := by
  unfold World.joinQueue
  dsimp only
  split
  · exact trans (makeDeferred w) (queues _ _)
  · exact trans (makeDeferred w) (queues _ _)
  · exact makeDeferred w

theorem requestItem (w : World) (q : QueueId) : R w (w.requestItem q).2 := by
  unfold World.requestItem
  split
  · exact queues w _
  · exact joinQueue w q

theorem reclaimItem (w : World) (q : QueueId) (latch : DeferredId) : R w (w.reclaimItem q latch) := by
  unfold World.reclaimItem
  split
  · exact deliver w q _ _
  · exact refl w

theorem abandonItem (w : World) (q : QueueId) (latch : DeferredId) : R w (w.abandonItem q latch) := by
  unfold World.abandonItem
  split
  · split
    · exact queues w _
    · exact reclaimItem w q latch
  · exact reclaimItem w q latch

/-- A computation that is caught keeps to the relation if it did so before, and throws may be counted. -/
theorem caught {α : Type} (hthrow : ∀ w : World, R w { w with caughtThrows := w.caughtThrows + 1 }) {act : Act α}
    {w : World} (h : R w (act.run w).2) : R w (act.caught w).2 := by
  unfold Act.caught
  split
  · rename_i hrun
    rw [hrun] at h
    exact h
  · rename_i hrun
    rw [hrun] at h
    exact trans h (hthrow _)

end PermitsStores

/-- The relation `R` allows every operation but those that complete a callback or change the line of a deferred. -/
class PermitsCommon (R : World → World → Prop) : Prop extends PermitsStores R where
  /-- What is stored besides the deferreds and the timers may change at will. -/
  stores (w : World) (stores : Stores) (h : stores.deferreds = w.stores.deferreds)
    (htimers : stores.timers = w.stores.timers) : R w { w with stores := stores }
  cancelTimer (w : World) (timer : TimerId) : R w (w.cancelTimer timer)
  session (w : World) (s : Session) (h : s.definitions = w.session.definitions) : R w { w with session := s }
  caughtThrow (w : World) : R w { w with caughtThrows := w.caughtThrows + 1 }
  interrupt (w : World) (f : FiberId) : R w (w.interrupt f)
  launch (w : World) (root : Effect) (hook : ExitHook) : R w (w.launch root hook hook.notice).2
  dispatch (w : World) (actions : List Action) (env : Env) : R w (w.dispatch (.actions actions env))
  schedule (w : World) (delay : Nat) {task : Task} (h : task.isErrand = true) :
    R w (w.schedule delay task).2
  requestShutdown (w : World) : R w w.requestShutdown
  watch (w : World) {f : FiberId} {listeners : List (Nat × Listener)} {key : Nat}
    (h : w.notice? f = some (.pending listeners key)) (listeners' : List (Nat × Listener)) (key' : Nat) :
    R w (w.setNotice f (.pending listeners' key'))

/-- The relation `R` allows every operation of the library that a closure can perform. -/
class Permits (R : World → World → Prop) : Prop extends PermitsCommon R where
  settle (w : World) (callback : Callback) (exit : Exit Value Value) : R w (w.settle callback exit)
  awaitDeferred (w : World) (d : DeferredId) (callback : Callback) : R w (w.awaitDeferred d callback).2
  leaveDeferred (w : World) (d : DeferredId) (key : Nat) : R w (w.leaveDeferred d key)

namespace PermitsCommon

variable {R : World → World → Prop} [PermitsCommon R]

theorem races (w : World) (races : Table Race) : R w { w with stores := { w.stores with races := races } } :=
  stores w _ rfl rfl

theorem pairings (w : World) (pairings : Table Pairing) :
    R w { w with stores := { w.stores with pairings := pairings } } := stores w _ rfl rfl

/-- A computation that is caught keeps to the relation if it did so before. -/
theorem caught {α : Type} {act : Act α} {w : World} (h : R w (act.run w).2) : R w (act.caught w).2 :=
  PermitsStores.caught caughtThrow h

theorem enlist (w : World) (f : FiberId) (listener : Listener) : R w (w.enlist f listener).2 := by
  unfold World.enlist
  split
  · rename_i listeners key hnotice
    exact watch w hnotice _ _
  · exact PermitsStores.refl w
  · exact PermitsStores.refl w

theorem withdraw (w : World) (f : FiberId) (key : Nat) : R w (w.withdraw f key) := by
  unfold World.withdraw
  split
  · rename_i listeners next hnotice
    split
    · exact watch w hnotice _ _
    · exact PermitsStores.refl w
  · exact PermitsStores.refl w

/-- Two fibers without a notice are launched, the left one first. -/
theorem launchBoth (w : World) (left right : Effect) (leftHook rightHook : ExitHook)
    (hleft : leftHook.notice = none) (hright : rightHook.notice = none) :
    R w ((w.launch left leftHook none).2.launch right rightHook none).2 := by
  have hfirst := launch (R := R) w left leftHook
  have hsecond := launch (R := R) (w.launch left leftHook none).2 right rightHook
  rw [hleft] at hfirst
  rw [hright] at hsecond
  exact PermitsStores.trans hfirst hsecond

theorem startRace (left right : Effect) (callback : Callback) (w : World) :
    R w (w.startRace left right callback).2 := by
  have hopen := races (R := R) w (w.stores.races.push { callback := some callback })
  have hboth := launchBoth (R := R)
    { w with stores := { w.stores with races := w.stores.races.push { callback := some callback } } }
    left right (.race ⟨w.stores.races.size⟩ .left) (.race ⟨w.stores.races.size⟩ .right) rfl rfl
  have hname := fun rows => PermitsStores.trans hboth (races _ rows)
  exact PermitsStores.trans hopen (hname _)

theorem startPairing (left right : Effect) (f : Combine) (callback : Callback) (w : World) :
    R w (w.startPairing left right f callback).2 := by
  have hopen := pairings (R := R) w
    (w.stores.pairings.push { callback := some callback, combine := f })
  have hboth := launchBoth (R := R)
    { w with stores := { w.stores with
      pairings := w.stores.pairings.push { callback := some callback, combine := f } } }
    left right (.parZip ⟨w.stores.pairings.size⟩ .left) (.parZip ⟨w.stores.pairings.size⟩ .right) rfl rfl
  have hname := fun rows => PermitsStores.trans hboth (pairings _ rows)
  exact PermitsStores.trans hopen (hname _)

end PermitsCommon

namespace Act

/-- A computation leaves the world related to the one it was given, whether it returns or throws. -/
def Keeps (R : World → World → Prop) {α : Type} (act : Act α) : Prop := ∀ w, R w (act.run w).2

namespace Keeps

variable {R : World → World → Prop} [Permits R] {α β : Type}

/-- A computation that is caught keeps to the relation too. -/
theorem caught {act : Act α} (h : Keeps R act) (w : World) : R w (act.caught w).2 := PermitsCommon.caught (h w)

theorem attempt {act : Act α} (h : Keeps R act) (w : World) : R w (act.attempt w) := h.caught w

end Keeps

end Act

/-- The judgement that a computation keeps to a relation. -/
def Keeping (R : World → World → Prop) : Judgement := fun _ act Q =>
  ∀ w, R w (act.run w).2 ∧ ∀ a, (act.run w).1 = .ok a → Q a

namespace Keeping

open Act

variable {R : World → World → Prop} [Permits R] {α β : Type} {Q : α → Prop}

omit [Permits R] in
theorem keeps {act : Act α} (h : Keeping R α act Q) : Keeps R act := fun w => (h w).1

omit [Permits R] in
/-- An operation that changes the world and returns. -/
theorem updateGet {f : World → α × World} (h : ∀ w, R w (f w).2) (hQ : ∀ a, Q a) :
    Keeping R α (Act.updateGet f) Q := fun w => ⟨h w, fun a _ => hQ a⟩

omit [Permits R] in
theorem update {f : World → World} (h : ∀ w, R w (f w)) : Keeping R Unit (Act.update f) fun _ => True :=
  updateGet (f := fun w => ((), f w)) h fun _ => trivial

omit [Permits R] in
theorem bind [PermitsStores R] {act : Act α} {k : α → Act β} {P : β → Prop} (h : Keeping R α act Q)
    (hk : ∀ a, Q a → Keeping R β (k a) P) : Keeping R β (act >>= k) P := by
  intro w
  obtain ⟨hact, hresult⟩ := h w
  rw [run_bind]
  cases hrun : act.run w with
  | mk result v =>
    rw [hrun] at hact hresult
    cases result with
    | ok a =>
      obtain ⟨hnext, hlast⟩ := hk a (hresult a rfl) v
      exact ⟨PermitsStores.trans hact hnext, hlast⟩
    | error d => exact ⟨hact, nofun⟩

/-- Keeping to a relation that permits the operations of the library is passed on to all closures. -/
instance : TracksAll .everything (Keeping R) where
  everything _ := trivial
  used _ := trivial
  pure h w := ⟨PermitsStores.refl w, fun _ ha => Except.ok.inj ha ▸ h⟩
  throw _ w := ⟨PermitsStores.refl w, nofun⟩
  bind := bind
  read _ h w := h w w.confined_everything w
  caught h w := ⟨Keeps.caught (keeps h) w, fun _ hresult a ha =>
    (h w).2 a ((caught_fst _ w).symm.trans ((Except.ok.inj hresult).trans ha))⟩
  session _ hdefinitions h w := ⟨PermitsCommon.session w _ (hdefinitions w.session), fun _ ha =>
    Except.ok.inj ha ▸ (h w.session w.confined_everything.session).2⟩
  freshSerial := updateGet (fun w => PermitsCommon.stores w _ rfl rfl) fun _ => trivial
  interrupt f := update fun w => PermitsCommon.interrupt w f
  settle _ _ _ := update fun w => Permits.settle w _ _
  launch _ hook _ := updateGet (fun w => PermitsCommon.launch w _ hook) fun _ => trivial
  dispatch actions _ _ := update fun w => PermitsCommon.dispatch w actions _
  schedule delay _ herrand _ := updateGet (fun w => PermitsCommon.schedule w delay herrand) fun _ => trivial
  cancelTimer _ := update fun w => PermitsCommon.cancelTimer w _
  requestShutdown := update PermitsCommon.requestShutdown
  enlist f listener _ := updateGet (fun w => PermitsCommon.enlist w f listener) fun _ _ _ _ _ => trivial
  withdraw f key := update fun w => PermitsCommon.withdraw w f key
  makeCell _ := updateGet (fun w => PermitsCommon.stores w _ rfl rfl) fun _ => trivial
  setCell _ _ _ := update fun w => PermitsCommon.stores w _ rfl rfl
  completeDeferred _ _ _ := updateGet (fun w => PermitsStores.completeDeferred w _ _) fun _ => trivial
  awaitDeferred _ _ _ _ _ := updateGet (fun w => Permits.awaitDeferred w _ _) fun _ _ _ _ _ => trivial
  leaveDeferred _ _ _ key := update fun w => Permits.leaveDeferred w _ key
  offerItem _ _ _ := update fun w => PermitsStores.deliver w _ _ _
  putBackItem _ _ _ := update fun w => PermitsStores.deliver w _ _ _
  abandonItem _ _ _ := update fun w => PermitsStores.abandonItem w _ _
  startRace _ _ _ _ _ := updateGet (PermitsCommon.startRace _ _ _) fun _ => trivial
  modifyRace _ _ _ := update fun w => PermitsCommon.races w _
  startPairing _ _ _ _ _ _ _ := updateGet (PermitsCommon.startPairing _ _ _ _) fun _ => trivial
  modifyPairing _ _ _ := update fun w => PermitsCommon.pairings w _
  makeDeferred := updateGet PermitsStores.makeDeferred fun _ => trivial
  makeSemaphore _ := updateGet (fun w => PermitsCommon.stores w _ rfl rfl) fun _ => trivial
  makeQueue policy := updateGet (fun w => PermitsStores.makeQueue w policy) fun _ => trivial
  requestPermit s := updateGet (fun w => PermitsStores.requestPermit w s) fun _ => trivial
  tryAcquire s := updateGet (fun w => PermitsStores.tryAcquire w s) fun _ => trivial
  releasePermit s := update fun w => PermitsStores.releasePermit w s
  abandonPermit s latch := update fun w => PermitsStores.abandonPermit w s latch
  requestItem q := updateGet (fun w => PermitsStores.requestItem w q) fun _ => trivial

end Keeping

/-! ## All closures keep to what the operations permit -/

namespace Act.Keeps

variable {R : World → World → Prop} [TracksMaking .everything (Keeping R)]

theorem build (env : Env) (p : Program) : Keeps R (p.build env) :=
  (Tracks.build (J := Keeping R) (fun _ _ => trivial) p).keeps

theorem actions (env : Env) (callback : Option Callback) (list : List Action) :
    Keeps R (Action.runAll env callback list) :=
  (Tracks.actions (J := Keeping R) (fun _ _ => trivial) (fun _ _ => trivial) list).keeps

theorem registration (r : Registration) (callback : Callback) : Keeps R (r.run callback) :=
  (Tracks.registration (J := Keeping R) (fun _ _ => trivial) trivial (fun _ => trivial) fun _ => trivial).keeps

theorem canceler (c : Canceler) : Keeps R c.cancel :=
  (Tracks.canceler (J := Keeping R) (fun _ _ => trivial) fun _ => trivial).keeps

theorem tellAll (listeners : List (Nat × Listener)) (x : Exit Value Value) :
    Keeps R (listeners.forM fun listener => listener.2.notify x) :=
  (Tracks.forM (J := Keeping R) listeners fun listener _ =>
    Tracks.notify listener.2.in_everything fun _ _ => trivial).keeps

/-- Every hook keeps to the relation, except that of a fiber which publishes its exit: it fills its own notice. -/
theorem exitHook {hook : ExitHook} (f : FiberId) (x : Exit Value Value) (h : hook ≠ .publish) :
    Keeps R (hook.run f x) :=
  (Tracks.exitHook (J := Keeping R) f (fun _ _ => trivial) (fun _ _ => trivial) fun hpublish => absurd hpublish h).keeps

theorem scenario (op : ScenarioOp) : Keeps R op.perform := (TracksAll.scenario (J := Keeping R) op).keeps

end Act.Keeps

end FiberLoop
