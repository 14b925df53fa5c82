import FiberLoop.Proofs.Runtime.Coverage
import FiberLoop.Proofs.Runtime.Shelter

/-!
# Closures do not hear the flag of a sheltered fiber

Nothing that a closure does depends on whether the interruption of a fiber was requested, except that a fiber which
is parked where it may be interrupted is unwound. A fiber under the shield never is. So a closure that runs after
the flag of such a fiber was set does the same as if it had not been, returns the same, and leaves the same world
but for the flag.

The main result of this module is that `Deaf` is passed on from the operations of the library to all closures.
-/

namespace FiberLoop

namespace World

/-- A fiber whose effect is the uninterruptible `body`. -/
def Sheltered (f : FiberId) (body : Effect) (w : World) : Prop :=
  ∃ a p, Fits f (w.view f a) p ∧ Sealed body p.standing

variable {w v : World} {f : FiberId} {body : Effect}

/-- Requests leave a fiber under its shield. -/
theorem Sheltered.requested (h : w.Sheltered f body) (hrequested : Requested w v) : v.Sheltered f body := by
  obtain ⟨a, p, hfits, hsealed⟩ := h
  obtain ⟨es, hrequests⟩ := hrequested
  obtain ⟨q, hmoves, hfits'⟩ := hrequests.fits hfits
  exact ⟨a, q, hfits', hsealed.moves hmoves⟩

/-- A fiber under its shield is there, and where it is parked it is masked. -/
theorem Sheltered.masked (h : w.Sheltered f body) :
    ∃ r, w.fiber? f = some r ∧
      ∀ run canceler, r.phase = .suspended run canceler → run.masks.isInterruptible = false := by
  obtain ⟨a, p, hfits, hsealed⟩ := h
  obtain ⟨home, hrecord⟩ := hfits.record
  obtain ⟨r, hr, hcore⟩ := fiber?_of_record hrecord
  refine ⟨r, hr, fun run canceler hphase => ?_⟩
  have hstanding : p.standing.phase = .suspended run canceler := by
    rw [← Place.phase_record p home, ← hcore]
    exact hphase
  rw [Standing.phase_eq_suspended hstanding] at hsealed
  exact hsealed.within_of_parked.masked

/-! ## Operations after a flag was set -/

/-- A flag that is set stays as it is. -/
theorem raise_eq_self (h : ∀ r, w.fiber? f = some r → r.interruptRequested = true) : w.raise f = w := by
  have hfibers : w.fibers.modify f.index (fun r => { r with interruptRequested := true }) = w.fibers :=
    Table.modify_eq_self fun r hr => by rw [← h r hr]
  simp only [raise, modifyFiber, hfibers]

theorem requested_raise {r : Fiber} (h : (w.raise f).fiber? f = some r) : r.interruptRequested = true := by
  rw [fiber?_raise] at h
  obtain ⟨r', -, rfl⟩ := Option.map_eq_some_iff.1 h
  rw [if_pos rfl]

theorem raise_raise (w : World) (f : FiberId) : (w.raise f).raise f = w.raise f :=
  raise_eq_self fun _ => requested_raise

/-- A change of a record that has nothing to do with the flag. -/
theorem modifyFiber_raise {change : Fiber → Fiber}
    (h : ∀ r : Fiber, change { r with interruptRequested := true } = { change r with interruptRequested := true })
    (w : World) (f g : FiberId) : (w.raise f).modifyFiber g change = (w.modifyFiber g change).raise f := by
  simp only [raise, modifyFiber]
  rw [Table.modify_modify_comm _ fun _ r => (h r).symm]

theorem dispatchTo_raise (w : World) (f : FiberId) (name : LoopName) (task : Task) :
    (w.raise f).dispatchTo name task = (w.dispatchTo name task).raise f := by
  by_cases hname : name = w.here
  · simp [dispatchTo, dispatch, raise, modifyFiber, hname]
  · simp [dispatchTo, raise, modifyFiber, hname]

/-- Setting a flag changes nothing else of any record. -/
theorem fiber?_raise_some {g : FiberId} {r : Fiber} (h : w.fiber? g = some r) (f : FiberId) :
    ∃ r', (w.raise f).fiber? g = some r' ∧ r'.epoch = r.epoch ∧ r'.phase = r.phase ∧ r'.home = r.home ∧
      (f ≠ g → r'.interruptRequested = r.interruptRequested) := by
  rw [fiber?_raise, h, Option.map_some]
  split
  · rename_i heq
    exact ⟨_, rfl, rfl, rfl, rfl, fun hne => absurd heq hne⟩
  · exact ⟨_, rfl, rfl, rfl, rfl, fun _ => rfl⟩

theorem fiber?_raise_none {g : FiberId} (h : w.fiber? g = none) (f : FiberId) : (w.raise f).fiber? g = none := by
  rw [fiber?_raise, h, Option.map_none]

theorem settle_raise (w : World) (f : FiberId) (callback : Callback) (x : Exit Value Value) :
    (w.raise f).settle callback x = (w.settle callback x).raise f := by
  cases hr : w.fiber? callback.fiber with
  | none => simp only [settle, hr, fiber?_raise_none hr]
  | some r =>
    obtain ⟨r', hr', hepoch, hphase, hhome, -⟩ := fiber?_raise_some hr f
    simp only [settle, hr, hr', hepoch, hphase, hhome]
    split
    · rfl
    · split
      · exact modifyFiber_raise (fun _ => rfl) w f _
      · rw [modifyFiber_raise (fun _ => rfl), dispatchTo_raise]
      · rfl

/-- **A request to interrupt a sheltered fiber sets its flag and nothing else.** -/
theorem Sheltered.interrupt (h : w.Sheltered f body) :
    w.interrupt f = w.raise f ∨ w.interrupt f = w ∧ w.raise f = w := by
  obtain ⟨r, hr, hmasked⟩ := h.masked
  simp only [World.interrupt, hr]
  split
  · rename_i hflag
    exact Or.inr ⟨rfl, raise_eq_self fun r' hr' => Option.some.inj (hr.symm.trans hr') ▸ hflag⟩
  · split
    · rename_i run canceler hphase
      rw [hmasked run canceler hphase]
      exact Or.inl rfl
    · exact Or.inl rfl

theorem Sheltered.raise_interrupt (h : w.Sheltered f body) (g : FiberId) :
    (w.raise f).interrupt g = (w.interrupt g).raise f := by
  by_cases hg : g = f
  · subst hg
    have hraised : (w.raise g).interrupt g = w.raise g := by
      obtain ⟨r, hr, -⟩ := h.masked
      obtain ⟨r', hr', -⟩ := fiber?_raise_some hr g
      exact interrupt_of_requested hr' (requested_raise hr')
    rcases h.interrupt with hinterrupt | ⟨hinterrupt, -⟩
    · rw [hraised, hinterrupt, raise_raise]
    · rw [hraised, hinterrupt]
  · cases hr : w.fiber? g with
    | none => simp only [World.interrupt, hr, fiber?_raise_none hr]
    | some r =>
      obtain ⟨r', hr', hepoch, hphase, hhome, hflag⟩ := fiber?_raise_some hr f
      simp only [World.interrupt, hr, hr', hphase, hhome, hflag (Ne.symm hg)]
      split
      · rfl
      · split
        · split
          · rw [modifyFiber_raise (fun _ => rfl), dispatchTo_raise]
          · exact modifyFiber_raise (fun _ => rfl) w f g
        · exact modifyFiber_raise (fun _ => rfl) w f g

theorem Sheltered.index_lt (h : w.Sheltered f body) : f.index < w.fibers.size := by
  obtain ⟨r, hr, -⟩ := h.masked
  rw [← Table.isSome_get?_iff, ← fiber?, hr]
  rfl

/-- A new fiber gets its place behind the sheltered one. -/
theorem Sheltered.raise_launch (h : w.Sheltered f body) (root : Effect) (hook : ExitHook)
    (notice : Option ExitNotice) :
    (w.raise f).launch root hook notice = ((w.launch root hook notice).1, (w.launch root hook notice).2.raise f) := by
  have hsize := h.index_lt
  simp only [launch, prepare, start, dispatch, raise, modifyFiber, Table.size_modify, Table.push_modify hsize]

theorem setNotice_raise (w : World) (f g : FiberId) (notice : ExitNotice) :
    (w.raise f).setNotice g notice = (w.setNotice g notice).raise f := modifyFiber_raise (fun _ => rfl) w f g

theorem enlist_raise (w : World) (f g : FiberId) (listener : Listener) :
    (w.raise f).enlist g listener = ((w.enlist g listener).1, (w.enlist g listener).2.raise f) := by
  simp only [enlist, notice?_raise, setNotice_raise]
  split <;> rfl

theorem withdraw_raise (w : World) (f g : FiberId) (key : Nat) :
    (w.raise f).withdraw g key = (w.withdraw g key).raise f := by
  simp only [withdraw, notice?_raise, setNotice_raise]
  split
  · split <;> rfl
  · rfl

theorem settleAll_raise (waiters : List (Nat × Callback)) (x : Exit Value Value) (w : World) (f : FiberId) :
    waiters.foldl (fun w waiter => w.settle waiter.2 x) (w.raise f) =
      (waiters.foldl (fun w waiter => w.settle waiter.2 x) w).raise f := by
  induction waiters generalizing w with
  | nil => rfl
  | cons waiter rest ih =>
    rw [List.foldl_cons, settle_raise]
    exact ih _

theorem completeDeferred_raise (w : World) (f : FiberId) (d : DeferredId) (x : Exit Value Value) :
    (w.raise f).completeDeferred d x = ((w.completeDeferred d x).1, (w.completeDeferred d x).2.raise f) := by
  have hrow : (w.raise f).deferred? d = w.deferred? d := rfl
  simp only [completeDeferred, hrow]
  split
  · exact congrArg _ (settleAll_raise _ x (w.setDeferred d (.done x)) f)
  · rfl

theorem awaitDeferred_raise (w : World) (f : FiberId) (d : DeferredId) (callback : Callback) :
    (w.raise f).awaitDeferred d callback =
      ((w.awaitDeferred d callback).1, (w.awaitDeferred d callback).2.raise f) := by
  have hrow : (w.raise f).deferred? d = w.deferred? d := rfl
  simp only [awaitDeferred, hrow]
  split <;> rfl

theorem leaveDeferred_raise (w : World) (f : FiberId) (d : DeferredId) (key : Nat) :
    (w.raise f).leaveDeferred d key = (w.leaveDeferred d key).raise f := by
  have hrow : (w.raise f).deferred? d = w.deferred? d := rfl
  simp only [leaveDeferred, hrow]
  split <;> rfl

theorem deliver_raise (w : World) (f : FiberId) (q : QueueId) (item : Value)
    (place : Overflow → List Value → Value → List Value) :
    (w.raise f).deliver q item place = (w.deliver q item place).raise f := by
  have hrow : (w.raise f).queue? q = w.queue? q := rfl
  simp only [deliver, hrow, completeDeferred_raise]
  split
  · rfl
  · split <;> rfl

theorem reclaimItem_raise (w : World) (f : FiberId) (q : QueueId) (latch : DeferredId) :
    (w.raise f).reclaimItem q latch = (w.reclaimItem q latch).raise f := by
  have hpoll : (w.raise f).pollDeferred latch = w.pollDeferred latch := rfl
  simp only [reclaimItem, putBackItem, hpoll, deliver_raise]
  split <;> rfl

theorem abandonItem_raise (w : World) (f : FiberId) (q : QueueId) (latch : DeferredId) :
    (w.raise f).abandonItem q latch = (w.abandonItem q latch).raise f := by
  have hstate : (w.raise f).queueState? q = w.queueState? q := rfl
  simp only [abandonItem, hstate, reclaimItem_raise]
  split
  · split <;> rfl
  · rfl

theorem requestItem_raise (w : World) (f : FiberId) (q : QueueId) :
    (w.raise f).requestItem q = ((w.requestItem q).1, (w.requestItem q).2.raise f) := by
  have hstate : (w.raise f).queueState? q = w.queueState? q := rfl
  have hmade : (w.raise f).makeDeferred.2.queueState? q = w.makeDeferred.2.queueState? q := rfl
  simp only [requestItem, joinQueue, hstate, hmade]
  split
  · rfl
  · split <;> rfl

theorem makeQueue_raise (w : World) (f : FiberId) (policy : Overflow) :
    (w.raise f).makeQueue policy = ((w.makeQueue policy).1, (w.makeQueue policy).2.raise f) := by
  cases policy <;> rfl

theorem requestShutdown_raise (w : World) (f : FiberId) :
    (w.raise f).requestShutdown = w.requestShutdown.raise f := by
  have hloop : (w.raise f).loop = w.loop := rfl
  simp only [requestShutdown, hloop]
  split <;> rfl

theorem wakeFirst_raise (line : List DeferredId) (w : World) (f : FiberId) :
    wakeFirst line (w.raise f) = ((wakeFirst line w).1, (wakeFirst line w).2.raise f) := by
  induction line generalizing w with
  | nil => rfl
  | cons latch rest ih =>
    simp only [wakeFirst, completeDeferred_raise]
    cases w.completeDeferred latch (.value .null) with
    | mk first v =>
      cases first with
      | true => rfl
      | false => exact ih v

theorem releasePermit_raise (w : World) (f : FiberId) (s : SemaphoreId) :
    (w.raise f).releasePermit s = (w.releasePermit s).raise f := by
  have hrow : (w.raise f).semaphore? s = w.semaphore? s := rfl
  simp only [releasePermit, hrow]
  split
  · rfl
  · rename_i row _
    rw [wakeFirst_raise]
    cases wakeFirst row.waiters w with
    | mk rest v => cases rest <;> rfl

theorem abandonPermit_raise (w : World) (f : FiberId) (s : SemaphoreId) (latch : DeferredId) :
    (w.raise f).abandonPermit s latch = (w.abandonPermit s latch).raise f := by
  have hrow : (w.raise f).semaphore? s = w.semaphore? s := rfl
  have hpoll : (w.raise f).pollDeferred latch = w.pollDeferred latch := rfl
  simp only [abandonPermit, hrow, hpoll, releasePermit_raise]
  split
  · rfl
  · split
    · rfl
    · split <;> rfl

theorem tryAcquire_raise (w : World) (f : FiberId) (s : SemaphoreId) :
    (w.raise f).tryAcquire s = ((w.tryAcquire s).1, (w.tryAcquire s).2.raise f) := by
  have hrow : (w.raise f).semaphore? s = w.semaphore? s := rfl
  simp only [tryAcquire, hrow]
  split
  · split <;> rfl
  · rfl

theorem requestPermit_raise (w : World) (f : FiberId) (s : SemaphoreId) :
    (w.raise f).requestPermit s = ((w.requestPermit s).1, (w.requestPermit s).2.raise f) := by
  simp only [requestPermit, tryAcquire_raise]
  cases w.tryAcquire s with
  | mk taken v =>
    cases taken with
    | true => rfl
    | false =>
      have hrow : (v.raise f).makeDeferred.2.semaphore? s = v.makeDeferred.2.semaphore? s := rfl
      simp only [joinLine, hrow]
      split <;> rfl

/-- Two new fibers get their places behind the sheltered one. -/
theorem Sheltered.push_push (h : w.Sheltered f body) (change : Fiber → Fiber) (first second : Fiber) :
    ((w.fibers.modify f.index change).push first).push second =
      ((w.fibers.push first).push second).modify f.index change := by
  have hsize : f.index < (w.fibers.push first).size := by
    rw [Table.size_push]
    exact Nat.lt_succ_of_lt h.index_lt
  rw [Table.push_modify h.index_lt, Table.push_modify hsize]

theorem Sheltered.raise_startRace (h : w.Sheltered f body) (left right : Effect) (callback : Callback) :
    (w.raise f).startRace left right callback =
      ((w.startRace left right callback).1, (w.startRace left right callback).2.raise f) := by
  simp only [startRace, prepare, start, dispatch, modifyRace, raise, modifyFiber, Table.size_modify,
    Table.size_push, h.push_push]

theorem Sheltered.raise_startPairing (h : w.Sheltered f body) (left right : Effect) (g : Combine)
    (callback : Callback) :
    (w.raise f).startPairing left right g callback =
      ((w.startPairing left right g callback).1, (w.startPairing left right g callback).2.raise f) := by
  simp only [startPairing, prepare, start, dispatch, modifyPairing, raise, modifyFiber, Table.size_modify,
    Table.size_push, h.push_push]

end World

/-! ## Closures -/

/-- A computation does not hear the flag of a sheltered fiber: it does and returns the same after the flag was
set. -/
def Act.Ignores (f : FiberId) (body : Effect) {α : Type} (act : Act α) : Prop :=
  ∀ w : World, w.Sheltered f body → act.run (w.raise f) = ((act.run w).1, (act.run w).2.raise f)

/-- The judgement that a computation makes requests and does not hear the flag of a sheltered fiber. -/
def Deaf (f : FiberId) (body : Effect) : Judgement := fun _ act Q =>
  Keeping Requested _ act Q ∧ act.Ignores f body

namespace Act.Ignores

variable {f : FiberId} {body : Effect} {α β : Type}

theorem update {g : World → World} (h : ∀ w : World, w.Sheltered f body → g (w.raise f) = (g w).raise f) :
    (Act.update g).Ignores f body := by
  intro w hw
  rw [run_update, h w hw]
  rfl

theorem updateGet {g : World → α × World}
    (h : ∀ w : World, w.Sheltered f body → g (w.raise f) = ((g w).1, (g w).2.raise f)) :
    (Act.updateGet g).Ignores f body := by
  intro w hw
  rw [run_updateGet, h w hw]
  rfl

theorem bind {act : Act α} {k : α → Act β} {Q : α → Prop} (hact : Keeping Requested α act Q)
    (h : act.Ignores f body) (hk : ∀ a, Q a → (k a).Ignores f body) : (act >>= k).Ignores f body := by
  intro w hw
  obtain ⟨hrequested, hresult⟩ := hact w
  rw [run_bind, run_bind, h w hw]
  cases hrun : act.run w with
  | mk result v =>
    rw [hrun] at hrequested hresult
    cases result with
    | ok a => exact hk a (hresult a rfl) v (hw.requested hrequested)
    | error d => rfl

theorem caught {act : Act α} (h : act.Ignores f body) {w : World} (hw : w.Sheltered f body) :
    act.caught (w.raise f) = ((act.caught w).1, (act.caught w).2.raise f) := by
  unfold Act.caught
  rw [h w hw]
  cases act.run w with
  | mk result v => cases result <;> rfl

theorem attempt {act : Act α} (h : act.Ignores f body) {w : World} (hw : w.Sheltered f body) :
    act.attempt (w.raise f) = (act.attempt w).raise f := by
  rw [Act.attempt, h.caught hw]
  rfl

end Act.Ignores

/-- **No closure hears the flag of a sheltered fiber.** -/
instance (f : FiberId) (body : Effect) : TracksAll .everything (Deaf f body) where
  everything _ := trivial
  used _ := trivial
  pure h := ⟨Tracks.pure h, fun _ _ => rfl⟩
  throw d := ⟨Tracks.throw d, fun _ _ => rfl⟩
  bind h hk := ⟨Tracks.bind h.1 fun a ha => (hk a ha).1, Act.Ignores.bind h.1 h.2 fun a ha => (hk a ha).2⟩
  read hk h := ⟨Tracks.read hk fun w hw => (h w hw).1, fun w hw => by
    rw [Act.run_bind, Act.run_bind]
    exact (congrArg (·.run (w.raise f)) (hk w f)).trans ((h w w.confined_everything).2 w hw)⟩
  caught h := ⟨Tracks.caught h.1, .updateGet fun _ hw => h.2.caught hw⟩
  session change hdefinitions h := ⟨Tracks.session change hdefinitions h, fun _ _ => rfl⟩
  freshSerial := ⟨Tracks.freshSerial, fun _ _ => rfl⟩
  interrupt g := ⟨Tracks.interrupt g, .update fun _ hw => hw.raise_interrupt g⟩
  settle h _ hx := ⟨Tracks.settle h hx, .update fun w _ => w.settle_raise f _ _⟩
  launch h hook hhook := ⟨Tracks.launch h hook hhook, .updateGet fun _ hw => hw.raise_launch _ _ _⟩
  dispatch actions _ h := ⟨Tracks.dispatch actions h, fun _ _ => rfl⟩
  schedule delay _ herrand h := ⟨Tracks.schedule delay herrand h, fun _ _ => rfl⟩
  cancelTimer timer := ⟨Tracks.cancelTimer timer, fun _ _ => rfl⟩
  requestShutdown := ⟨Tracks.requestShutdown, .update fun w _ => w.requestShutdown_raise f⟩
  enlist g _ h := ⟨Tracks.enlist g h, .updateGet fun w _ => w.enlist_raise f g _⟩
  withdraw g key := ⟨Tracks.withdraw g key, .update fun w _ => w.withdraw_raise f g key⟩
  makeCell h := ⟨Tracks.makeCell h, fun _ _ => rfl⟩
  setCell c _ h := ⟨Tracks.setCell c h, fun _ _ => rfl⟩
  completeDeferred hd _ hx := ⟨Tracks.completeDeferred hd hx, .updateGet fun w _ => w.completeDeferred_raise f _ _⟩
  awaitDeferred hlines _ hd _ h := ⟨Tracks.awaitDeferred hlines hd h, .updateGet fun w _ => w.awaitDeferred_raise f _ _⟩
  leaveDeferred hlines _ hd key := ⟨Tracks.leaveDeferred hlines hd key, .update fun w _ => w.leaveDeferred_raise f _ key⟩
  offerItem hq _ h := ⟨Tracks.offerItem hq h, .update fun w _ => w.deliver_raise f _ _ _⟩
  putBackItem hq _ h := ⟨Tracks.putBackItem hq h, .update fun w _ => w.deliver_raise f _ _ _⟩
  abandonItem hq _ h := ⟨Tracks.abandonItem hq h, .update fun w _ => w.abandonItem_raise f _ _⟩
  startRace hl hr _ h hs := ⟨Tracks.startRace hl hr h hs, .updateGet fun _ hw => hw.raise_startRace _ _ _⟩
  modifyRace hr _ h := ⟨Tracks.modifyRace hr h, fun _ _ => rfl⟩
  startPairing hl hr _ hg _ h hs :=
    ⟨Tracks.startPairing hl hr hg h hs, .updateGet fun _ hw => hw.raise_startPairing _ _ _ _⟩
  modifyPairing hp _ h := ⟨Tracks.modifyPairing hp h, fun _ _ => rfl⟩
  makeDeferred := ⟨TracksAll.makeDeferred, fun _ _ => rfl⟩
  makeSemaphore permits := ⟨TracksAll.makeSemaphore permits, fun _ _ => rfl⟩
  makeQueue policy := ⟨TracksAll.makeQueue policy, .updateGet fun w _ => w.makeQueue_raise f policy⟩
  requestPermit s := ⟨TracksAll.requestPermit s, .updateGet fun w _ => w.requestPermit_raise f s⟩
  tryAcquire s := ⟨TracksAll.tryAcquire s, .updateGet fun w _ => w.tryAcquire_raise f s⟩
  releasePermit s := ⟨TracksAll.releasePermit s, .update fun w _ => w.releasePermit_raise f s⟩
  abandonPermit s latch := ⟨TracksAll.abandonPermit s latch, .update fun w _ => w.abandonPermit_raise f s latch⟩
  requestItem q := ⟨TracksAll.requestItem q, .updateGet fun w _ => w.requestItem_raise f q⟩

end FiberLoop
