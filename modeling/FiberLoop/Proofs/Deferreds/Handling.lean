import FiberLoop.Proofs.Permits.Confinement
import FiberLoop.Proofs.Runtime.Coverage

/-!
# What closures do to the lines of the deferreds

A callback that waits in the line of a deferred is known to that line only. A closure that does not know it does one
of a few things after the other: it interrupts fibers, completes other callbacks, launches fibers, makes a deferred or
completes one. The line of a deferred is joined and left by the runtime alone, for the fiber that waits.

`Handles` says what such a closure does, and the main result of this module is that all closures do no more
(`Handling`).
-/

namespace FiberLoop

/-- The scope in which nothing is hidden but some callbacks; these may wait in the lines of the deferreds. -/
def Scope.hiding (hidden : Callback → Prop) : Scope where
  mentions _ := True
  queue _ := True
  joint _ := True
  callback cb := ¬ hidden cb
  fiber _ := True
  waiter _ := True
  lines := False
  starts := True
  shields := True
  known _ _ := Or.inr trivial
  joins h := h.elim
  waits _ _ := trivial
  gates _ _ _ _ := trivial

section Hiding

variable {hidden : Callback → Prop}

theorem Deferred.in_hiding (row : Deferred) : row.In (.hiding hidden) := by
  cases row <;> exact fun _ _ => trivial

end Hiding

namespace World

/-- What is done without touching the lines of the deferreds, by somebody who does not know the hidden callbacks. -/
inductive Handles (hidden : Callback → Prop) : World → World → Prop where
  | refl (w : World) : Handles hidden w w
  | trans {u v w : World} (first : Handles hidden u v) (second : Handles hidden v w) : Handles hidden u w
  | quiet {w w' : World} (h : w.Quiet w') (hdeferreds : w'.stores.deferreds = w.stores.deferreds) :
    Handles hidden w w'
  | interrupt (w : World) (f : FiberId) : Handles hidden w (w.interrupt f)
  | settle (w : World) {callback : Callback} (h : ¬ hidden callback) (x : Exit Value Value) :
    Handles hidden w (w.settle callback x)
  | launch (w : World) (root : Effect) (hook : ExitHook) :
    Handles hidden w (w.launch root hook hook.notice).2
  | make (w : World) : Handles hidden w w.makeDeferred.2
  | complete (w : World) (d : DeferredId) (x : Exit Value Value) : Handles hidden w (w.completeDeferred d x).2

variable {hidden : Callback → Prop} {w w' : World}

instance : PermitsCommon (Handles hidden) where
  refl := .refl
  trans := .trans
  supply w _ _ := .quiet (.stores w _) rfl
  makeDeferred := .make
  completeDeferred := .complete
  stores w stores h _ := .quiet (.stores w stores) h
  cancelTimer w _ := .quiet (.stores w _) rfl
  session w s _ := .quiet (.besides w w.stores s w.caughtThrows) rfl
  caughtThrow w := .quiet (.besides w w.stores w.session _) rfl
  interrupt := .interrupt
  launch := .launch
  dispatch w actions env := .quiet (.put w.stores (m := .task (.actions actions env)) rfl rfl rfl rfl rfl) rfl
  schedule w delay {task} h :=
    .quiet (.put _ (m := .timer (w.clock + delay) ⟨w.stores.timers.size⟩ task) h rfl rfl rfl rfl) rfl
  requestShutdown w := by
    unfold World.requestShutdown
    split
    · exact .refl w
    · exact .quiet (.put w.stores (m := .shutdown) rfl rfl rfl rfl rfl) rfl
  watch _ _ _ _ h _ _ := .quiet (.watch h _ _) rfl

/-- What is handled comes about by requests. -/
theorem Handles.requested (h : w.Handles hidden w') : Requested w w' := by
  induction h with
  | refl w => exact .refl w
  | trans _ _ ih ih' => exact ih.trans ih'
  | quiet h _ => exact .quiet h
  | interrupt w f => exact ⟨_, .one (.interrupt w f)⟩
  | settle w _ x => exact .settle w _ x
  | launch w root hook => exact ⟨_, .one (.launch w root hook)⟩
  | make w => exact .stores w _
  | complete w d x => exact .completeDeferred w d x

/-! ## What is kept inside the scope -/

instance : PermitsStores (Tends (.hiding hidden) (Handles hidden)) where
  refl w hw := ⟨hw, .refl w⟩
  trans first second hw := by
    obtain ⟨hv, hfirst⟩ := first hw
    obtain ⟨hend, hsecond⟩ := second hv
    exact ⟨hend, .trans hfirst hsecond⟩
  supply w semaphores queues hw :=
    ⟨hw.withStores ⟨hw.stores.cells, hw.stores.deferreds, fun _ row _ => row.state.in_of_all (fun _ => trivial) True,
      hw.stores.races, hw.stores.pairings, fun _ _ => trivial⟩, PermitsStores.supply w semaphores queues⟩
  makeDeferred w hw :=
    ⟨hw.withStores ⟨hw.stores.cells, fun _ row _ _ => row.in_hiding, hw.stores.queues, hw.stores.races,
      hw.stores.pairings, hw.stores.gates⟩, .make w⟩
  completeDeferred w d x hw := ⟨(hw.stays_completeDeferred trivial fun _ _ => trivial).confined, .complete w d x⟩

end World

/-- The judgement that a computation keeps the hidden callbacks hidden and does not touch the lines. -/
abbrev Handling (hidden : Callback → Prop) : Judgement := Adhering (.hiding hidden) (World.Handles hidden)

namespace Handling

open Adhering

variable {hidden : Callback → Prop}

/-- **No closure touches the lines of the deferreds, or completes a callback that is hidden from it.** -/
instance : TracksAll (.hiding hidden) (Handling hidden) where
  everything _ := trivial
  used _ := trivial
  pure h := of_confining (Tracks.pure h) .refl
  throw d := of_confining (Tracks.throw d) .refl
  bind := bind
  read _ h w hw := h w hw w hw
  caught h _ hw := ⟨(h.caught hw).1, fun _ ha => Except.ok.inj ha ▸ (h.caught hw).2⟩
  session change hdefinitions h :=
    of_confining (Tracks.session change hdefinitions h) fun w => PermitsCommon.session _ _ (hdefinitions w.session)
  freshSerial := of_confining Tracks.freshSerial fun _ => PermitsCommon.stores _ _ rfl rfl
  interrupt f := of_confining (Tracks.interrupt f) fun _ => .interrupt _ f
  settle h _ hx := of_confining (Tracks.settle h hx) fun _ => .settle _ h _
  launch h hook hhook := of_confining (Tracks.launch h hook hhook) fun _ => .launch _ _ hook
  dispatch actions _ h := of_confining (Tracks.dispatch actions h) fun _ => PermitsCommon.dispatch _ actions _
  schedule delay _ herrand h :=
    of_confining (Tracks.schedule delay herrand h) (PermitsCommon.schedule · delay herrand)
  cancelTimer t := of_confining (Tracks.cancelTimer t) fun _ => PermitsCommon.cancelTimer _ t
  requestShutdown := of_confining Tracks.requestShutdown PermitsCommon.requestShutdown
  enlist f listener h := of_confining (Tracks.enlist f h) (PermitsCommon.enlist · f listener)
  withdraw f key := of_confining (Tracks.withdraw f key) (PermitsCommon.withdraw · f key)
  makeCell h := of_confining (Tracks.makeCell h) fun _ => PermitsCommon.stores _ _ rfl rfl
  setCell c _ h := of_confining (Tracks.setCell c h) fun _ => PermitsCommon.stores _ _ rfl rfl
  completeDeferred hd _ hx := of_confining (Tracks.completeDeferred hd hx) fun _ => .complete _ _ _
  awaitDeferred hlines := hlines.elim
  leaveDeferred hlines := hlines.elim
  offerItem hq _ h := of_confining (Tracks.offerItem hq h) fun _ => PermitsStores.deliver _ _ _ _
  putBackItem hq _ h := of_confining (Tracks.putBackItem hq h) fun _ => PermitsStores.deliver _ _ _ _
  abandonItem hq _ h := of_confining (Tracks.abandonItem hq h) (PermitsStores.abandonItem · _ _)
  startRace hl hr _ h hs := of_confining (Tracks.startRace hl hr h hs) (PermitsCommon.startRace _ _ _)
  modifyRace hr _ h := of_confining (Tracks.modifyRace hr h) fun _ => PermitsCommon.races _ _
  startPairing hl hr _ hf _ h hs :=
    of_confining (Tracks.startPairing hl hr hf h hs) (PermitsCommon.startPairing _ _ _ _)
  modifyPairing hp _ h := of_confining (Tracks.modifyPairing hp h) fun _ => PermitsCommon.pairings _ _
  makeDeferred := updateGet PermitsStores.makeDeferred
  makeSemaphore _ := updateGet fun _ => PermitsStores.semaphores _ _
  makeQueue policy := updateGet (PermitsStores.makeQueue · policy)
  requestPermit s := updateGet (PermitsStores.requestPermit · s)
  tryAcquire s := updateGet (PermitsStores.tryAcquire · s)
  releasePermit s := update (PermitsStores.releasePermit · s)
  abandonPermit s latch := update (PermitsStores.abandonPermit · s latch)
  requestItem q := updateGet (PermitsStores.requestItem · q)

end Handling

end FiberLoop
