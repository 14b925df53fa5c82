import FiberLoop.Proofs.Permits.Confinement
import FiberLoop.Proofs.Runtime.Epochs

/-!
# What closures leave to races and pairings

The callback that a race or a pairing holds is reserved for it: nobody else knows it. Races and pairings are started
by the runtime alone, for the fiber that waits, and ended when one of their fibers tells its exit.

`Attends` says what is done by a closure that knows no reserved callback: it changes no race and no pairing, completes
no reserved callback, and launches no fiber that would end a race or a pairing. The main result of this module is that
all closures do no more (`Attending`).
-/

namespace FiberLoop

/-- The scope in which nothing is hidden but some callbacks, and races and pairings are neither started nor ended. -/
def Scope.reserving (reserved : Callback → Prop) : Scope where
  mentions _ := True
  queue _ := True
  joint _ := False
  callback cb := ¬ reserved cb
  fiber _ := True
  waiter cb := ¬ reserved cb
  lines := True
  starts := False
  shields := True
  known _ h := Or.inl h
  joins _ _ h := h
  waits _ _ := trivial
  gates _ _ _ _ := trivial

namespace World

/-- What is done by somebody who knows no reserved callback. -/
inductive Attends (reserved : Callback → Prop) : World → World → Prop where
  | refl (w : World) : Attends reserved w w
  | trans {u v w : World} (first : Attends reserved u v) (second : Attends reserved v w) : Attends reserved u w
  | quiet {w w' : World} (h : w.Quiet w') (hraces : w'.stores.races = w.stores.races)
    (hpairings : w'.stores.pairings = w.stores.pairings) : Attends reserved w w'
  | interrupt (w : World) (f : FiberId) : Attends reserved w (w.interrupt f)
  | settle (w : World) {callback : Callback} (h : ¬ reserved callback) (x : Exit Value Value) :
    Attends reserved w (w.settle callback x)
  | launch (w : World) (root : Effect) {hook : ExitHook} (h : hook.joint? = none) :
    Attends reserved w (w.launch root hook hook.notice).2

namespace Attends

variable {reserved : Callback → Prop} {w w' : World}

instance : Composes (Attends reserved) where
  refl := .refl
  trans := .trans
  caughtThrow w := .quiet (.besides w w.stores w.session _) rfl rfl

theorem stores (w : World) (stores : Stores) (hraces : stores.races = w.stores.races)
    (hpairings : stores.pairings = w.stores.pairings) : w.Attends reserved { w with stores := stores } :=
  .quiet (.stores w stores) hraces hpairings

theorem schedule (w : World) (delay : Nat) {task : Task} (h : task.isErrand = true) :
    w.Attends reserved (w.schedule delay task).2 :=
  .quiet (.put _ (m := .timer (w.clock + delay) ⟨w.stores.timers.size⟩ task) h rfl rfl rfl rfl) rfl rfl

theorem requestShutdown (w : World) : w.Attends reserved w.requestShutdown := by
  unfold World.requestShutdown
  split
  · exact .refl w
  · exact .quiet (.put w.stores (m := .shutdown) rfl rfl rfl rfl rfl) rfl rfl

theorem enlist (w : World) (f : FiberId) (listener : Listener) : w.Attends reserved (w.enlist f listener).2 := by
  unfold World.enlist
  split
  · rename_i hnotice
    exact .quiet (.watch hnotice _ _) rfl rfl
  · exact .refl w
  · exact .refl w

theorem withdraw (w : World) (f : FiberId) (key : Nat) : w.Attends reserved (w.withdraw f key) := by
  unfold World.withdraw
  split
  · rename_i hnotice
    split
    · exact .quiet (.watch hnotice _ _) rfl rfl
    · exact .refl w
  · exact .refl w

theorem awaitDeferred (w : World) (d : DeferredId) (callback : Callback) :
    w.Attends reserved (w.awaitDeferred d callback).2 := by
  unfold World.awaitDeferred
  split
  · exact stores w _ rfl rfl
  · exact .refl w
  · exact .refl w

theorem leaveDeferred (w : World) (d : DeferredId) (key : Nat) : w.Attends reserved (w.leaveDeferred d key) := by
  unfold World.leaveDeferred
  split
  · exact stores w _ rfl rfl
  · exact .refl w

theorem settleAll {waiters : List (Nat × Callback)} (h : ∀ waiter ∈ waiters, ¬ reserved waiter.2)
    (x : Exit Value Value) (w : World) :
    w.Attends reserved (waiters.foldl (fun w waiter => w.settle waiter.2 x) w) := by
  induction waiters generalizing w with
  | nil => exact .refl w
  | cons waiter rest ih =>
    obtain ⟨hwaiter, hrest⟩ := List.forall_mem_cons.1 h
    exact .trans (.settle w hwaiter x) (ih hrest _)

/-- Nobody waits in a line with a reserved callback. -/
theorem completeDeferred (hw : w.Confined (.reserving reserved)) (d : DeferredId) (x : Exit Value Value) :
    w.Attends reserved (w.completeDeferred d x).2 := by
  unfold World.completeDeferred
  split
  · rename_i waiters key hrow
    have hset : w.Attends reserved (w.setDeferred d (.done x)) := stores w _ rfl rfl
    exact hset.trans (settleAll (hw.stores.deferreds d.index _ hrow trivial) x _)
  · exact .refl w

/-! ## What follows from it -/

/-- What is attended to comes about by requests. -/
theorem requested (h : w.Attends reserved w') : Requested w w' := by
  induction h with
  | refl w => exact .refl w
  | trans _ _ ih ih' => exact ih.trans ih'
  | quiet h _ _ => exact .quiet h
  | interrupt w f => exact ⟨_, .one (.interrupt w f)⟩
  | settle w _ x => exact .settle w _ x
  | launch w root _ => exact ⟨_, .one (.launch w root _)⟩

theorem races (h : w.Attends reserved w') : w'.stores.races = w.stores.races := by
  induction h with
  | refl w => rfl
  | trans _ _ ih ih' => exact ih'.trans ih
  | quiet _ h _ => exact h
  | interrupt w f => rw [stores_interrupt]
  | settle w _ x => rw [stores_settle]
  | launch w root _ => rfl

theorem pairings (h : w.Attends reserved w') : w'.stores.pairings = w.stores.pairings := by
  induction h with
  | refl w => rfl
  | trans _ _ ih ih' => exact ih'.trans ih
  | quiet _ _ h => exact h
  | interrupt w f => rw [stores_interrupt]
  | settle w _ x => rw [stores_settle]
  | launch w root _ => rfl

end Attends

/-! ## What is kept inside the scope -/

instance {reserved : Callback → Prop} : PermitsStores (Tends (.reserving reserved) (Attends reserved)) where
  refl w hw := ⟨hw, .refl w⟩
  trans first second hw := by
    obtain ⟨hv, hfirst⟩ := first hw
    obtain ⟨hend, hsecond⟩ := second hv
    exact ⟨hend, .trans hfirst hsecond⟩
  supply w semaphores queues hw :=
    ⟨hw.withStores ⟨hw.stores.cells, hw.stores.deferreds, fun _ row _ => row.state.in_of_all (fun _ => trivial) True,
      hw.stores.races, hw.stores.pairings, fun _ _ => trivial⟩, .stores w _ rfl rfl⟩
  makeDeferred w hw :=
    ⟨hw.withStores ⟨hw.stores.cells, Table.forall_push hw.stores.deferreds fun _ => List.forall_mem_nil _,
      hw.stores.queues, hw.stores.races, hw.stores.pairings, hw.stores.gates⟩, .stores w _ rfl rfl⟩
  completeDeferred w d x hw :=
    ⟨(hw.stays_completeDeferred trivial fun _ _ => trivial).confined, .completeDeferred hw d x⟩

end World

/-- The judgement that a computation completes no reserved callback and leaves races and pairings alone. -/
abbrev Attending (reserved : Callback → Prop) : Judgement :=
  Adhering (.reserving reserved) (World.Attends reserved)

namespace Attending

open Adhering

variable {reserved : Callback → Prop}

/-- **No closure completes a reserved callback, or changes a race or a pairing.** -/
instance : TracksAll (.reserving reserved) (Attending reserved) where
  everything _ := trivial
  used _ := trivial
  pure h := of_confining (Tracks.pure h) .refl
  throw d := of_confining (Tracks.throw d) .refl
  bind := bind
  read _ h w hw := h w hw w hw
  caught h _ hw := ⟨(h.caught hw).1, fun _ ha => Except.ok.inj ha ▸ (h.caught hw).2⟩
  session change hdefinitions h :=
    of_confining (Tracks.session change hdefinitions h) fun w => .quiet (.besides w w.stores _ w.caughtThrows) rfl rfl
  freshSerial := of_confining Tracks.freshSerial fun w => .stores w _ rfl rfl
  interrupt f := of_confining (Tracks.interrupt f) fun w => .interrupt w f
  settle h _ hx := of_confining (Tracks.settle h hx) fun w => .settle w h _
  launch h hook hhook := of_confining (Tracks.launch h hook hhook) fun w => .launch w _ hhook
  dispatch actions _ h := of_confining (Tracks.dispatch actions h) fun w =>
    .quiet (.put w.stores (m := .task (.actions actions _)) rfl rfl rfl rfl rfl) rfl rfl
  schedule delay _ herrand h := of_confining (Tracks.schedule delay herrand h) (.schedule · delay herrand)
  cancelTimer t := of_confining (Tracks.cancelTimer t) fun w => .stores w _ rfl rfl
  requestShutdown := of_confining Tracks.requestShutdown .requestShutdown
  enlist f listener h := of_confining (Tracks.enlist f h) (.enlist · f listener)
  withdraw f key := of_confining (Tracks.withdraw f key) (.withdraw · f key)
  makeCell h := of_confining (Tracks.makeCell h) fun w => .stores w _ rfl rfl
  setCell c _ h := of_confining (Tracks.setCell c h) fun w => .stores w _ rfl rfl
  completeDeferred _ _ _ := updateGet fun w => PermitsStores.completeDeferred w _ _
  awaitDeferred hlines _ hd _ h := of_confining (Tracks.awaitDeferred hlines hd h) (.awaitDeferred · _ _)
  leaveDeferred hlines _ hd key := of_confining (Tracks.leaveDeferred hlines hd key) (.leaveDeferred · _ key)
  offerItem _ _ _ := update fun _ => PermitsStores.deliver _ _ _ _
  putBackItem _ _ _ := update fun _ => PermitsStores.deliver _ _ _ _
  abandonItem _ _ _ := update (PermitsStores.abandonItem · _ _)
  startRace _ _ _ _ hstarts := hstarts.elim
  modifyRace hr := hr.elim
  startPairing _ _ _ _ _ _ hstarts := hstarts.elim
  modifyPairing hp := hp.elim
  makeDeferred := updateGet PermitsStores.makeDeferred
  makeSemaphore _ := updateGet fun _ => PermitsStores.semaphores _ _
  makeQueue policy := updateGet (PermitsStores.makeQueue · policy)
  requestPermit s := updateGet (PermitsStores.requestPermit · s)
  tryAcquire s := updateGet (PermitsStores.tryAcquire · s)
  releasePermit s := update (PermitsStores.releasePermit · s)
  abandonPermit s latch := update (PermitsStores.abandonPermit · s latch)
  requestItem q := updateGet (PermitsStores.requestItem · q)

end Attending

end FiberLoop
