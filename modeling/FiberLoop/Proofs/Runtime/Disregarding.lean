import FiberLoop.Proofs.Runtime.Scenes

/-!
# What the runtime has no hold on

The loops and the fibers keep their own books, and most operations of the library keep theirs in the stores. A relation
of worlds that looks at nothing but the definitions of a session and the contents of its cells `Disregards` all of them.
Every closure keeps to such a relation that does not write to a cell, and so does every stroke with which no fiber calls
a closure that may (`Disregards.play`).
-/

namespace FiberLoop

/-- The relation `R` looks at the definitions and at the cells alone, and allows that cells are made. -/
class Disregards (R : World → World → Prop) : Prop where
  books {w w' : World} (hcells : w'.stores.cells = w.stores.cells)
    (hdefinitions : w'.session.definitions = w.session.definitions) : R w w'
  makeCell (w : World) (initial : Value) : R w (w.makeCell initial).2
  trans {u v w : World} (first : R u v) (second : R v w) : R u w

namespace Disregards

variable {R : World → World → Prop} [Disregards R]

theorem refl (w : World) : R w w := books rfl rfl

/-! ## Operations -/

theorem modifyFiber (w : World) (f : FiberId) (change : Fiber → Fiber) : R w (w.modifyFiber f change) := books rfl rfl

theorem dispatchTo (w : World) (name : LoopName) (task : Task) : R w (w.dispatchTo name task) := by
  unfold World.dispatchTo
  split <;> exact books rfl rfl

theorem interrupt (w : World) (f : FiberId) : R w (w.interrupt f) := by
  unfold World.interrupt
  split
  · exact refl w
  · split
    · exact refl w
    · split
      · split
        · exact trans (modifyFiber w f _) (dispatchTo _ _ _)
        · exact modifyFiber w f _
      · exact modifyFiber w f _

theorem settle (w : World) (callback : Callback) (x : Exit Value Value) : R w (w.settle callback x) := by
  unfold World.settle
  split
  · exact refl w
  · split
    · exact refl w
    · split
      · exact modifyFiber w _ _
      · exact trans (modifyFiber w callback.fiber _) (dispatchTo _ _ _)
      · exact refl w

theorem settleAll (waiters : List (Nat × Callback)) (x : Exit Value Value) (w : World) :
    R w (waiters.foldl (fun w waiter => w.settle waiter.2 x) w) := by
  induction waiters generalizing w with
  | nil => exact refl w
  | cons waiter rest ih => exact trans (settle w waiter.2 x) (ih _)

theorem completeDeferred (w : World) (d : DeferredId) (x : Exit Value Value) : R w (w.completeDeferred d x).2 := by
  unfold World.completeDeferred
  split
  · exact trans (v := w.setDeferred d (.done x)) (books rfl rfl) (settleAll _ x _)
  · exact refl w

theorem awaitDeferred (w : World) (d : DeferredId) (callback : Callback) : R w (w.awaitDeferred d callback).2 := by
  unfold World.awaitDeferred
  split <;> exact books rfl rfl

theorem leaveDeferred (w : World) (d : DeferredId) (key : Nat) : R w (w.leaveDeferred d key) := by
  unfold World.leaveDeferred
  split <;> exact books rfl rfl

theorem requestShutdown (w : World) : R w w.requestShutdown := by
  unfold World.requestShutdown
  split <;> exact books rfl rfl

theorem enlist (w : World) (f : FiberId) (listener : Listener) : R w (w.enlist f listener).2 := by
  unfold World.enlist
  split <;> exact books rfl rfl

theorem withdraw (w : World) (f : FiberId) (key : Nat) : R w (w.withdraw f key) := by
  unfold World.withdraw
  split
  · split <;> exact books rfl rfl
  · exact refl w

instance : PermitsStores R where
  refl := refl
  trans := trans
  supply _ _ _ := books rfl rfl
  makeDeferred _ := books rfl rfl
  completeDeferred := completeDeferred

theorem caught {α : Type} {act : Act α} {w : World} (h : R w (act w).2) : R w (act.caught w).2 :=
  PermitsStores.caught (R := R) (fun _ => books rfl rfl) h

end Disregards

/-- Keeping to a relation that disregards all books is passed on to the closures that do not write to a cell. -/
instance Keeping.tracksMaking {R : World → World → Prop} [Disregards R] : TracksMaking .everything (Keeping R) where
  everything _ := trivial
  used _ := trivial
  pure h w := ⟨Disregards.refl w, fun _ ha => Except.ok.inj ha ▸ h⟩
  throw _ w := ⟨Disregards.refl w, nofun⟩
  bind := Keeping.bind
  read _ h w := h w w.confined_everything w
  freshSerial := Keeping.updateGet (fun _ => Disregards.books rfl rfl) fun _ => trivial
  caught h w := ⟨Disregards.caught (h w).1, fun _ hresult a ha =>
    (h w).2 a ((Act.caught_fst _ w).symm.trans ((Except.ok.inj hresult).trans ha))⟩
  session _ hdefinitions h w := ⟨Disregards.books rfl (hdefinitions w.session), fun _ ha =>
    Except.ok.inj ha ▸ (h w.session w.confined_everything.session).2⟩
  interrupt f := Keeping.update fun w => Disregards.interrupt w f
  settle _ _ _ := Keeping.update fun w => Disregards.settle w _ _
  launch _ _ _ := Keeping.updateGet (fun _ => Disregards.books rfl rfl) fun _ => trivial
  dispatch _ _ _ := Keeping.update fun _ => Disregards.books rfl rfl
  schedule _ _ _ _ := Keeping.updateGet (fun _ => Disregards.books rfl rfl) fun _ => trivial
  cancelTimer _ := Keeping.update fun _ => Disregards.books rfl rfl
  requestShutdown := Keeping.update Disregards.requestShutdown
  enlist f listener _ := Keeping.updateGet (fun w => Disregards.enlist w f listener) fun _ _ _ _ _ => trivial
  withdraw f key := Keeping.update fun w => Disregards.withdraw w f key
  makeCell _ := Keeping.updateGet (fun w => Disregards.makeCell w _) fun _ => trivial
  completeDeferred _ _ _ := Keeping.updateGet (fun w => Disregards.completeDeferred w _ _) fun _ => trivial
  awaitDeferred _ _ _ _ _ := Keeping.updateGet (fun w => Disregards.awaitDeferred w _ _) fun _ _ _ _ _ => trivial
  leaveDeferred _ _ _ key := Keeping.update fun w => Disregards.leaveDeferred w _ key
  offerItem _ _ _ := Keeping.update fun w => PermitsStores.deliver w _ _ _
  putBackItem _ _ _ := Keeping.update fun w => PermitsStores.deliver w _ _ _
  abandonItem _ _ _ := Keeping.update fun w => PermitsStores.abandonItem w _ _
  startRace _ _ _ _ _ := Keeping.updateGet (fun _ => Disregards.books rfl rfl) fun _ => trivial
  modifyRace _ _ _ := Keeping.update fun _ => Disregards.books rfl rfl
  startPairing _ _ _ _ _ _ _ := Keeping.updateGet (fun _ => Disregards.books rfl rfl) fun _ => trivial
  modifyPairing _ _ _ := Keeping.update fun _ => Disregards.books rfl rfl
  makeDeferred := Keeping.updateGet (fun _ => Disregards.books rfl rfl) fun _ => trivial
  makeSemaphore _ := Keeping.updateGet (fun _ => Disregards.books rfl rfl) fun _ => trivial
  makeQueue policy := Keeping.updateGet (fun w => PermitsStores.makeQueue w policy) fun _ => trivial
  requestPermit s := Keeping.updateGet (fun w => PermitsStores.requestPermit w s) fun _ => trivial
  tryAcquire s := Keeping.updateGet (fun w => PermitsStores.tryAcquire w s) fun _ => trivial
  releasePermit s := Keeping.update fun w => PermitsStores.releasePermit w s
  abandonPermit s latch := Keeping.update fun w => PermitsStores.abandonPermit w s latch
  requestItem q := Keeping.updateGet (fun w => PermitsStores.requestItem w q) fun _ => trivial

namespace Disregards

variable {R : World → World → Prop} [Disregards R] {w : World}

/-! ## The loop -/

theorem attempt {act : Act Unit} (h : act.Keeps R) (w : World) : R w (act.attempt w) :=
  caught (h w)

theorem act (f : FiberId) (left : Nat) (s : Stand)
    (hcall : ∀ c run, s.deed = .call c run → w.cuts f c run = false → R w (c.act.caught w).2) :
    R w (w.act f left s).world := by
  unfold World.act
  cases hdeed : s.deed with
  | move s' => exact refl w
  | call c run =>
    dsimp only
    cases hcuts : w.cuts f c run with
    | true => exact refl w
    | false => exact hcall c run hdeed hcuts
  | register r =>
    dsimp only
    split <;> exact books rfl rfl
  | exit x =>
    dsimp only
    split <;> exact books rfl rfl

theorem beginRegistration (w : World) (f : FiberId) (left : Nat) (run : Run) (r : Registration) (epoch : Nat) :
    R w (w.beginRegistration f left run r epoch).world := by
  have hrun : R w ((r.run ⟨f, epoch⟩).caught w).2 :=
    caught (Act.Keeps.registration r ⟨f, epoch⟩ w)
  unfold World.beginRegistration
  split
  · rename_i heq
    rw [heq] at hrun
    exact trans hrun (modifyFiber _ f _)
  · rename_i heq
    rw [heq] at hrun
    exact hrun

theorem leaveRegistration (w : World) (f : FiberId) (left : Nat) (run : Run) (c : Canceler) :
    R w (w.leaveRegistration f left run c).world := by
  unfold World.leaveRegistration
  split
  · exact modifyFiber w f _
  · split <;> exact modifyFiber w f _
  · exact refl w

theorem tell (w : World) (f : FiberId) (x : Exit Value Value) (hook : ExitHook) : R w ((hook.run f x).attempt w) := by
  by_cases hhook : hook = .publish
  · subst hhook
    by_cases hpending : ∃ listeners key, w.notice? f = some (.pending listeners key)
    · obtain ⟨listeners, key, hnotice⟩ := hpending
      rw [World.attempt_publish hnotice]
      exact trans (modifyFiber w f _) (attempt (Act.Keeps.tellAll listeners x) _)
    · rw [World.attempt_publish_of_not_pending fun listeners key hnotice => hpending ⟨listeners, key, hnotice⟩]
      exact refl w
  · exact attempt (Act.Keeps.exitHook f x hhook) w

theorem errand {t : Task} (h : t.isErrand = true) (w : World) : R w (w.runTask t) := by
  cases t with
  | succeed callback v => exact settle w callback _
  | actions list env => exact attempt (Act.Keeps.actions env none list) w
  | _ => cases h

theorem fireAll {due : List Timer} (h : ∀ t ∈ due, t.task.isErrand = true) (w : World) :
    R w (due.foldl World.fire w) := by
  induction due generalizing w with
  | nil => exact refl w
  | cons t rest ih =>
    obtain ⟨ht, hrest⟩ := List.forall_mem_cons.1 h
    have hfire : R w (w.fire t) := by
      unfold World.fire
      split
      · exact refl w
      · exact errand ht w
    exact trans hfire (ih hrest _)

theorem fireDue (h : w.TimersQuiet) : R w w.fireDue :=
  trans (v := { w with loop := { w.loop with timers := w.loop.timers.dropWhile (·.deadline ≤ w.clock) } })
    (books rfl rfl) (fireAll (fun t ht => h.loop.timers t ((List.takeWhile_prefix _).subset ht)) _)

theorem takeUp (message : Message) (w : World) : R w (w.takeUp message).world := by
  cases message with
  | timer deadline timer task => exact books rfl rfl
  | shutdown => exact books rfl rfl
  | task task =>
    cases task with
    | succeed callback v => exact errand (t := .succeed callback v) rfl w
    | actions list env => exact errand (t := .actions list env) rfl w
    | resume f run next => exact refl w
    | unwind f c run => exact refl w
    | start f =>
      unfold World.takeUp
      dsimp only
      split <;> exact books rfl rfl

theorem takeNext (w : World) : R w w.takeNext.world := by
  unfold World.takeNext
  split
  · exact refl w
  · exact trans (v := w.dropMessage) (books rfl rfl) (takeUp _ w.dropMessage)

/-- The next thing that the loop does, given what a closure does that a fiber calls. -/
theorem next {m : Moment} (h : m.world.TimersQuiet)
    (hcall : ∀ f left s c run, m.activity = .running f (left + 1) s → s.deed = .call c run →
      m.world.cuts f c run = false → R m.world (c.act.caught m.world).2) : R m.world m.next.world := by
  obtain ⟨w, a⟩ := m
  cases a with
  | idle =>
    unfold Moment.next
    dsimp only
    split
    · exact refl w
    · exact trans (fireDue h) (takeNext _)
  | running f left s =>
    cases left with
    | zero => exact books rfl rfl
    | succ left => exact act f left s fun c run => hcall f left s c run rfl
  | registering f left run r epoch => exact beginRegistration w f left run r epoch
  | returning f left run c => exact leaveRegistration w f left run c
  | canceling f left run c => exact attempt (Act.Keeps.canceler c) w
  | exiting f x hook => exact tell w f x hook

/-- **Every stroke keeps to a relation that disregards all books**, given what a closure does that a fiber calls. -/
theorem play {s : Scene} (h : s.Occurs) (stroke : Stroke)
    (hcall : ∀ f left stand c run, stroke = .next → s.moment.activity = .running f (left + 1) stand →
      stand.deed = .call c run → s.moment.world.cuts f c run = false →
        R s.moment.world (c.act.caught s.moment.world).2) : R s.moment.world (s.play stroke).moment.world := by
  have hquiet := h.timersQuiet
  obtain ⟨⟨w, a⟩, kept⟩ := s
  cases stroke with
  | next => exact next (m := ⟨w, a⟩) hquiet fun f left stand c run => hcall f left stand c run rfl
  | demand d =>
    have hdemand := (TracksAll.demand (J := Keeping R) kept d).keeps w
    simp only [Scene.play]
    cases hrun : (d.act kept).run w with
    | mk result v =>
      rw [hrun] at hdemand
      cases result <;> exact hdemand
  | fire =>
    cases a with
    | idle =>
      simp only [Scene.play, Scene.between]
      split
      · exact refl w
      · exact fireDue hquiet
    | _ => exact refl w
  | switch | clock => cases a <;> exact books rfl rfl

end Disregards

end FiberLoop
