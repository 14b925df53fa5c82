import FiberLoop.Proofs.Runtime.Waking

/-!
# What comes to a loop

A task that runs, a caller from outside and the other loop do two things to a loop. They post messages, which come to
the end of its inbox, and they cancel timers. The timers that the loop holds, and whether it has stopped, is its own
business (`World.Posts`).
-/

namespace FiberLoop

/-- Messages come to a loop, and nothing else happens to it. -/
structure EventLoop.Posts (l l' : EventLoop) : Prop where
  inbox : l.inbox <+: l'.inbox
  timers : l'.timers = l.timers
  arrivals : l'.arrivals = l.arrivals
  stopped : l'.stopped = l.stopped

namespace EventLoop.Posts

theorem refl (l : EventLoop) : l.Posts l := ⟨List.prefix_rfl, rfl, rfl, rfl⟩

theorem trans {l l' l'' : EventLoop} (h : l.Posts l') (h' : l'.Posts l'') : l.Posts l'' :=
  ⟨h.inbox.trans h'.inbox, h'.timers.trans h.timers, h'.arrivals.trans h.arrivals, h'.stopped.trans h.stopped⟩

theorem queue (task : Task) (l : EventLoop) : l.Posts (l.queue task) := ⟨List.prefix_append _ _, rfl, rfl, rfl⟩

end EventLoop.Posts

namespace World

/-- Messages come to the loop of that name, and timers are cancelled. -/
structure PostsAt (name : LoopName) (w w' : World) : Prop where
  loop : (w.loopAt name).Posts (w'.loopAt name)
  cancelled : ∀ timer, w.isCancelled timer = true → w'.isCancelled timer = true

/-- Messages come to the loops, and timers are cancelled. -/
structure Posts (w w' : World) : Prop where
  loop : w.loop.Posts w'.loop
  aside : w.aside.Posts w'.aside
  here : w'.here = w.here
  cancelled : ∀ timer, w.isCancelled timer = true → w'.isCancelled timer = true

variable {u v w w' : World} {name : LoopName} {t : Timer}

namespace PostsAt

theorem refl (name : LoopName) (w : World) : w.PostsAt name w := ⟨.refl _, fun _ => id⟩

theorem trans (h : u.PostsAt name v) (h' : v.PostsAt name w) : u.PostsAt name w :=
  ⟨h.loop.trans h'.loop, fun timer hu => h'.cancelled timer (h.cancelled timer hu)⟩

theorem of_posts (h : w.Posts w') (name : LoopName) : w.PostsAt name w' := by
  refine ⟨?_, h.cancelled⟩
  unfold loopAt
  rw [h.here]
  split
  · exact h.loop
  · exact h.aside

end PostsAt

namespace Posts

theorem refl (w : World) : w.Posts w := ⟨.refl _, .refl _, rfl, fun _ => id⟩

theorem trans (h : u.Posts v) (h' : v.Posts w) : u.Posts w :=
  ⟨h.loop.trans h'.loop, h.aside.trans h'.aside, h'.here.trans h.here,
    fun timer hu => h'.cancelled timer (h.cancelled timer hu)⟩

theorem stores (w : World) {stores : Stores} (h : stores.timers = w.stores.timers) :
    w.Posts { w with stores := stores } := by
  refine ⟨.refl _, .refl _, rfl, fun timer hcancelled => ?_⟩
  unfold isCancelled
  rwa [h]

theorem modifyFiber (w : World) (f : FiberId) (change : Fiber → Fiber) : w.Posts (w.modifyFiber f change) :=
  ⟨.refl _, .refl _, rfl, fun _ => id⟩

theorem dispatch (w : World) (task : Task) : w.Posts (w.dispatch task) := ⟨.queue task _, .refl _, rfl, fun _ => id⟩

theorem dispatchTo (w : World) (name : LoopName) (task : Task) : w.Posts (w.dispatchTo name task) := by
  unfold World.dispatchTo
  split
  · exact dispatch w task
  · exact ⟨.refl _, .queue task _, rfl, fun _ => id⟩

theorem interrupt (w : World) (f : FiberId) : w.Posts (w.interrupt f) := by
  unfold World.interrupt
  split
  · exact refl w
  · split
    · exact refl w
    · split
      · split
        · exact (modifyFiber w f _).trans (dispatchTo _ _ _)
        · exact modifyFiber w f _
      · exact modifyFiber w f _

theorem settle (w : World) (callback : Callback) (x : Exit Value Value) : w.Posts (w.settle callback x) := by
  unfold World.settle
  split
  · exact refl w
  · split
    · exact refl w
    · split
      · exact modifyFiber w _ _
      · exact (modifyFiber w _ _).trans (dispatchTo _ _ _)
      · exact refl w

theorem settleAll (waiters : List (Nat × Callback)) (x : Exit Value Value) (w : World) :
    w.Posts (waiters.foldl (fun w waiter => w.settle waiter.2 x) w) := by
  induction waiters generalizing w with
  | nil => exact refl w
  | cons waiter rest ih => exact (settle w waiter.2 x).trans (ih _)

theorem completeDeferred (w : World) (d : DeferredId) (x : Exit Value Value) : w.Posts (w.completeDeferred d x).2 := by
  unfold World.completeDeferred
  split
  · rename_i waiters key _
    have hdone : w.Posts (w.setDeferred d (.done x)) := stores w rfl
    exact hdone.trans (settleAll waiters x _)
  · exact refl w

theorem schedule (w : World) (delay : Nat) (task : Task) : w.Posts (w.schedule delay task).2 := by
  refine ⟨⟨List.prefix_append _ _, rfl, rfl, rfl⟩, .refl _, rfl, fun timer h => ?_⟩
  -- the new timer comes behind those that were cancelled before
  have hpush := Table.get?_push w.stores.timers false timer.index
  simp only [isCancelled, World.schedule] at h ⊢
  rw [hpush]
  split
  · rename_i hlast
    have hnone : w.stores.timers.get? timer.index = none := by
      rw [← Option.not_isSome_iff_eq_none, Table.isSome_get?_iff, hlast]
      exact Nat.lt_irrefl _
    rw [hnone] at h
    cases h
  · exact h

theorem cancelTimer (w : World) (timer : TimerId) : w.Posts (w.cancelTimer timer) := by
  refine ⟨.refl _, .refl _, rfl, fun other h => ?_⟩
  simp only [isCancelled, World.cancelTimer, Table.get?_set] at h ⊢
  split
  · cases hrow : w.stores.timers.get? other.index with
    | none =>
      rw [hrow] at h
      cases h
    | some b => rfl
  · exact h

theorem requestShutdown (w : World) : w.Posts w.requestShutdown := by
  unfold World.requestShutdown
  split
  · exact refl w
  · exact ⟨⟨List.prefix_append _ _, rfl, rfl, rfl⟩, .refl _, rfl, fun _ => id⟩

theorem awaitDeferred (w : World) (d : DeferredId) (callback : Callback) : w.Posts (w.awaitDeferred d callback).2 := by
  unfold World.awaitDeferred
  split
  · exact stores w rfl
  · exact refl w
  · exact refl w

theorem leaveDeferred (w : World) (d : DeferredId) (key : Nat) : w.Posts (w.leaveDeferred d key) := by
  unfold World.leaveDeferred
  split
  · exact stores w rfl
  · exact refl w

end Posts

/-- **All that a closure does to the loops is to post messages and to cancel timers.** -/
instance : Permits Posts where
  refl := .refl
  trans := .trans
  supply w _ _ := .stores w rfl
  makeDeferred w := .stores w rfl
  completeDeferred := .completeDeferred
  stores w _ _ htimers := .stores w htimers
  cancelTimer := .cancelTimer
  session _ _ _ := ⟨.refl _, .refl _, rfl, fun _ => id⟩
  caughtThrow _ := ⟨.refl _, .refl _, rfl, fun _ => id⟩
  interrupt := .interrupt
  launch _ _ _ := ⟨.queue _ _, .refl _, rfl, fun _ => id⟩
  dispatch w _ _ := .dispatch w _
  schedule w delay {task} _ := .schedule w delay task
  requestShutdown := .requestShutdown
  watch w _ _ _ _ _ _ := .modifyFiber w _ _
  settle := .settle
  awaitDeferred := .awaitDeferred
  leaveDeferred := .leaveDeferred

namespace Posts

/-! ## In the middle of a task -/

theorem act (w : World) (g : FiberId) (left : Nat) (s : Stand) : w.Posts (w.act g left s).world := by
  unfold World.act
  cases s.deed with
  | move s' => exact refl w
  | call c run =>
    dsimp only
    split
    · exact refl w
    · exact (Act.Keeps.call (R := Posts) c).caught w
  | register r =>
    dsimp only
    split
    · exact refl w
    · exact modifyFiber w g _
  | exit x =>
    dsimp only
    split
    · exact modifyFiber w g _
    · exact modifyFiber w g _

theorem beginRegistration (w : World) (g : FiberId) (left : Nat) (run : Run) (r : Registration) (epoch : Nat) :
    w.Posts (w.beginRegistration g left run r epoch).world := by
  have hrun := (Act.Keeps.registration (R := Posts) r ⟨g, epoch⟩).caught w
  unfold World.beginRegistration
  split
  · rename_i heq
    rw [heq] at hrun
    exact hrun.trans (modifyFiber _ g _)
  · rename_i heq
    rw [heq] at hrun
    exact hrun

theorem leaveRegistration (w : World) (g : FiberId) (left : Nat) (run : Run) (c : Canceler) :
    w.Posts (w.leaveRegistration g left run c).world := by
  unfold World.leaveRegistration
  split
  · exact modifyFiber w g _
  · split
    · exact modifyFiber w g _
    · exact modifyFiber w g _
  · exact refl w

theorem publish (w : World) (f : FiberId) (x : Exit Value Value) : w.Posts ((ExitHook.publish.run f x).attempt w) := by
  by_cases hpending : ∃ listeners key, w.notice? f = some (.pending listeners key)
  · obtain ⟨listeners, key, hnotice⟩ := hpending
    rw [attempt_publish hnotice]
    exact (modifyFiber w f _).trans ((Act.Keeps.tellAll (R := Posts) listeners x).attempt _)
  · rw [attempt_publish_of_not_pending fun listeners key hnotice => hpending ⟨listeners, key, hnotice⟩]
    exact refl w

theorem tell (w : World) (f : FiberId) (x : Exit Value Value) (hook : ExitHook) :
    w.Posts ((hook.run f x).attempt w) := by
  by_cases hhook : hook = .publish
  · subst hhook
    exact publish w f x
  · exact (Act.Keeps.exitHook (R := Posts) f x hhook).attempt w

/-- A moment in the middle of a task. -/
theorem next {m : Moment} (h : m.activity ≠ .idle) : m.world.Posts m.next.world := by
  obtain ⟨w, a⟩ := m
  cases a with
  | idle => exact absurd rfl h
  | running g left s =>
    cases left with
    | zero => exact dispatch w _
    | succ left => exact act w g left s
  | registering g left run r epoch => exact beginRegistration w g left run r epoch
  | returning g left run c => exact leaveRegistration w g left run c
  | canceling g left run c => exact (Act.Keeps.canceler (R := Posts) c).attempt w
  | exiting g x hook => exact tell w g x hook

/-! ## Tasks -/

theorem fire (herrand : t.task.isErrand = true) (w : World) : w.Posts (w.fire t) := by
  unfold World.fire
  split
  · exact refl w
  · cases htask : t.task with
    | succeed callback v => exact settle w callback _
    | actions list env => exact (Act.Keeps.actions (R := Posts) env none list).attempt w
    | _ =>
      rw [htask] at herrand
      cases herrand

theorem fireAll {due : List Timer} (h : ∀ t ∈ due, t.task.isErrand = true) (w : World) :
    w.Posts (due.foldl World.fire w) := by
  induction due generalizing w with
  | nil => exact refl w
  | cons t rest ih =>
    exact (fire (h t List.mem_cons_self) w).trans (ih (fun u hu => h u (List.mem_cons_of_mem t hu)) _)

theorem takeTask (task : Task) (w : World) : w.Posts (w.takeUp (.task task)).world := by
  cases task with
  | succeed callback v => exact settle w callback _
  | actions list env => exact (Act.Keeps.actions (R := Posts) env none list).attempt w
  | resume g run next => exact refl w
  | unwind g c run => exact refl w
  | start g =>
    unfold World.takeUp
    dsimp only
    split
    · exact modifyFiber w g _
    · exact refl w

theorem demand (s : Scene) (d : Demand) : s.moment.world.Posts (s.play (.demand d)).moment.world := by
  have hkeeps := (TracksAll.demand (J := Keeping Posts) s.kept d).keeps s.moment.world
  simp only [Scene.play]
  cases hrun : (d.act s.kept).run s.moment.world with
  | mk result v =>
    rw [hrun] at hkeeps
    cases result with
    | ok more => exact hkeeps
    | error defect => exact hkeeps

end Posts

end World

end FiberLoop
