import FiberLoop.Proofs.Runtime.Timers

/-!
# The moments of the loop

The main results of this module are `Moment.pass_of_next`, which says that the moments of a pass make up the
pass, and `LeadsTo.next`, which says that every next moment comes about by transitions.
-/

namespace FiberLoop

namespace TracksAll

/-- A closure that a fiber calls, given what the operation does that it may perform. -/
theorem call_of {V : Scope} {J : Judgement} [TracksMaking V J] (c : Call)
    (hperform : ∀ o, c = .thunk (.perform o) → J Value o.perform fun _ => True) : J Next c.act fun _ => True := by
  cases c with
  | value v | cause c | exit x => exact Tracks.pure trivial
  | thunk t => exact thunk_of t fun o ho => hperform o (congrArg Call.thunk ho)
  | bind k v =>
    exact Tracks.mono (Tracks.continuation (fun d _ => everything J d) fun d _ => everything J d) fun _ _ => trivial
  | recover r c =>
    exact Tracks.mono (Tracks.recovery (fun d _ => everything J d) fun d _ => everything J d) fun _ _ => trivial

theorem call {V : Scope} {J : Judgement} [TracksAll V J] (c : Call) : J Next c.act fun _ => True :=
  call_of c fun o _ => operation o

end TracksAll

theorem Act.Keeps.call {R : World → World → Prop} [TracksAll .everything (Keeping R)] (c : Call) : Keeps R c.act :=
  (TracksAll.call (J := Keeping R) c).keeps

/-! ## What requests leave of the loops -/

/-- A loop whose queue has only been added to. -/
structure EventLoop.Extends (l l' : EventLoop) : Prop where
  config : l'.config = l.config
  inbox : l.inbox <+: l'.inbox

namespace EventLoop.Extends

theorem refl (l : EventLoop) : l.Extends l := ⟨rfl, List.prefix_rfl⟩

theorem trans {l l' l'' : EventLoop} (h : l.Extends l') (h' : l'.Extends l'') : l.Extends l'' :=
  ⟨h'.config.trans h.config, h.inbox.trans h'.inbox⟩

theorem queue (task : Task) (l : EventLoop) : l.Extends (l.queue task) := ⟨rfl, List.prefix_append _ _⟩

end EventLoop.Extends

namespace World

/-- A world in whose loops tasks have only been queued. -/
structure Extends (w w' : World) : Prop where
  loop : w.loop.Extends w'.loop
  aside : w.aside.Extends w'.aside
  here : w'.here = w.here

namespace Extends

variable {u w w' : World} {es : Chronicle}

theorem refl (w : World) : w.Extends w := ⟨.refl _, .refl _, rfl⟩

theorem trans (h : u.Extends w) (h' : w.Extends w') : u.Extends w' :=
  ⟨h.loop.trans h'.loop, h.aside.trans h'.aside, h'.here.trans h.here⟩

theorem modifyFiber (w : World) (f : FiberId) (change : Fiber → Fiber) : w.Extends (w.modifyFiber f change) :=
  ⟨.refl _, .refl _, rfl⟩

theorem dispatch (w : World) (task : Task) : w.Extends (w.dispatch task) := ⟨.queue task _, .refl _, rfl⟩

theorem dispatchTo (w : World) (name : LoopName) (task : Task) : w.Extends (w.dispatchTo name task) := by
  unfold World.dispatchTo
  split
  · exact dispatch w task
  · exact ⟨.refl _, .queue task _, rfl⟩

theorem interrupt (w : World) (f : FiberId) : w.Extends (w.interrupt f) := by
  unfold World.interrupt
  split
  · exact refl w
  · split
    · exact refl w
    · split
      · split
        · exact (modifyFiber w f _).trans (dispatchTo _ _ _)
        · exact modifyFiber w f _
      · exact modifyFiber w f _

theorem settle (w : World) (callback : Callback) (x : Exit Value Value) : w.Extends (w.settle callback x) := by
  unfold World.settle
  split
  · exact refl w
  · split
    · exact refl w
    · split
      · exact modifyFiber w _ _
      · exact (modifyFiber w _ _).trans (dispatchTo _ _ _)
      · exact refl w

theorem request (h : Request w es w') : w.Extends w' := by
  cases h with
  | quiet hquiet =>
    obtain ⟨added, -, hloop⟩ := hquiet.loop.inbox
    obtain ⟨added', -, haside⟩ := hquiet.aside.inbox
    exact ⟨⟨hquiet.loop.config, added, hloop.symm⟩, ⟨hquiet.aside.config, added', haside.symm⟩,
      hquiet.here⟩
  | interrupt f => exact interrupt w f
  | settle callback x => exact settle w callback x
  | launch root hook => exact ⟨.queue _ _, .refl _, rfl⟩

theorem requested (h : Requested w w') : w.Extends w' := by
  obtain ⟨es, hrequests⟩ := h
  induction hrequests with
  | refl w => exact refl w
  | step first _ ih => exact (request first).trans ih

end Extends

theorem budget_of_requested {w w' : World} (h : Requested w w') : w'.budget = w.budget :=
  congrArg Config.yieldBudget (Extends.requested h).loop.config

end World

/-! ## The moments of a pass -/

namespace Moment

/-- The moment after a number of others. -/
def after : Nat → Moment → Moment
  | 0, m => m
  | n + 1, m => after n m.next

theorem after_add (k n : Nat) (m : Moment) : after (k + n) m = after n (after k m) := by
  induction k generalizing m with
  | zero => rw [Nat.zero_add, after]
  | succ k ih =>
    rw [Nat.succ_add]
    exact ih m.next

theorem after_succ (n : Nat) (m : Moment) : after (n + 1) m = (after n m).next := after_add n 1 m

/-- The moment to which a step of a fiber leads. -/
def ofProgress (f : FiberId) (left : Nat) : Progress × World → Moment
  | (.running run next, w) => ⟨w, .running f left ⟨run, next⟩⟩
  | (.left, w) => ⟨w, .idle⟩

/-- The moments in which a registration ends. -/
theorem leaveRegistration_of_next (f : FiberId) (left : Nat) (run : Run) (canceler : Canceler) (w : World) :
    ∃ n, after n (w.leaveRegistration f left run canceler) =
      ofProgress f left (w.endRegistration f run canceler) := by
  unfold World.leaveRegistration World.endRegistration
  cases hphase : (w.fiber? f).map Fiber.phase with
  | none => exact ⟨0, rfl⟩
  | some phase =>
    cases phase with
    | registering early =>
      cases early with
      | some x => exact ⟨0, rfl⟩
      | none =>
        cases hpending : w.interruptPending f run.masks with
        | true => exact ⟨1, by simp [after, next, ofProgress]⟩
        | false => exact ⟨0, by simp [after, ofProgress]⟩
    | _ => exact ⟨0, rfl⟩

/-- The moments of a registration. -/
theorem register_of_next (f : FiberId) (left : Nat) (s : Stand) {r : Registration}
    (hdeed : s.deed = .register r) (w : World) :
    ∃ n, after n (w.act f left s) = ofProgress f left (w.register f s.run r) := by
  unfold World.act World.register
  rw [hdeed]
  cases hpending : w.interruptPending f s.run.masks with
  | true => exact ⟨0, by simp [after, ofProgress]⟩
  | false =>
    simp only [Bool.false_eq_true, if_false]
    cases hrun : (r.run ⟨f, (w.advanceEpoch f (.registering none)).epoch f⟩).caught
        (w.advanceEpoch f (.registering none)) with
    | mk result v =>
      unfold World.epoch at hrun
      cases result with
      | error d => exact ⟨1, by simp [after, next, World.beginRegistration, World.epoch, hrun, ofProgress]⟩
      | ok canceler =>
        obtain ⟨n, hn⟩ := leaveRegistration_of_next f left s.run canceler v
        refine ⟨n + 2, ?_⟩
        simp only [after, next, World.beginRegistration, World.epoch, hrun]
        exact hn

/-- The moments of a step make up the step. -/
theorem step_of_next (f : FiberId) (left : Nat) (s : Stand) (w : World) :
    ∃ n, after n (w.act f left s) = ofProgress f left (w.step f s.run s.next) := by
  rw [World.step_eq]
  cases hdeed : s.deed with
  | move s' => exact ⟨0, by simp [World.act, hdeed, after, ofProgress]⟩
  | call c run =>
    refine ⟨0, ?_⟩
    simp only [World.act, hdeed, after]
    split
    · rfl
    · rfl
  | register r => exact register_of_next f left s hdeed w
  | exit x =>
    cases hhook : (w.fiber? f).bind (·.hook) with
    | none => exact ⟨0, by simp [World.act, hdeed, hhook, after, ofProgress, World.finish, World.markDone]⟩
    | some hook =>
      refine ⟨1, ?_⟩
      simp [World.act, hdeed, hhook, after, next, ofProgress, World.finish, World.markDone]

/-- The moments of a turn make up the turn. -/
theorem turn_of_next (f : FiberId) (left : Nat) (s : Stand) (w : World) :
    ∃ n, after n ⟨w, .running f left s⟩ = ⟨w.turn f left s.run s.next, .idle⟩ := by
  induction left generalizing s w with
  | zero => exact ⟨1, rfl⟩
  | succ left ih =>
    obtain ⟨n, hn⟩ := step_of_next f left s w
    have hfirst : after (n + 1) ⟨w, .running f (left + 1) s⟩ =
        ofProgress f left (w.step f s.run s.next) := hn
    unfold World.turn
    cases hstep : w.step f s.run s.next with
    | mk progress v =>
      rw [hstep] at hfirst
      cases progress with
      | left => exact ⟨n + 1, hfirst⟩
      | running run next =>
        obtain ⟨k, hk⟩ := ih ⟨run, next⟩ v
        refine ⟨n + 1 + k, ?_⟩
        rw [after_add, hfirst]
        exact hk

/-- The moments of a message make up its handling. -/
theorem handle_of_next (message : Message) (w : World) :
    ∃ n, after n (w.takeUp message) = ⟨w.handle message, .idle⟩ := by
  cases message with
  | timer deadline timer task => exact ⟨0, rfl⟩
  | shutdown => exact ⟨0, rfl⟩
  | task task =>
    cases task with
    | succeed callback v => exact ⟨0, rfl⟩
    | actions list env => exact ⟨0, rfl⟩
    | resume f run next => exact turn_of_next f w.budget ⟨run, next⟩ w
    | unwind f canceler run =>
      obtain ⟨n, hn⟩ := turn_of_next f w.budget ⟨run, .cause .interrupted⟩ (canceler.cancel.attempt w)
      have hbudget : (canceler.cancel.attempt w).loop.config.yieldBudget = w.budget :=
        World.budget_of_requested ((Act.Keeps.canceler canceler).attempt w)
      refine ⟨n + 1, hn.trans ?_⟩
      simp only [World.handle, World.runTask, World.giveTurn, hbudget]
    | start f =>
      simp only [World.takeUp, World.handle, World.runTask, World.begin]
      cases hphase : (w.fiber? f).map Fiber.phase with
      | none => exact ⟨0, rfl⟩
      | some phase =>
        cases phase with
        | created root => exact turn_of_next f w.budget ⟨{}, .eval root⟩ _
        | _ => exact ⟨0, rfl⟩

/-- **The moments of a pass make up the pass.** -/
theorem pass_of_next (w : World) : ∃ n, after n ⟨w, .idle⟩ = ⟨w.pass, .idle⟩ := by
  unfold World.pass
  cases hstopped : w.loop.stopped with
  | true => exact ⟨0, rfl⟩
  | false =>
    have hnext : next ⟨w, .idle⟩ = w.fireDue.takeNext := by simp [next, hstopped]
    simp only [Bool.false_eq_true, if_false]
    unfold World.takeMessage
    cases hinbox : w.fireDue.loop.inbox with
    | nil =>
      refine ⟨1, ?_⟩
      rw [after, after, hnext, World.takeNext, hinbox]
    | cons message rest =>
      obtain ⟨n, hn⟩ := handle_of_next message w.fireDue.dropMessage
      refine ⟨n + 1, ?_⟩
      rw [after, hnext, World.takeNext, hinbox]
      refine hn.trans ?_
      simp [World.dropMessage, hinbox]

end Moment

/-! ## Every moment comes about by transitions -/

/-- One moment comes out of another in some run. -/
def LeadsTo (m m' : Moment) : Prop := ∃ es, Transitions m es m'

section Coverage

variable {w v : World} {f : FiberId}

namespace LeadsTo

theorem refl (m : Moment) : LeadsTo m m := ⟨[], .refl m⟩

theorem trans {m m' m'' : Moment} (h : LeadsTo m m') (h' : LeadsTo m' m'') : LeadsTo m m'' := by
  obtain ⟨es, hfirst⟩ := h
  obtain ⟨es', hsecond⟩ := h'
  exact ⟨es ++ es', hfirst.append hsecond⟩

theorem single {m m' : Moment} {es : Chronicle} (h : Transition m es m') : LeadsTo m m' := ⟨es, .one h⟩

theorem requested (h : Requested w v) (a : Activity) : LeadsTo ⟨w, a⟩ ⟨v, a⟩ := by
  obtain ⟨es, hrequests⟩ := h
  exact ⟨es, .requests hrequests a⟩

theorem timersQuiet {m m' : Moment} (h : LeadsTo m m') (hquiet : m.world.TimersQuiet) :
    m'.world.TimersQuiet := by
  obtain ⟨es, htransitions⟩ := h
  exact htransitions.timersQuiet hquiet

end LeadsTo

theorem Requested.errand {task : Task} (h : task.isErrand = true) (w : World) :
    Requested w (w.runTask task) := by
  cases task with
  | succeed callback v => exact .settle w callback _
  | actions list env => exact (Act.Keeps.actions env none list).attempt w
  | _ => cases h

theorem Requested.fire {t : Timer} (h : t.task.isErrand = true) (w : World) : Requested w (w.fire t) := by
  unfold World.fire
  split
  · exact .refl w
  · exact .errand h w

theorem Requested.fireAll {due : List Timer} (h : ∀ t ∈ due, t.task.isErrand = true) (w : World) :
    Requested w (due.foldl World.fire w) := by
  induction due generalizing w with
  | nil => exact .refl w
  | cons t rest ih =>
    exact (fire (h t List.mem_cons_self) w).trans (ih (fun u hu => h u (List.mem_cons_of_mem t hu)) _)

theorem LeadsTo.fireDue (h : w.TimersQuiet) :
    LeadsTo ⟨w, .idle⟩ ⟨w.fireDue, .idle⟩ := by
  have htends : w.loop.Tends
      { w.loop with timers := w.loop.timers.dropWhile (·.deadline ≤ w.clock) } := by
    refine ⟨rfl, Or.inl rfl, fun t ht => h.loop.timers t ?_⟩
    exact (List.dropWhile_suffix _).subset ht
  refine .trans (.single (.tend htends w.clock)) (.requested (.fireAll (fun t ht => ?_) _) .idle)
  exact h.loop.timers t ((List.takeWhile_prefix _).subset ht)

/-- A message that concerns no fiber is taken and handled. -/
theorem LeadsTo.takeQuiet {m : Message} {rest : List Message} (h : w.TimersQuiet)
    (hinbox : w.loop.inbox = m :: rest) (hquiet : m.isQuiet = true) :
    LeadsTo ⟨w, .idle⟩ ⟨w.dropMessage.handle m, .idle⟩ := by
  have hrest : w.loop.inbox = m :: w.dropMessage.loop.inbox := by
    rw [World.dropMessage, hinbox]
    rfl
  have hdrop : w.loop.Tends w.dropMessage.loop :=
    ⟨rfl, Or.inr ⟨m, hquiet, hrest⟩, h.loop.timers⟩
  cases m with
  | task task =>
    exact .trans (.single (.tend hdrop w.clock)) (.requested (.errand hquiet _) .idle)
  | shutdown =>
    have hstop : w.loop.Tends { w.dropMessage.loop with stopped := true } :=
      ⟨rfl, hdrop.inbox, hdrop.timers⟩
    exact .single (.tend hstop w.clock)
  | timer deadline timer task =>
    have harrive : w.loop.Tends (w.dropMessage.handle (.timer deadline timer task)).loop := by
      refine ⟨rfl, hdrop.inbox, fun t ht => ?_⟩
      rcases Timer.mem_insert.1 ht with rfl | ht
      · exact hquiet
      · exact hdrop.timers t ht
    exact .single (.tend harrive w.clock)

theorem LeadsTo.takeNext (h : w.TimersQuiet) : LeadsTo ⟨w, .idle⟩ w.takeNext := by
  unfold World.takeNext
  cases hinbox : w.loop.inbox with
  | nil => exact .refl _
  | cons message rest =>
    cases message with
    | timer deadline timer task =>
      have htask := h.loop.inbox deadline timer task (by rw [hinbox]; exact List.mem_cons_self)
      exact .takeQuiet h hinbox htask
    | shutdown => exact .takeQuiet h hinbox rfl
    | task task =>
      cases task with
      | succeed callback v => exact .takeQuiet h hinbox rfl
      | actions list env => exact .takeQuiet h hinbox rfl
      | resume f run next => exact .single (.resume (s := ⟨run, next⟩) hinbox)
      | unwind f canceler run => exact .single (.unwind hinbox)
      | start f =>
        have hphase : (w.dropMessage.fiber? f).map Fiber.phase = w.phase? f := rfl
        simp only [World.takeUp, hphase]
        split
        · rename_i root heq
          exact .single (.start hinbox heq)
        · rename_i hnone
          exact .single (.startLate hinbox hnone)

theorem LeadsTo.act (w : World) (f : FiberId) (left : Nat) (s : Stand) :
    LeadsTo ⟨w, .running f (left + 1) s⟩ (w.act f left s) := by
  unfold World.act
  cases hdeed : s.deed with
  | move s' => exact .single (.move w f left hdeed)
  | call c run =>
    dsimp only
    split
    · rename_i hcuts
      exact .single (.cut left hdeed hcuts)
    · rename_i hcuts
      obtain ⟨es, hrequests⟩ := (Act.Keeps.call (R := Requested) c).caught w
      exact .single (.call left hdeed (Bool.not_eq_true _ ▸ hcuts) hrequests)
  | register r =>
    dsimp only
    split
    · rename_i hpending
      exact .single (.cutWait left hdeed hpending)
    · rename_i hpending
      exact .single (.register left hdeed (Bool.not_eq_true _ ▸ hpending) rfl)
  | exit x =>
    dsimp only
    split
    · rename_i hook hhook
      exact .single (.exit left hdeed hhook)
    · rename_i hhook
      exact .single (.exitSilently left hdeed hhook)

theorem LeadsTo.beginRegistration (w : World) (f : FiberId) (left : Nat) (run : Run) (r : Registration)
    (epoch : Nat) : LeadsTo ⟨w, .registering f left run r epoch⟩
      (w.beginRegistration f left run r epoch) := by
  obtain ⟨es, hrequests⟩ := (Act.Keeps.registration (R := Requested) r ⟨f, epoch⟩).caught w
  unfold World.beginRegistration
  cases hrun : (r.run ⟨f, epoch⟩).caught w with
  | mk result v =>
    rw [hrun] at hrequests
    cases result with
    | error d => exact .single (.throw left run hrun hrequests)
    | ok canceler => exact .single (.return left run hrun hrequests)

theorem LeadsTo.leaveRegistration (w : World) (f : FiberId) (left : Nat) (run : Run)
    (canceler : Canceler) : LeadsTo ⟨w, .returning f left run canceler⟩
      (w.leaveRegistration f left run canceler) := by
  have hphase : (w.fiber? f).map Fiber.phase = w.phase? f := rfl
  unfold World.leaveRegistration
  rw [hphase]
  split
  · rename_i x heq
    exact .single (.early left run canceler heq)
  · rename_i heq
    split
    · rename_i hpending
      exact .single (.leave left canceler heq hpending)
    · rename_i hpending
      exact .single (.park left canceler heq (Bool.not_eq_true _ ▸ hpending))
  · rename_i hsome hnone
    refine .single (.unexpected left run canceler fun early hearly => ?_)
    cases early with
    | none => exact hnone hearly
    | some x => exact hsome x hearly

theorem World.publish_of_pending {x : Exit Value Value} {listeners : List (Nat × Listener)} {key : Nat}
    (h : w.notice? f = some (.pending listeners key)) :
    (World.publish f x).run w =
      (listeners.forM fun listener => listener.2.notify x).run (w.setNotice f (.done x)) := by
  unfold World.publish
  rw [Act.run_bind, Act.run_get]
  dsimp only
  rw [h]
  rfl

theorem World.publish_of_not_pending {x : Exit Value Value}
    (h : ∀ listeners key, w.notice? f ≠ some (.pending listeners key)) :
    (World.publish f x).run w = (.ok (), w) := by
  unfold World.publish
  rw [Act.run_bind, Act.run_get]
  dsimp only
  split
  · rename_i listeners key hnotice
    exact absurd hnotice (h listeners key)
  · rfl

/-- A fiber that publishes its exit puts it into its notice and tells everybody who waits there. -/
theorem World.attempt_publish {x : Exit Value Value} {listeners : List (Nat × Listener)} {key : Nat}
    (h : w.notice? f = some (.pending listeners key)) :
    (ExitHook.publish.run f x).attempt w =
      (listeners.forM fun listener => listener.2.notify x : Act PUnit).attempt (w.setNotice f (.done x)) := by
  unfold Act.attempt Act.caught ExitHook.run
  rw [World.publish_of_pending h]

/-- Without a notice that waits for the exit nothing happens. -/
theorem World.attempt_publish_of_not_pending {x : Exit Value Value}
    (h : ∀ listeners key, w.notice? f ≠ some (.pending listeners key)) :
    (ExitHook.publish.run f x).attempt w = w := by
  unfold Act.attempt Act.caught ExitHook.run
  rw [World.publish_of_not_pending h]

theorem World.announce_of_pending {x : Exit Value Value} {listeners : List (Nat × Listener)} {key : Nat}
    (h : w.notice? f = some (.pending listeners key)) : w.announce f x .publish = w.setNotice f (.done x) := by
  simp [World.announce, h]

theorem World.announce_of_not_pending {x : Exit Value Value}
    (h : ∀ listeners key, w.notice? f ≠ some (.pending listeners key)) : w.announce f x .publish = w := by
  unfold World.announce
  split
  · rename_i hnotice
    exact absurd hnotice (h _ _)
  · rfl

theorem Requested.publish (w : World) (f : FiberId) (x : Exit Value Value) :
    Requested (w.announce f x .publish) ((ExitHook.publish.run f x).attempt w) := by
  by_cases hpending : ∃ listeners key, w.notice? f = some (.pending listeners key)
  · obtain ⟨listeners, key, hnotice⟩ := hpending
    rw [World.announce_of_pending hnotice, World.attempt_publish hnotice]
    exact (Act.Keeps.tellAll (R := Requested) listeners x).attempt _
  · have hnone : ∀ listeners key, w.notice? f ≠ some (.pending listeners key) :=
      fun listeners key hnotice => hpending ⟨listeners, key, hnotice⟩
    rw [World.announce_of_not_pending hnone, World.attempt_publish_of_not_pending hnone]
    exact .refl w

/-- Telling an exit puts it into the notice and then makes requests. -/
theorem Requested.tell (w : World) (f : FiberId) (x : Exit Value Value) (hook : ExitHook) :
    Requested (w.announce f x hook) ((hook.run f x).attempt w) := by
  by_cases hhook : hook = .publish
  · subst hhook
    exact .publish w f x
  · have hworld : w.announce f x hook = w := by
      unfold World.announce
      split
      · exact absurd rfl hhook
      · rfl
    rw [hworld]
    exact (Act.Keeps.exitHook f x hhook).attempt w

/-- **The next moment comes about by transitions.** -/
theorem LeadsTo.next {m : Moment} (h : m.world.TimersQuiet) : LeadsTo m m.next := by
  obtain ⟨w, a⟩ := m
  cases a with
  | idle =>
    unfold Moment.next
    dsimp only
    split
    · exact .refl _
    · have hdue := LeadsTo.fireDue h
      exact hdue.trans (.takeNext (hdue.timersQuiet h))
  | running f left s =>
    cases left with
    | zero => exact .single (.yield w f s)
    | succ left => exact .act w f left s
  | registering f left run r epoch => exact .beginRegistration w f left run r epoch
  | returning f left run canceler => exact .leaveRegistration w f left run canceler
  | canceling f left run canceler =>
    obtain ⟨es, hrequests⟩ := (Act.Keeps.canceler (R := Requested) canceler).attempt w
    exact .single (.cancel left run rfl hrequests)
  | exiting f x hook =>
    obtain ⟨es, hrequests⟩ := Requested.tell w f x hook
    exact .single (.tell rfl hrequests)

theorem LeadsTo.after {m : Moment} (n : Nat) (h : m.world.TimersQuiet) : LeadsTo m (Moment.after n m) := by
  induction n generalizing m with
  | zero => exact .refl m
  | succ n ih =>
    have hnext := LeadsTo.next h
    exact hnext.trans (ih (hnext.timersQuiet h))

end Coverage

end FiberLoop
