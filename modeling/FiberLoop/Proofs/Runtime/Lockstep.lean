import FiberLoop.Proofs.Runtime.Deafness

/-!
# The loop does not see the flag of a sheltered fiber

Two moments that differ only in the flag of a fiber under its shield are followed by two moments that differ only
in that flag. The main result of this module is `Moment.next_raise`.
-/

namespace FiberLoop

/-- The same moment with the flag of a fiber set. -/
def Moment.raise (f : FiberId) (m : Moment) : Moment := ⟨m.world.raise f, m.activity⟩

/-- A moment at which a fiber is under its shield. -/
def Moment.Sheltered (f : FiberId) (body : Effect) (m : Moment) : Prop :=
  ∃ p, Fits f (m.view f) p ∧ Sealed body p.standing

section Lockstep

variable {f : FiberId} {body : Effect} {w : World} {m : Moment}

theorem Moment.Sheltered.world (h : m.Sheltered f body) : m.world.Sheltered f body := by
  obtain ⟨p, hfits, hsealed⟩ := h
  exact ⟨_, p, hfits, hsealed⟩

/-- The fiber of an activity stands where the activity says. -/
theorem Moment.Sheltered.held {a : Activity} (h : Moment.Sheltered f body ⟨w, a⟩) (ha : a.fiber? = some f) :
    ∃ p : Place, Held f p.epoch p.hook p.standing (w.tokens f) a ∧ Sealed body p.standing := by
  obtain ⟨p, hfits, hsealed⟩ := h
  exact ⟨p, hfits.held_of_activity rfl ha, hsealed⟩

namespace World

/-- Whether a request applies to a masked fiber does not depend on its flag. -/
theorem interruptPending_raise {g : FiberId} {masks : Masks} (h : g = f → masks.isInterruptible = false) :
    (w.raise f).interruptPending g masks = w.interruptPending g masks := by
  by_cases hg : g = f
  · simp [interruptPending, h hg]
  · have hne : f ≠ g := fun e => hg e.symm
    simp only [interruptPending, fiber?_raise, if_neg hne, Option.map_id']

theorem epoch_raise (w : World) (f g : FiberId) : (w.raise f).epoch g = w.epoch g :=
  reading_raise (fun o => o.elim 0 (·.epoch)) (fun _ => rfl) w f g

theorem phase_raise (w : World) (f g : FiberId) :
    ((w.raise f).fiber? g).map Fiber.phase = (w.fiber? g).map Fiber.phase :=
  reading_raise (fun o => o.map Fiber.phase) (fun _ => rfl) w f g

theorem hook_raise (w : World) (f g : FiberId) :
    ((w.raise f).fiber? g).bind (·.hook) = (w.fiber? g).bind (·.hook) :=
  reading_raise (fun o => o.bind (·.hook)) (fun _ => rfl) w f g

theorem advanceEpoch_raise (w : World) (f g : FiberId) (phase : Phase) :
    (w.raise f).advanceEpoch g phase = (w.advanceEpoch g phase).raise f := modifyFiber_raise (fun _ => rfl) w f g

theorem markDone_raise (w : World) (f g : FiberId) (x : Exit Value Value) :
    (w.raise f).markDone g x = (w.markDone g x).raise f := modifyFiber_raise (fun _ => rfl) w f g

/-! ## Between two tasks -/

theorem Sheltered.runErrand (h : w.Sheltered f body) (task : Task) (herrand : task.isErrand = true) :
    (w.raise f).runTask task = (w.runTask task).raise f := by
  cases task with
  | succeed callback v => exact w.settle_raise f callback _
  | actions list env =>
    have hdeaf : Deaf f body Unit (Action.runAll env none list) fun _ => True :=
      Tracks.actions (fun _ _ => trivial) Scope.noCallback list
    exact hdeaf.2.attempt h
  | _ => cases herrand

theorem Sheltered.fireAll (h : w.Sheltered f body) {due : List Timer}
    (hdue : ∀ t ∈ due, t.task.isErrand = true) :
    due.foldl fire (w.raise f) = (due.foldl fire w).raise f := by
  induction due generalizing w with
  | nil => rfl
  | cons t rest ih =>
    have hfire : (w.raise f).fire t = (w.fire t).raise f := by
      have hcancelled : (w.raise f).isCancelled t.timer = w.isCancelled t.timer := rfl
      simp only [fire, hcancelled, h.runErrand t.task (hdue t List.mem_cons_self)]
      split <;> rfl
    have hfired : Requested w (w.fire t) := .fire (hdue t List.mem_cons_self) w
    rw [List.foldl_cons, List.foldl_cons, hfire]
    exact ih (h.requested hfired) fun u hu => hdue u (List.mem_cons_of_mem t hu)

/-- The world without its timers and messages shows the same of a fiber. -/
theorem Sheltered.withTimers (h : w.Sheltered f body) (timers : List Timer) :
    Sheltered f body { w with loop := { w.loop with timers := timers } } := h

theorem TimersQuiet.due (h : w.TimersQuiet) :
    ∀ t ∈ w.loop.timers.takeWhile (·.deadline ≤ w.clock), t.task.isErrand = true :=
  fun t ht => h.loop.timers t ((List.takeWhile_prefix _).subset ht)

theorem Sheltered.raise_fireDue (h : w.Sheltered f body) (hquiet : w.TimersQuiet) :
    (w.raise f).fireDue = w.fireDue.raise f := (h.withTimers _).fireAll hquiet.due

theorem Sheltered.fireDue (h : w.Sheltered f body) (hquiet : w.TimersQuiet) : w.fireDue.Sheltered f body :=
  (h.withTimers _).requested (.fireAll hquiet.due _)

/-- A fiber stays where it is when a message that is not about it is taken. -/
theorem Sheltered.dropMessage (h : w.Sheltered f body) {task : Task} {rest : List Message}
    (hinbox : w.loop.inbox = .task task :: rest) (herrand : task.isErrand = true) :
    w.dropMessage.Sheltered f body := by
  obtain ⟨a, p, hfits, hsealed⟩ := h
  have hother : task.fiber? ≠ some f := by
    rw [Task.fiber?_of_isErrand herrand]
    exact nofun
  exact ⟨a, p, (view_dropMessage_of_ne hinbox hother a).symm ▸ hfits, hsealed⟩

/-- The next message is the same, and so is what it leads to. -/
theorem Sheltered.takeNext (h : w.Sheltered f body) :
    (w.raise f).takeNext = w.takeNext.raise f := by
  have hsame : (w.raise f).loop.inbox = w.loop.inbox := rfl
  have hdrop : (w.raise f).dropMessage = w.dropMessage.raise f := rfl
  unfold World.takeNext
  rw [hsame, hdrop]
  cases hinbox : w.loop.inbox with
  | nil => rfl
  | cons message rest =>
    cases message with
    | timer deadline timer task => rfl
    | shutdown => rfl
    | task task =>
      cases task with
      | resume g run next => rfl
      | unwind g canceler run => rfl
      | succeed callback v =>
        have herrand := (h.dropMessage hinbox rfl).runErrand (.succeed callback v) rfl
        exact congrArg (Moment.mk · .idle) herrand
      | actions list env =>
        have herrand := (h.dropMessage hinbox rfl).runErrand (.actions list env) rfl
        exact congrArg (Moment.mk · .idle) herrand
      | start g =>
        simp only [takeUp, phase_raise]
        split
        · exact congrArg (Moment.mk · _) (modifyFiber_raise (fun _ => rfl) _ f g)
        · rfl

end World

/-! ## A fiber that runs -/

variable {g : FiberId} {left : Nat} {run : Run}

theorem Moment.Sheltered.act {s : Stand} (h : Moment.Sheltered f body ⟨w, .running g (left + 1) s⟩) :
    (w.raise f).act g left s = (w.act g left s).raise f := by
  have hworld : w.Sheltered f body := h.world
  have hready : g = f → Sealed body (.ready s) := by
    rintro rfl
    obtain ⟨p, hheld, hsealed⟩ := h.held rfl
    rwa [hheld.of_running.1] at hsealed
  unfold World.act
  cases hdeed : s.deed with
  | move s' => rfl
  | call c run =>
    have hcuts : (w.raise f).cuts g c run = w.cuts g c run :=
      congrArg (c.yields && ·) (World.interruptPending_raise fun hg => ((hready hg).within_of_call hdeed).masked)
    have hcall := (TracksAll.call (J := Deaf f body) c).2.caught hworld
    simp only [hcuts, World.called, hcall]
    split <;> rfl
  | register r =>
    have hpending : (w.raise f).interruptPending g s.run.masks = w.interruptPending g s.run.masks :=
      World.interruptPending_raise fun hg => ((hready hg).within_of_register hdeed).masked
    simp only [hpending, World.advanceEpoch_raise, World.epoch_raise]
    split <;> rfl
  | exit x =>
    simp only [World.hook_raise, World.markDone_raise]
    split <;> rfl

theorem World.Sheltered.beginRegistration (h : w.Sheltered f body) (g : FiberId) (left : Nat) (run : Run)
    (r : Registration) (epoch : Nat) :
    (w.raise f).beginRegistration g left run r epoch = (w.beginRegistration g left run r epoch).raise f := by
  have hdeaf : Deaf f body Canceler (r.run ⟨g, epoch⟩) _ :=
    Tracks.registration (fun _ _ => trivial) trivial (fun _ => trivial) fun _ => trivial
  simp only [World.beginRegistration, hdeaf.2.caught h]
  cases (r.run ⟨g, epoch⟩).caught w with
  | mk result v =>
    cases result with
    | ok canceler => rfl
    | error d => exact congrArg (Moment.mk · _) (v.advanceEpoch_raise f g .running)

theorem Moment.Sheltered.leaveRegistration {canceler : Canceler}
    (h : Moment.Sheltered f body ⟨w, .returning g left run canceler⟩) :
    (w.raise f).leaveRegistration g left run canceler = (w.leaveRegistration g left run canceler).raise f := by
  have hpending : (w.raise f).interruptPending g run.masks = w.interruptPending g run.masks := by
    refine World.interruptPending_raise ?_
    rintro rfl
    obtain ⟨p, hheld, hsealed⟩ := h.held rfl
    obtain ⟨⟨early, hstanding⟩, -⟩ := hheld.of_returning
    rw [hstanding] at hsealed
    exact hsealed.within_of_returned.masked
  simp only [World.leaveRegistration, World.phase_raise, hpending, World.advanceEpoch_raise]
  split
  · rfl
  · split
    · rfl
    · exact congrArg (Moment.mk · _) (World.modifyFiber_raise (fun _ => rfl) w f g)
  · rfl

/-! ## An exit that is told -/

/-- The fiber stays under its shield when an exit is put into a notice. -/
theorem Moment.Sheltered.announce {x : Exit Value Value} {hook : ExitHook}
    (h : Moment.Sheltered f body ⟨w, .exiting g x hook⟩) : (w.announce g x hook).Sheltered f body := by
  by_cases hg : g = f
  · subst hg
    obtain ⟨p, hfits, hsealed⟩ := h
    have hview : Moment.view g ⟨w, .exiting g x hook⟩ = w.view g (.exiting g x hook) := Moment.view_self rfl
    rw [hview] at hfits
    exact ⟨_, _, hfits.announce.2.2, .done x⟩
  · obtain ⟨a, p, hfits, hsealed⟩ := h.world
    exact ⟨a, p, (World.view_announce_of_ne hg w x hook a).symm ▸ hfits, hsealed⟩

theorem Moment.Sheltered.tell {x : Exit Value Value} {hook : ExitHook}
    (h : Moment.Sheltered f body ⟨w, .exiting g x hook⟩) :
    (hook.run g x).attempt (w.raise f) = ((hook.run g x).attempt w).raise f := by
  by_cases hhook : hook = .publish
  · subst hhook
    by_cases hpending : ∃ listeners key, w.notice? g = some (.pending listeners key)
    · obtain ⟨listeners, key, hnotice⟩ := hpending
      have hannounced := h.announce
      rw [World.announce_of_pending hnotice] at hannounced
      have htell : Deaf f body PUnit (listeners.forM fun listener => listener.2.notify x) fun _ => True :=
        Tracks.forM listeners fun listener _ => Tracks.notify listener.2.in_everything fun _ _ => trivial
      have hraised : (w.raise f).notice? g = some (.pending listeners key) := by
        rw [World.notice?_raise, hnotice]
      rw [World.attempt_publish hnotice, World.attempt_publish hraised, World.setNotice_raise]
      exact htell.2.attempt hannounced
    · have hnone : ∀ listeners key, w.notice? g ≠ some (.pending listeners key) :=
        fun listeners key hnotice => hpending ⟨listeners, key, hnotice⟩
      rw [World.attempt_publish_of_not_pending hnone, World.attempt_publish_of_not_pending]
      intro listeners key
      rw [World.notice?_raise]
      exact hnone listeners key
  · have hdeaf : Deaf f body Unit (hook.run g x) fun _ => True :=
      Tracks.exitHook g (fun _ _ => trivial) (fun _ _ => trivial) fun hpublish => absurd hpublish hhook
    exact hdeaf.2.attempt h.world

/-- **The next moment does not depend on the flag of a sheltered fiber, but for that flag.** -/
theorem Moment.next_raise (h : m.Sheltered f body) (hquiet : m.world.TimersQuiet) :
    (m.raise f).next = m.next.raise f := by
  obtain ⟨w, a⟩ := m
  cases a with
  | idle =>
    have hworld : w.Sheltered f body := h.world
    have hstopped : (w.raise f).loop.stopped = w.loop.stopped := rfl
    simp only [Moment.next, Moment.raise, hstopped, hworld.raise_fireDue hquiet]
    split
    · rfl
    · exact (hworld.fireDue hquiet).takeNext
  | running g left s =>
    cases left with
    | zero => rfl
    | succ left => exact h.act
  | registering g left run r epoch => exact h.world.beginRegistration g left run r epoch
  | returning g left run canceler => exact h.leaveRegistration
  | canceling g left run canceler =>
    have hdeaf : Deaf f body Unit canceler.cancel fun _ => True :=
      Tracks.canceler (fun _ _ => trivial) fun _ => trivial
    exact congrArg (Moment.mk · _) (hdeaf.2.attempt h.world)
  | exiting g x hook => exact congrArg (Moment.mk · _) h.tell

end Lockstep

end FiberLoop
