import FiberLoop.Proofs.Ownership

/-!
# Heeding interrupts

A fiber with a request to interrupt it is not parked where it may be interrupted: the request would have ended its
registration, and no interrupt is pending when a registration begins or when the fiber is parked at its end. For
the same reason only one registration of a fiber can end by interruption.

The main result of this module is `Reachable.heeding`, by one lemma for what is requested and one for each step.
-/

namespace FiberLoop

/-- A registration of the fiber ends because its interruption was requested. -/
def Event.isInterruption : Event → Bool
  | .ended _ .interrupted => true
  | _ => false

/-- A registration is on the way in that run. -/
inductive Activity.Waits (f : FiberId) (run : Run) : Activity → Prop where
  | registering (left : Nat) (r : Registration) (epoch : Nat) : Waits f run (.registering f left run r epoch)
  | returning (left : Nat) (canceler : Canceler) : Waits f run (.returning f left run canceler)

/-- What is shown of a fiber does not contradict a request to interrupt it. -/
structure Heeding (f : FiberId) (events : List Event) (v : View) : Prop where
  parked : ∀ r run canceler, v.record = some r → r.interruptRequested = true →
    r.phase = .suspended run canceler → run.masks.isInterruptible = false
  once : events.countP Event.isInterruption ≤ 1
  spent : events.countP Event.isInterruption = 1 →
    (∃ r, v.record = some r ∧ r.interruptRequested = true) ∧
      ∀ run, v.activity.Waits f run → run.masks.isInterruptible = false

section Heeding

variable {f g : FiberId} {p : Place} {m m' : Moment} {w v : World} {es es' : Chronicle} {a : Activity}
  {events more : List Event}

/-- A change after which the fiber is not parked and has heard no less. -/
theorem Heeding.change {u u' : View} (h : Heeding f events u) {r r' : Fiber} (hr : u.record = some r)
    (hr' : u'.record = some r') (hflag : r.interruptRequested = true → r'.interruptRequested = true)
    (hphase : ∀ run canceler, r'.phase ≠ .suspended run canceler)
    (hmore : more.countP Event.isInterruption = 0)
    (hwaits : ∀ run, u'.activity.Waits f run →
      u.activity.Waits f run ∨ (r.interruptRequested = true → run.masks.isInterruptible = false)) :
    Heeding f (events ++ more) u' := by
  have hcount : (events ++ more).countP Event.isInterruption = events.countP Event.isInterruption := by
    rw [List.countP_append, hmore, Nat.add_zero]
  refine ⟨?_, ?_, ?_⟩
  · intro s run canceler hs _ hsuspended
    cases hr'.symm.trans hs
    exact absurd hsuspended (hphase run canceler)
  · rw [hcount]
    exact h.once
  · intro hone
    rw [hcount] at hone
    obtain ⟨⟨s, hs, hrequested⟩, hclosed⟩ := h.spent hone
    cases hr.symm.trans hs
    refine ⟨⟨r', hr', hflag hrequested⟩, fun run hrun => ?_⟩
    rcases hwaits run hrun with hbefore | hmasks
    · exact hclosed run hbefore
    · exact hmasks hrequested

/-- A change that does not concern the fiber. -/
theorem Heeding.congr {u u' : View} (h : Heeding f events u) (hrecord : u'.record = u.record)
    (hactivity : u'.activity = u.activity) (hmore : more.countP Event.isInterruption = 0) :
    Heeding f (events ++ more) u' := by
  have hcount : (events ++ more).countP Event.isInterruption = events.countP Event.isInterruption := by
    rw [List.countP_append, hmore, Nat.add_zero]
  refine ⟨?_, ?_, ?_⟩
  · rw [hrecord]
    exact h.parked
  · rw [hcount]
    exact h.once
  · rw [hcount, hrecord, hactivity]
    exact h.spent

/-- The fiber goes on to something that is no registration, and its record stays. -/
theorem Heeding.goOn {u u' : View} (h : Heeding f events u) (hrecord : u'.record = u.record)
    (hactivity : ∀ run, ¬ u'.activity.Waits f run) (hmore : more.countP Event.isInterruption = 0) :
    Heeding f (events ++ more) u' := by
  have hcount : (events ++ more).countP Event.isInterruption = events.countP Event.isInterruption := by
    rw [List.countP_append, hmore, Nat.add_zero]
  refine ⟨?_, ?_, ?_⟩
  · rw [hrecord]
    exact h.parked
  · rw [hcount]
    exact h.once
  · rw [hcount, hrecord]
    intro hone
    exact ⟨(h.spent hone).1, fun run hrun => absurd hrun (hactivity run)⟩

/-! ## Requests -/

/-- The first request ends the registration of a fiber that is parked where it may be interrupted. -/
theorem Heeding.interrupt (h : Heeding f events (w.view f a)) (hfits : Fits f (w.view f a) p) :
    Heeding f (events ++ history f (w.interruptEvents f)) ((w.interrupt f).view f a) := by
  obtain ⟨home, hrecord⟩ := hfits.record
  have hview : w.record f = some (p.record home) := hrecord
  cases hrequested : p.requested with
  | true =>
    obtain ⟨hworld, hevents⟩ := World.interrupt_of_record hview hrequested
    rw [hworld, hevents]
    exact h.congr rfl rfl rfl
  | false =>
    have hflagged : (w.modifyFiber f fun r => { r with interruptRequested := true }).record f =
        some { p.record home with interruptRequested := true } := World.record_modifyFiber hview fun _ => rfl
    by_cases hparked : ∃ run canceler, p.standing = .parked run canceler
    · obtain ⟨run, canceler, hstanding⟩ := hparked
      have hphase : (p.record home).phase = .suspended run canceler := by
        rw [Place.phase_record, hstanding]
        rfl
      cases hmasks : run.masks.isInterruptible with
      | false =>
        obtain ⟨hworld, hevents⟩ := World.interrupt_of_masked hview hrequested hphase hmasks
        rw [hworld, hevents, history_cons_self]
        refine ⟨?_, ?_, ?_⟩
        · intro r run' canceler' hr _ hsuspended
          cases hflagged.symm.trans hr
          cases hphase.symm.trans hsuspended
          exact hmasks
        · rw [List.countP_append]
          exact h.once
        · rw [List.countP_append]
          intro hone
          exact ⟨⟨_, hflagged, rfl⟩, (h.spent hone).2⟩
      | true =>
        obtain ⟨hworld, hevents⟩ := World.interrupt_of_open hview hrequested hphase hmasks
        rw [hworld, hevents, history_cons_self, history_cons_self]
        -- The flag was down, so no registration has ended by interruption yet.
        have hnone : events.countP Event.isInterruption = 0 := by
          have honce := h.once
          rcases Nat.lt_or_ge (events.countP Event.isInterruption) 1 with hlt | hge
          · omega
          · obtain ⟨⟨r, hr, hset⟩, -⟩ := h.spent (Nat.le_antisymm honce hge)
            cases hview.symm.trans hr
            exact nomatch hrequested.symm.trans hset
        have hheld := hfits.held
        rw [hstanding] at hheld
        have hidle : a = .idle := hheld.of_parked.2
        have hchanged : ((w.modifyFiber f fun r => { r with
            interruptRequested := true, phase := .running, epoch := r.epoch + 1 }).dispatchTo
              (p.record home).home (.unwind f canceler run)).record f = some { p.record home with
                interruptRequested := true, phase := .running, epoch := p.epoch + 1 } := by
          rw [World.record_dispatchTo]
          exact World.record_modifyFiber hview fun _ => rfl
        refine ⟨?_, ?_, ?_⟩
        · intro r run' canceler' hr _ hsuspended
          cases hchanged.symm.trans hr
          cases hsuspended
        · rw [List.countP_append, hnone]
          exact Nat.le_refl 1
        · intro _
          refine ⟨⟨_, hchanged, rfl⟩, fun run' hwaits => ?_⟩
          have hnot : Activity.Waits f run' .idle := hidle ▸ hwaits
          cases hnot
    · have hphase : ∀ run canceler, (p.record home).phase ≠ .suspended run canceler :=
        fun run canceler he => hparked ⟨run, canceler, Standing.phase_eq_suspended he⟩
      obtain ⟨hworld, hevents⟩ := World.interrupt_of_not_suspended hview hrequested hphase
      rw [hworld, hevents, history_cons_self]
      exact h.change hview hflagged (fun _ => rfl) hphase rfl fun _ => Or.inl

/-- A completion ends a registration with its exit. -/
theorem Heeding.settle {callback : Callback} (h : Heeding callback.fiber events (w.view callback.fiber a))
    (hfits : Fits callback.fiber (w.view callback.fiber a) p) (x : Exit Value Value) :
    Heeding callback.fiber (events ++ history callback.fiber (w.settleEvents callback x))
      ((w.settle callback x).view callback.fiber a) := by
  obtain ⟨home, hrecord⟩ := hfits.record
  have hview : w.record callback.fiber = some (p.record home) := hrecord
  by_cases hepoch : (p.record home).epoch = callback.epoch
  · cases hphase : (p.record home).phase with
    | registering early =>
      obtain ⟨hworld, hevents⟩ := World.settle_of_registering hview hepoch hphase x
      rw [hworld, hevents]
      refine h.change hview (World.record_modifyFiber hview fun _ => rfl) id (fun _ _ => Phase.noConfusion) ?_
        fun _ => Or.inl
      split
      · rfl
      · rw [history_cons_self]
        rfl
    | suspended run canceler =>
      obtain ⟨hworld, hevents⟩ := World.settle_of_suspended hview hepoch hphase x
      have hchanged : ((w.modifyFiber callback.fiber fun r =>
          { r with phase := .running, epoch := r.epoch + 1 }).dispatchTo (p.record home).home
            (.resume callback.fiber run (.ofExit x))).record callback.fiber =
          some { p.record home with phase := .running, epoch := (p.record home).epoch + 1 } := by
        rw [World.record_dispatchTo]
        exact World.record_modifyFiber hview fun _ => rfl
      rw [hworld, hevents, history_cons_self, history_cons_self]
      exact h.change hview hchanged id (fun _ _ => Phase.noConfusion) rfl fun _ => Or.inl
    | created root | running | done =>
      obtain ⟨hworld, hevents⟩ := World.settle_of_phase hview
        (by rw [hphase]; exact fun _ => Phase.noConfusion)
        (by rw [hphase]; exact fun _ _ => Phase.noConfusion) x
      rw [hworld, hevents]
      exact h.congr rfl rfl rfl
  · obtain ⟨hworld, hevents⟩ := World.settle_of_record_epoch hview hepoch x
    rw [hworld, hevents]
    exact h.congr rfl rfl rfl

/-- A fiber that is not there has heard no request. -/
theorem Heeding.absent {u : View} (hrecord : u.record = none) (hcount : events.countP Event.isInterruption = 0) :
    Heeding f events u := by
  refine ⟨fun r run canceler hr => ?_, ?_, fun hone => ?_⟩
  · exact nomatch hrecord.symm.trans hr
  · omega
  · omega

theorem Heeding.count_of_absent {u : View} (h : Heeding f events u) (hrecord : u.record = none) :
    events.countP Event.isInterruption = 0 := by
  have honce := h.once
  rcases Nat.lt_or_ge (events.countP Event.isInterruption) 1 with hlt | hge
  · omega
  · obtain ⟨⟨r, hr, -⟩, -⟩ := h.spent (Nat.le_antisymm honce hge)
    exact nomatch hrecord.symm.trans hr

theorem Request.heeding (hrequest : Request w es' v) {before : List Event}
    (haccounted : Accounted f (w.view f a) before) (h : Heeding f events (w.view f a)) :
    Heeding f (events ++ history f es') (v.view f a) := by
  cases hrequest with
  | quiet hquiet => exact h.congr (hquiet.record f) rfl rfl
  | interrupt g =>
    by_cases hg : g = f
    · subst hg
      rcases haccounted.cases with ⟨-, habsent⟩ | ⟨p, -, hfits⟩
      · obtain ⟨hworld, hevents⟩ := World.interrupt_of_absent habsent.record
        rw [hworld, hevents]
        exact h.congr rfl rfl rfl
      · exact h.interrupt hfits
    · rw [World.history_interruptEvents_of_ne hg]
      exact h.congr (World.record_interrupt_of_ne hg w) rfl rfl
  | settle callback x =>
    by_cases hg : callback.fiber = f
    · subst hg
      rcases haccounted.cases with ⟨-, habsent⟩ | ⟨p, -, hfits⟩
      · obtain ⟨hworld, hevents⟩ := World.settle_of_absent habsent.record x
        rw [hworld, hevents]
        exact h.congr rfl rfl rfl
      · exact h.settle hfits x
    · rw [World.history_settleEvents_of_ne hg]
      exact h.congr (World.record_settle_of_ne hg x w) rfl rfl
  | launch root hook =>
    by_cases hf : f = ⟨w.fibers.size⟩
    · subst hf
      have hnone : w.record ⟨w.fibers.size⟩ = none := by
        cases hrecord : w.record ⟨w.fibers.size⟩ with
        | none => rfl
        | some r => exact absurd rfl (World.ne_size_of_record hrecord)
      have hcount : (events ++ history ⟨w.fibers.size⟩ [(⟨w.fibers.size⟩, .launched root hook)]).countP
          Event.isInterruption = 0 := by
        rw [history_cons_self, List.countP_append, h.count_of_absent hnone]
        rfl
      have hfiber : (w.launch root hook hook.notice).2.fiber? ⟨w.fibers.size⟩ =
          some { home := w.here, phase := .created root, hook := some hook, notice := hook.notice } := by
        show (w.fibers.push _).get? w.fibers.size = _
        rw [Table.get?_push, if_pos rfl]
      refine ⟨fun r run canceler hr hrequested => ?_, ?_, fun hone => ?_⟩
      · have hrecord : ((w.launch root hook hook.notice).2.fiber? ⟨w.fibers.size⟩).map Fiber.core = some r := hr
        rw [hfiber] at hrecord
        cases hrecord
        cases hrequested
      · omega
      · omega
    · rw [history_cons_of_ne (Ne.symm hf)]
      refine h.congr ?_ rfl rfl
      show World.record _ _ = World.record _ _
      rw [World.record, World.fiber?_launch_of_ne hf]
      rfl

theorem Requests.heeding (hrequests : Requests w es' v) {before : List Event}
    (haccounted : Accounted f (w.view f a) before) (h : Heeding f events (w.view f a)) :
    Heeding f (events ++ history f es') (v.view f a) := by
  induction hrequests generalizing before events with
  | refl w =>
    rw [history_nil, List.append_nil]
    exact h
  | step first _ ih =>
    rw [history_append, ← List.append_assoc]
    exact ih (first.accounted haccounted) (first.heeding haccounted h)

/-! ## Steps of the runtime -/

theorem Activity.not_waits_idle (run : Run) : ¬ Activity.Waits f run .idle := nofun

/-- A step of others changes nothing but what they request. -/
theorem Transition.heeding_of_foreign (htransition : Transition m es' m') (hforeign : Foreign f m)
    {before : List Event} (haccounted : Accounted f (m.view f) before) (h : Heeding f events (m.view f)) :
    Heeding f (events ++ history f es') (m'.view f) := by
  obtain ⟨u, v, es'', hbefore, hrequests, hafter, hes⟩ := htransition.unmoved hforeign
  rw [hforeign.view] at h haccounted
  have hstart : Heeding f (events ++ []) (u.view f .idle) := h.congr hbefore.record hbefore.activity rfl
  rw [List.append_nil] at hstart
  have hend : Heeding f (events ++ history f es'') (v.view f .idle) :=
    hrequests.heeding (haccounted.alike hbefore) hstart
  have hshown : Heeding f (events ++ history f es'' ++ []) (m'.view f) :=
    hend.congr hafter.record hafter.activity rfl
  rw [List.append_nil] at hshown
  rw [hes]
  exact hshown

/-- A registration begins only if no interrupt is pending. -/
theorem Heeding.register {left left' : Nat} {s : Stand} {r : Registration} {epoch : Nat}
    (h : Heeding f events (w.view f (.running f left s))) (hfits : Fits f (w.view f (.running f left s)) p)
    (hpending : w.interruptPending f s.run.masks = false) :
    Heeding f (events ++ [.registered r epoch])
      ((w.advanceEpoch f (.registering none)).view f (.registering f left' s.run r epoch)) := by
  obtain ⟨home, hrecord⟩ := hfits.record
  have hview : w.record f = some (p.record home) := hrecord
  refine h.change hview (World.record_advanceEpoch hview _) id (fun _ _ => Phase.noConfusion) rfl ?_
  intro run hwaits
  obtain rfl : run = s.run := by
    have hrun : Activity.Waits f run (.registering f left' s.run r epoch) := hwaits
    cases hrun
    rfl
  refine Or.inr fun hrequested => ?_
  rw [World.interruptPending_of_record hview, hrequested, Bool.and_true] at hpending
  exact hpending

/-- A fiber is parked only if no interrupt is pending. -/
theorem Heeding.park {left : Nat} {run : Run} {canceler : Canceler}
    (h : Heeding f events (w.view f (.returning f left run canceler)))
    (hfits : Fits f (w.view f (.returning f left run canceler)) p)
    (hpending : w.interruptPending f run.masks = false) (epoch : Nat) :
    Heeding f (events ++ [.parked epoch])
      ((w.modifyFiber f fun r => { r with phase := .suspended run canceler }).view f .idle) := by
  obtain ⟨home, hrecord⟩ := hfits.record
  have hview : w.record f = some (p.record home) := hrecord
  have hchanged : (w.modifyFiber f fun r => { r with phase := .suspended run canceler }).record f =
      some { p.record home with phase := .suspended run canceler } :=
    World.record_modifyFiber hview fun _ => rfl
  refine ⟨?_, ?_, ?_⟩
  · intro r run' canceler' hr hrequested hsuspended
    cases hchanged.symm.trans hr
    cases hsuspended
    have hset : p.requested = true := hrequested
    have hflag : (p.record home).interruptRequested = true := hset
    rw [World.interruptPending_of_record hview, hflag, Bool.and_true] at hpending
    exact hpending
  · rw [List.countP_append]
    exact h.once
  · rw [List.countP_append]
    intro hone
    obtain ⟨⟨r, hr, hrequested⟩, -⟩ := h.spent hone
    cases hview.symm.trans hr
    exact ⟨⟨_, hchanged, hrequested⟩, fun run' hwaits => absurd hwaits (Activity.not_waits_idle run')⟩

/-- A registration that was interrupted on the way is the first one of the fiber to end so. -/
theorem Heeding.leave {left : Nat} {run : Run} {canceler : Canceler}
    (h : Heeding f events (w.view f (.returning f left run canceler)))
    (hfits : Fits f (w.view f (.returning f left run canceler)) p)
    (hpending : w.interruptPending f run.masks = true) (epoch : Nat) :
    Heeding f (events ++ [.ended epoch .interrupted])
      ((w.advanceEpoch f .running).view f (.canceling f left run canceler)) := by
  obtain ⟨home, hrecord⟩ := hfits.record
  have hview : w.record f = some (p.record home) := hrecord
  rw [World.interruptPending_of_record hview, Bool.and_eq_true] at hpending
  obtain ⟨hmasks, hflag⟩ := hpending
  have hnone : events.countP Event.isInterruption = 0 := by
    have honce := h.once
    rcases Nat.lt_or_ge (events.countP Event.isInterruption) 1 with hlt | hge
    · omega
    · have hclosed := (h.spent (Nat.le_antisymm honce hge)).2 run (.returning left canceler)
      exact nomatch hmasks.symm.trans hclosed
  have hchanged := World.record_advanceEpoch hview .running
  refine ⟨?_, ?_, ?_⟩
  · intro r run' canceler' hr _ hsuspended
    cases hchanged.symm.trans hr
    cases hsuspended
  · rw [List.countP_append, hnone]
    exact Nat.le_refl 1
  · intro _
    exact ⟨⟨_, hchanged, hflag⟩, nofun⟩

/-- After what a fiber has requested in the middle of something it is still there. -/
theorem Requests.heeding_self (hrequests : Requests w es' v) (hfits : Fits f (w.view f a) p)
    {before : List Event} (haccounted : Accounted f (w.view f a) before) (h : Heeding f events (w.view f a)) :
    ∃ q, Fits f (v.view f a) q ∧ Heeding f (events ++ history f es') (v.view f a) := by
  obtain ⟨q, -, hq⟩ := hrequests.fits hfits
  exact ⟨q, hq, hrequests.heeding haccounted h⟩

/-- **Every step of the runtime heeds the requests to interrupt a fiber.** -/
theorem Transition.heeding (htransition : Transition m es' m') {before : List Event}
    (haccounted : Accounted f (m.view f) before) (h : Heeding f events (m.view f)) :
    Heeding f (events ++ history f es') (m'.view f) := by
  by_cases hforeign : Foreign f m
  · exact htransition.heeding_of_foreign hforeign haccounted h
  obtain ⟨-, habsent⟩ | ⟨p, hcourse, hfits⟩ := haccounted.cases
  · exact absurd habsent.foreign hforeign
  obtain ⟨home, hrecord⟩ := hfits.record
  have hmover : ∀ {w : World} {a : Activity} {g : FiberId}, m = ⟨w, a⟩ → a.fiber? = some g → g = f := by
    intro w a g hm ha
    rcases Decidable.em (g = f) with hg | hg
    · exact hg
    · exact absurd (hm ▸ Foreign.of_activity ha hg) hforeign
  have htaken : ∀ {w : World} {t : Task} {rest : List Message} {g : FiberId}, m = ⟨w, .idle⟩ →
      w.loop.inbox = .task t :: rest → t.fiber? = some g → g = f := by
    intro w t rest g hm hinbox ht
    rcases Decidable.em (g = f) with hg | hg
    · exact hg
    · exact absurd (hm ▸ Foreign.of_task hinbox ht hg) hforeign
  cases htransition with
  | request hrequest a => exact hrequest.heeding haccounted h
  | switch w | tend htends clock =>
    rw [Moment.view_idle] at h ⊢
    exact h.congr rfl rfl rfl
  | @start w g rest root hinbox hphase =>
    cases htaken rfl hinbox rfl
    rw [Moment.view_idle] at h
    rw [Moment.view_self rfl, history_cons_self]
    have hview : w.dropMessage.record f = some (p.record home) := hrecord
    exact h.change hview (World.record_modifyFiber hview fun _ => rfl) id (fun _ _ => Phase.noConfusion) rfl nofun
  | startLate hinbox hphase =>
    rw [Moment.view_idle] at h ⊢
    exact h.congr rfl rfl rfl
  | resume hinbox =>
    cases htaken rfl hinbox rfl
    rw [Moment.view_idle] at h
    rw [Moment.view_self rfl]
    exact h.goOn rfl nofun rfl
  | unwind hinbox =>
    cases htaken rfl hinbox rfl
    rw [Moment.view_idle] at h
    rw [Moment.view_self rfl]
    exact h.goOn rfl nofun rfl
  | yield w g s =>
    cases hmover rfl rfl
    rw [Moment.view_self rfl] at h
    rw [Moment.view_idle]
    exact h.goOn rfl nofun rfl
  | move w g left hdeed =>
    cases hmover rfl rfl
    rw [Moment.view_self rfl] at h ⊢
    rw [history_cons_self]
    exact h.goOn rfl nofun rfl
  | call left hdeed hcuts hrequests =>
    cases hmover rfl rfl
    rw [Moment.view_self rfl] at h haccounted ⊢
    rw [history_append, history_cons_self, ← List.append_assoc]
    exact (hrequests.heeding haccounted h).goOn rfl nofun rfl
  | cut left hdeed hcuts | cutWait left hdeed hpending =>
    cases hmover rfl rfl
    rw [Moment.view_self rfl] at h ⊢
    rw [history_cons_self]
    exact h.goOn rfl nofun rfl
  | register left hdeed hpending hv =>
    cases hmover rfl rfl
    subst hv
    rw [Moment.view_self rfl] at h hfits ⊢
    rw [history_cons_self]
    exact h.register hfits hpending
  | exit left hdeed hhook =>
    cases hmover rfl rfl
    rw [Moment.view_self rfl] at h ⊢
    rw [history_cons_self]
    exact h.change hrecord (World.record_modifyFiber hrecord fun _ => rfl) id (fun _ _ => Phase.noConfusion) rfl
      nofun
  | exitSilently left hdeed hhook =>
    cases hmover rfl rfl
    rw [Moment.view_self rfl] at hfits
    exact nomatch hfits.hook_of_running.symm.trans hhook
  | throw left run hrun hrequests =>
    cases hmover rfl rfl
    rw [Moment.view_self rfl] at h haccounted hfits ⊢
    obtain ⟨q, ⟨⟨home', hrecord'⟩, -⟩, hafter⟩ := hrequests.heeding_self hfits haccounted h
    rw [history_append, history_cons_self, history_cons_self, ← List.append_assoc]
    exact hafter.change hrecord' (World.record_advanceEpoch hrecord' _) id (fun _ _ => Phase.noConfusion) rfl nofun
  | «return» left run hrun hrequests =>
    cases hmover rfl rfl
    rw [Moment.view_self rfl] at h haccounted ⊢
    rw [history_append, history_cons_self, ← List.append_assoc]
    have hafter := hrequests.heeding haccounted h
    refine ⟨hafter.parked, ?_, ?_⟩
    · rw [List.countP_append]
      exact hafter.once
    · rw [List.countP_append]
      intro hone
      refine ⟨(hafter.spent hone).1, fun run' hwaits => (hafter.spent hone).2 run' ?_⟩
      cases hwaits
      exact .registering _ _ _
  | @early w g left run canceler x hphase =>
    cases hmover rfl rfl
    rw [Moment.view_self rfl] at h ⊢
    rw [history_cons_self, history_cons_self]
    have hview : w.record f = some (p.record home) := hrecord
    exact h.change hview (World.record_advanceEpoch hview _) id (fun _ _ => Phase.noConfusion) rfl nofun
  | leave left canceler hphase hpending =>
    cases hmover rfl rfl
    rw [Moment.view_self rfl] at h hfits ⊢
    rw [history_cons_self]
    exact h.leave hfits hpending _
  | park left canceler hphase hpending =>
    cases hmover rfl rfl
    rw [Moment.view_self rfl] at h hfits
    rw [Moment.view_idle, history_cons_self]
    exact h.park hfits hpending _
  | unexpected left run canceler hphase =>
    cases hmover rfl rfl
    rw [Moment.view_self rfl] at hfits
    exact (hfits.not_unexpected hphase).elim
  | cancel left run hv hrequests =>
    cases hmover rfl rfl
    rw [Moment.view_self rfl] at h haccounted ⊢
    rw [history_append, history_cons_self, history_cons_self, ← List.append_assoc]
    exact (hrequests.heeding haccounted h).goOn rfl nofun rfl
  | @tell w v g x hook es hv hrequests =>
    cases hmover rfl rfl
    rw [Moment.view_self rfl] at h hfits
    rw [Moment.view_idle, history_cons_self, List.append_cons]
    obtain ⟨rfl, hstanding, htold⟩ := hfits.announce
    obtain ⟨home', hdone⟩ := htold.record
    have hannounced : Heeding f (events ++ [.told x p.hook]) ((w.announce f x p.hook).view f .idle) :=
      h.change hrecord hdone id (fun _ _ => Phase.noConfusion) rfl nofun
    exact hrequests.heeding (.course (hcourse.append (.one (.tell hstanding))) htold) hannounced

theorem Transitions.heeding (htransitions : Transitions m es' m') {before : List Event}
    (haccounted : Accounted f (m.view f) before) (h : Heeding f events (m.view f)) :
    Heeding f (events ++ history f es') (m'.view f) := by
  induction htransitions with
  | refl =>
    rw [history_nil, List.append_nil]
    exact h
  | step hfirst last ih =>
    rw [history_append, ← List.append_assoc]
    exact last.heeding (hfirst.accounted haccounted) ih

theorem Reachable.heeding (h : Reachable es m) (f : FiberId) : Heeding f (history f es) (m.view f) := by
  obtain ⟨config, definitions, htransitions⟩ := h
  have hstart : Heeding f [] (Moment.view f ⟨Scenario.initial config definitions, .idle⟩) := .absent rfl rfl
  have haccounted : Accounted f (Moment.view f ⟨Scenario.initial config definitions, .idle⟩) [] := by
    rw [Moment.view_idle]
    exact .absent ⟨rfl, rfl, rfl⟩
  exact htransitions.heeding haccounted hstart

end Heeding

end FiberLoop
