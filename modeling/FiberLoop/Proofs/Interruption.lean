import FiberLoop.Proofs.Runtime.Heeding
import FiberLoop.Proofs.Runtime.Regions

/-!
# Requests to interrupt

A request to interrupt a fiber may come before its first step, in the middle of a turn, during a registration,
while the fiber is parked, or when the task that resumes it is already queued. Whenever it comes, it is neither
lost nor ignored: a fiber with a request is never parked where it may be interrupted, and it calls no leaf and
registers no callback outside all uninterruptible regions any more.

The main result of this module is `Reachable.heeds_interrupts`.
-/

namespace FiberLoop

/-! ## What is said about requests -/

/-- The closure of a leaf or of a registration is called. -/
def Event.callsNode : Event → Bool
  | .stepped (.call c) _ => c.yields
  | .registered .. => true
  | _ => false

/-- A node comes next that an interrupt can take the place of. -/
def Stand.isNode (s : Stand) : Bool :=
  match s.next with
  | .eval (.succeeded _) | .eval (.complete _) | .eval (.suspend _) | .eval (.async _) => true
  | _ => false

/-- The regions that are open where a fiber stands. -/
def regionsAt (f : FiberId) (es : Chronicle) : List Interruptibility :=
  openRegions (trail f es) ((trail f es).length - 1)

/-- The number of tasks that were ever queued. -/
def World.queued (w : World) : Nat := w.loop.dispatched + w.aside.dispatched

/-- What holds of a fiber whose interruption was requested. -/
structure Interrupted (es : Chronicle) (m : Moment) (f : FiberId) : Prop where
  requested : ∃ r, m.world.fiber? f = some r ∧ r.interruptRequested = true
  again : m.world.interrupt f = m.world
  /-- Outside all uninterruptible regions the interrupt takes the place of a node, and nothing else happens. -/
  cuts : ∀ left s, m.activity = .running f (left + 1) s → s.isNode = true →
    .uninterruptible ∉ regionsAt f es → m.next = ⟨m.world, .running f left ⟨s.run, .cause .interrupted⟩⟩
  /-- Whatever happens next, the closure of a node is called only inside an uninterruptible region. -/
  calls : ∀ es' m', Transition m es' m' → ∀ e ∈ history f es', e.callsNode = true →
    .uninterruptible ∈ regionsAt f es

/-- No request to interrupt a fiber is lost, and none is ignored. -/
structure HeedsInterrupts (es : Chronicle) (m : Moment) (f : FiberId) : Prop where
  /-- A fiber with a request is parked only inside an uninterruptible region. -/
  parked : ∀ r run canceler, m.world.fiber? f = some r → r.interruptRequested = true →
    r.phase = .suspended run canceler →
    run.masks.isInterruptible = false ∧ .uninterruptible ∈ regionsAt f es
  /-- From the request on it is heeded, for the rest of the run. -/
  ever : ∀ r, m.world.fiber? f = some r → r.interruptRequested = true →
    ∀ es' m', Transitions m es' m' → Interrupted (es ++ es') m' f
  /-- A request queues a task exactly if it ends a registration, and only if it is the first one. -/
  queues : (m.world.interrupt f).queued =
      m.world.queued + (history f (m.world.interruptEvents f)).countP Event.isInterruption ∧
    ((history f es).countP Event.isInterruption ≠ 0 → m.world.interruptEvents f = [])
  /-- At most one registration of a fiber ever ends by interruption. -/
  once : (history f es).countP Event.isInterruption ≤ 1

/-! ## Runs -/

section Runs

variable {f : FiberId} {p q : Place} {m m' : Moment} {w v : World} {es es' : Chronicle} {events : List Event}
  {r : Fiber}

/-- A request stays. -/
theorem Moves.requested (h : Moves p events q) (hp : p.requested = true) : q.requested = true := by
  induction h with
  | refl p => exact hp
  | step first _ ih =>
    refine ih ?_
    cases first with
    | request hnot => rfl
    | _ => exact hp

theorem Reachable.requested_mono (h : Reachable es m) (hf : m.world.fiber? f = some r)
    (hr : r.interruptRequested = true) (htransitions : Transitions m es' m') :
    ∃ r', m'.world.fiber? f = some r' ∧ r'.interruptRequested = true := by
  obtain ⟨p, home, -, hfits, hcore⟩ := h.course hf
  have hp : p.requested = true := (congrArg Fiber.interruptRequested hcore).symm.trans hr
  obtain ⟨q, hmoves, hq⟩ := htransitions.fits hfits
  obtain ⟨home', hrecord⟩ := hq.record
  obtain ⟨r', hf', hcore'⟩ := World.fiber?_of_record hrecord
  exact ⟨r', hf', (congrArg Fiber.interruptRequested hcore').trans (hmoves.requested hp)⟩

/-- Where a fiber has come to on its course, it is interruptible exactly outside all uninterruptible regions. -/
theorem Course.interruptible_iff (h : Course events p) {s : Stand}
    (hs : lastStand (events.filterMap Event.step?) = some s) :
    s.run.masks.isInterruptible = true ↔ .uninterruptible ∉
      openRegions (events.filterMap Event.step?) ((events.filterMap Event.step?).length - 1) := by
  obtain ⟨root, hook, -, hbegins⟩ := h.begins
  rcases hbegins with ⟨-, hnil⟩ | hroot
  · rw [hnil] at hs
    cases hs
  · exact h.walked.linked.interruptible_iff hroot hs

/-- The last stand of the trail of a fiber that runs is where it stands. -/
theorem Reachable.interruptible_iff (h : Reachable es m) {left : Nat} {s : Stand}
    (hactivity : m.activity = .running f left s) :
    s.run.masks.isInterruptible = true ↔ .uninterruptible ∉ regionsAt f es := by
  rcases (h.accounted f).cases with ⟨-, habsent⟩ | ⟨p, hcourse, hfits⟩
  · have hidle : m.activity.of f = .idle := habsent.activity
    rw [Activity.of_self (by rw [hactivity]; rfl), hactivity] at hidle
    cases hidle
  · have hheld := hfits.held_of_activity hactivity rfl
    have hfollows := hcourse.walked.follows
    rw [hheld.of_running.1] at hfollows
    refine hcourse.interruptible_iff ?_
    cases hlast : lastStand ((history f es).filterMap Event.step?) with
    | none =>
      rw [hlast] at hfollows
      cases hfollows
    | some s' =>
      rw [hlast] at hfollows
      cases hfollows
      rfl

/-- A fiber that is parked stands where its last registration began. -/
theorem Reachable.interruptible_iff_of_suspended (h : Reachable es m) (hf : m.world.fiber? f = some r)
    {run : Run} {canceler : Canceler} (hphase : r.phase = .suspended run canceler) :
    run.masks.isInterruptible = true ↔ .uninterruptible ∉ regionsAt f es := by
  obtain ⟨p, home, hcourse, -, hcore⟩ := h.course hf
  have hstanding : p.standing = .parked run canceler :=
    Standing.phase_eq_suspended ((congrArg Fiber.phase hcore).symm.trans hphase)
  have hfollows := hcourse.walked.follows
  rw [hstanding] at hfollows
  cases hlast : lastStand ((history f es).filterMap Event.step?) with
  | none =>
    rw [hlast] at hfollows
    cases hfollows
  | some s =>
    have hopen := hcourse.interruptible_iff hlast
    rw [hlast] at hfollows
    cases hfollows with
    | parked hdeed => exact hopen

/-! ## Nodes -/

theorem Stand.deed_of_isNode {s : Stand} (h : s.isNode = true) :
    (∃ c, s.deed = .call c s.run ∧ c.yields = true) ∨ ∃ r, s.deed = .register r := by
  obtain ⟨run, next⟩ := s
  cases next with
  | eval e =>
    cases e with
    | succeeded v => exact Or.inl ⟨.value v, rfl, rfl⟩
    | complete x => exact Or.inl ⟨.exit x, rfl, rfl⟩
    | suspend t => exact Or.inl ⟨.thunk t, rfl, rfl⟩
    | async r => exact Or.inr ⟨r, rfl⟩
    | _ => cases h
  | value v => cases h
  | cause c => cases h

/-- Only leaves have closures that an interrupt can take the place of, and they leave the run as it is. -/
theorem Stand.run_of_yields {s : Stand} {c : Call} {run : Run} (hdeed : s.deed = .call c run)
    (h : c.yields = true) : run = s.run := by
  obtain ⟨⟨frames, masks⟩, next⟩ := s
  cases next with
  | eval e =>
    cases e with
    | succeeded v | caused c | complete x | suspend t =>
      cases hdeed
      rfl
    | _ => cases hdeed
  | value v =>
    cases frames with
    | nil => cases hdeed
    | cons frame rest =>
      cases frame with
      | region => cases hdeed
      | chain next | fold onValue onCause =>
        cases hdeed
        cases h
  | cause c =>
    cases frames with
    | nil => cases hdeed
    | cons frame rest =>
      cases frame with
      | fold onValue onCause =>
        cases hdeed
        cases h
      | _ => cases hdeed

/-- A pending interrupt takes the place of the node that comes next. -/
theorem Moment.next_of_pending {left : Nat} {s : Stand} (hactivity : m.activity = .running f (left + 1) s)
    (hnode : s.isNode = true) (hpending : m.world.interruptPending f s.run.masks = true) :
    m.next = ⟨m.world, .running f left ⟨s.run, .cause .interrupted⟩⟩ := by
  have hact : m.next = m.world.act f left s := by
    unfold Moment.next
    rw [hactivity]
  rw [hact]
  unfold World.act
  rcases Stand.deed_of_isNode hnode with ⟨c, hdeed, hyields⟩ | ⟨r, hdeed⟩
  · have hcuts : m.world.cuts f c s.run = true := by rw [World.cuts, hyields, hpending, Bool.and_self]
    rw [hdeed]
    exact if_pos hcuts
  · rw [hdeed]
    exact if_pos hpending

/-- No request calls the closure of a node. -/
theorem Request.not_callsNode (h : Request w es v) : ∀ e ∈ es, e.2.callsNode = false := by
  cases h with
  | quiet h => simp
  | interrupt g =>
    unfold World.interruptEvents
    split
    · simp
    · split
      · simp
      · split
        · split <;> simp [Event.callsNode]
        · simp [Event.callsNode]
  | settle callback x =>
    unfold World.settleEvents
    split
    · simp
    · split
      · simp
      · split <;> simp [Event.callsNode]
  | launch root hook => simp [Event.callsNode]

theorem Requests.not_callsNode (h : Requests w es v) : ∀ e ∈ es, e.2.callsNode = false := by
  induction h with
  | refl w => simp
  | step first _ ih =>
    intro e he
    rcases List.mem_append.1 he with hfirst | hrest
    · exact first.not_callsNode e hfirst
    · exact ih e hrest

/-- The runtime calls the closure of a node only if no interrupt is pending. -/
theorem Transition.open_of_callsNode (h : Transition m es m') {e : Event} (he : (f, e) ∈ es)
    (hcalls : e.callsNode = true) : ∃ left s, m.activity = .running f (left + 1) s ∧
      m.world.interruptPending f s.run.masks = false := by
  have hnone : ∀ {w v : World} {es' : Chronicle}, Requests w es' v → (f, e) ∉ es' := by
    intro w v es' hrequests hmem
    exact nomatch hcalls.symm.trans (hrequests.not_callsNode _ hmem)
  cases h with
  | request hrequest a => exact nomatch hcalls.symm.trans (hrequest.not_callsNode _ he)
  | switch w | tend htends clock | startLate hinbox hphase | resume hinbox | unwind hinbox | yield w g s => cases he
  | start hinbox hphase | move w g left hdeed | cut left hdeed hcuts | cutWait left hdeed hpending
  | exit left hdeed hhook | exitSilently left hdeed hhook | leave left canceler hphase hpending
  | park left canceler hphase hpending | unexpected left run canceler hphase =>
    cases List.mem_singleton.1 he
    cases hcalls
  | @call w g left s c run es hdeed hcuts hrequests =>
    rcases List.mem_append.1 he with hmem | hmem
    · exact absurd hmem (hnone hrequests)
    · cases List.mem_singleton.1 hmem
      have hyields : c.yields = true := hcalls
      rw [World.cuts, hyields, Bool.true_and, Stand.run_of_yields hdeed hyields] at hcuts
      exact ⟨left, s, rfl, hcuts⟩
  | @register w v g left s r hdeed hpending hv =>
    cases List.mem_singleton.1 he
    exact ⟨left, s, rfl, hpending⟩
  | throw left run hrun hrequests | cancel left run hv hrequests =>
    rcases List.mem_append.1 he with hmem | hmem
    · exact absurd hmem (hnone hrequests)
    · rcases List.mem_cons.1 hmem with heq | hlast
      · cases heq
        cases hcalls
      · cases List.mem_singleton.1 hlast
        cases hcalls
  | «return» left run hrun hrequests =>
    rcases List.mem_append.1 he with hmem | hmem
    · exact absurd hmem (hnone hrequests)
    · cases List.mem_singleton.1 hmem
      cases hcalls
  | early left run canceler hphase =>
    rcases List.mem_cons.1 he with heq | hlast
    · cases heq
      cases hcalls
    · cases List.mem_singleton.1 hlast
      cases hcalls
  | tell hv hrequests =>
    rcases List.mem_cons.1 he with heq | hmem
    · cases heq
      cases hcalls
    · exact absurd hmem (hnone hrequests)

/-! ## The main result -/

/-- From a request on, the fiber heeds it. -/
theorem Reachable.interrupted (h : Reachable es m) (hf : m.world.fiber? f = some r)
    (hr : r.interruptRequested = true) : Interrupted es m f := by
  have hpending (masks : Masks) : m.world.interruptPending f masks = masks.isInterruptible := by
    simp [World.interruptPending, hf, hr]
  refine ⟨⟨r, hf, hr⟩, World.interrupt_of_requested hf hr, ?_, ?_⟩
  · intro left s hactivity hnode hopen
    refine Moment.next_of_pending hactivity hnode ?_
    rw [hpending]
    exact (h.interruptible_iff hactivity).2 hopen
  · intro es' m' htransition e he hcalls
    obtain ⟨left, s, hactivity, hclosed⟩ := htransition.open_of_callsNode (mem_history.1 he) hcalls
    rw [hpending] at hclosed
    refine Decidable.byContradiction fun hopen => ?_
    exact Bool.false_ne_true (hclosed.symm.trans ((h.interruptible_iff hactivity).2 hopen))

theorem World.queued_dispatchTo (w : World) (name : LoopName) (t : Task) :
    (w.dispatchTo name t).queued = w.queued + 1 := by
  unfold dispatchTo
  split
  · simp only [queued, dispatch, EventLoop.queue]
    omega
  · simp only [queued, EventLoop.queue]
    omega

/-- A request queues a task exactly if it ends a registration. -/
theorem World.queued_interrupt (w : World) (f : FiberId) : (w.interrupt f).queued =
    w.queued + (history f (w.interruptEvents f)).countP Event.isInterruption := by
  cases hf : w.fiber? f with
  | none => simp [interrupt, interruptEvents, hf]
  | some r =>
    cases hrequested : r.interruptRequested with
    | true => simp [interrupt, interruptEvents, hf, hrequested]
    | false =>
      cases hphase : r.phase with
      | suspended run canceler =>
        cases hmasks : run.masks.isInterruptible with
        | true =>
          simp only [interrupt, interruptEvents, hf, hrequested, hphase, hmasks, Bool.false_eq_true, if_false,
            if_true]
          rw [queued_dispatchTo, history_cons_self, history_cons_self]
          rfl
        | false =>
          simp only [interrupt, interruptEvents, hf, hrequested, hphase, hmasks, Bool.false_eq_true, if_false]
          rw [history_cons_self]
          rfl
      | created root | running | registering early | done =>
        simp only [interrupt, interruptEvents, hf, hrequested, hphase, Bool.false_eq_true, if_false]
        rw [history_cons_self]
        rfl

/-- **In every run no request to interrupt a fiber is lost, and none is ignored.** A fiber with a request is parked
only inside an uninterruptible region, and for the rest of the run an interrupt takes the place of each of its
leaves and registrations outside such regions. Only the first request has an effect, and it queues at most
one task. -/
theorem Reachable.heeds_interrupts (h : Reachable es m) (f : FiberId) : HeedsInterrupts es m f := by
  have hheeding := h.heeding f
  refine ⟨?_, ?_, ⟨m.world.queued_interrupt f, ?_⟩, hheeding.once⟩
  · intro r run canceler hf hr hphase
    have hmasks : run.masks.isInterruptible = false :=
      hheeding.parked r.core run canceler (by rw [Moment.view, World.view, World.record, hf]; rfl) hr hphase
    refine ⟨hmasks, ?_⟩
    refine Decidable.byContradiction fun hopen => ?_
    exact Bool.false_ne_true (hmasks.symm.trans ((h.interruptible_iff_of_suspended hf hphase).2 hopen))
  · intro r hf hr es' m' htransitions
    obtain ⟨r', hf', hr'⟩ := h.requested_mono hf hr htransitions
    exact (h.append htransitions).interrupted hf' hr'
  · intro hcount
    have hone : (history f es).countP Event.isInterruption = 1 := by
      have honce := hheeding.once
      omega
    obtain ⟨⟨r, hr, hrequested⟩, -⟩ := hheeding.spent hone
    exact (World.interrupt_of_record hr hrequested).2

/-- The world in which a fiber was parked for ever inside an uninterruptible region and then interrupted. -/
def maskedWaiter : World :=
  ((Scenario.initial {} []).fork Effect.never.uninterruptible).2.pass.interrupt ⟨0⟩

/-- A fiber that was interrupted inside an uninterruptible region is still parked there. -/
theorem Reachable.heeds_interrupt_of_masked : ∃ es,
    maskedWaiter.fiberState ⟨0⟩ = .suspended ∧ Reachable es ⟨maskedWaiter, .idle⟩ ∧
      HeedsInterrupts es ⟨maskedWaiter, .idle⟩ ⟨0⟩ := by
  have hfork : Between (Scenario.initial {} [])
      ((Scenario.initial {} []).fork Effect.never.uninterruptible).2 :=
    Between.requested (PermitsCommon.launch (R := Requested) _ _ .publish)
  have hinterrupt (w : World) : Between w (w.interrupt ⟨0⟩) :=
    Between.requested ⟨_, .one (.interrupt w ⟨0⟩)⟩
  obtain ⟨es, hes⟩ := (Reachable.initial {} []).between ((hfork.trans (Between.pass _)).trans (hinterrupt _))
  exact ⟨[] ++ es, rfl, hes, Reachable.heeds_interrupts hes ⟨0⟩⟩

end Runs

end FiberLoop
