import FiberLoop.Proofs.Permits.Running

/-!
# Scopes that hide no callback

A scope may hide no callback, and still keep from everybody the right to complete some deferreds and the
use of some queues. What is done by the rules of such a scope completes none of these deferreds and leaves these
queues alone: `World.Abides`. So does every moment of the loop, unless a hidden fiber goes on, or a fiber calls a
closure that uses such a queue, hands out something new or is about permits (`Moment.Within.proceed`). In an open scope
no fiber is hidden (`Moment.Within.next`).
-/

namespace FiberLoop

/-- A scope that hides no callback. -/
structure Scope.Free (V : Scope) : Prop where
  joint : ∀ j, V.joint j
  callback : ∀ callback, V.callback callback
  lines : V.lines
  starts : V.starts
  request : V.mentions .request

/-- A scope that hides no fiber and no callback. -/
structure Scope.Open (V : Scope) : Prop extends V.Free where
  fiber : ∀ f, V.fiber f
  draw : ∀ q, V.mentions (.draw q)
  semaphore : ∀ s, V.mentions (.semaphore s)
  through : ∀ q, V.mentions (.through q none)

/-- A moment inside a scope. -/
structure Moment.Within (V : Scope) (m : Moment) : Prop where
  confined : m.world.Confined V
  activity : m.activity.In V

namespace World

/-- A world after something was done by the rules of a scope. -/
structure Abides (V : Scope) (w w' : World) : Prop where
  confined : w'.Confined V
  size : w'.stores.deferreds.size = w.stores.deferreds.size
  polls : ∀ d, ¬ V.mentions (.deferred d) → w'.pollDeferred d = w.pollDeferred d
  queues : ∀ q, ¬ V.queue q → w'.queue? q = w.queue? q

section Abides

variable {V : Scope} {u v w w' : World} {f : FiberId} {left : Nat} {run : Run}

theorem Abides.refl (hw : w.Confined V) : w.Abides V w := ⟨hw, rfl, fun _ _ => rfl, fun _ _ => rfl⟩

theorem Abides.trans (h : u.Abides V v) (h' : v.Abides V w) : u.Abides V w :=
  ⟨h'.confined, h'.size.trans h.size, fun d hd => (h'.polls d hd).trans (h.polls d hd),
    fun q hq => (h'.queues q hq).trans (h.queues q hq)⟩

theorem Stays.abides (h : w.Stays V w') : w.Abides V w' := ⟨h.confined, h.apart.size, h.apart.polls, h.apart.queues⟩

/-- What is not in the stores may change inside the scope. -/
theorem Abides.of_stores (hw : w'.Confined V) (hstores : w'.stores = w.stores) : w.Abides V w' :=
  ⟨hw, congrArg (Table.size ∘ Stores.deferreds) hstores,
    fun d _ => congrArg (fun s : Stores => (Table.get? s.deferreds d.index).bind Deferred.exit?) hstores,
    fun q _ => congrArg (fun s : Stores => Table.get? s.queues q.index) hstores⟩

/-- The record of a fiber may change. -/
theorem Confined.abides_modifyFiber (hw : w.Confined V) (f : FiberId) (change : Fiber → Fiber)
    (hphase : ∀ r, w.fiber? f = some r → V.fiber f → (change r).phase.In V)
    (hnotice : ∀ r : Fiber, (change r).notice = r.notice) (hepoch : ∀ r, r.epoch ≤ (change r).epoch) :
    w.Abides V (w.modifyFiber f change) := .of_stores (hw.modifyPhase f change hphase hnotice hepoch) rfl

theorem Confined.abides_advanceEpoch (hw : w.Confined V) (f : FiberId) {phase : Phase} (hphase : phase.In V) :
    w.Abides V (w.advanceEpoch f phase) :=
  hw.abides_modifyFiber f _ (fun _ _ _ => hphase) (fun _ => rfl) fun r => Nat.le_succ r.epoch

theorem Confined.abides_attempt (hw : w.Confined V) {α : Type} {act : Act α} {Q : α → Prop}
    (hact : Confining V α act Q) : w.Abides V (act.attempt w) := (hact.attempt hw).abides

/-! ## Errands and timers -/

theorem Confined.abides_errand (hw : w.Confined V) {task : Task} (htask : task.In V) (herrand : task.isErrand = true) :
    w.Abides V (w.runTask task) := by
  cases task with
  | succeed callback v =>
    exact Stays.abides ⟨hw.settle callback htask.2, hw.apart_settle (Or.inl htask.1) _⟩
  | actions list env => exact hw.abides_attempt (Tracks.actions (J := Confining V) htask Scope.noCallback list)
  | _ => cases herrand

theorem Confined.abides_fireAll (hw : w.Confined V) {due : List Timer} (hdue : ∀ t ∈ due, t.task.isErrand = true)
    (hin : ∀ t ∈ due, t.task.In V) : w.Abides V (due.foldl fire w) := by
  induction due generalizing w with
  | nil => exact .refl hw
  | cons t rest ih =>
    obtain ⟨herrand, hrest⟩ := List.forall_mem_cons.1 hdue
    obtain ⟨htask, hrest'⟩ := List.forall_mem_cons.1 hin
    have hfire : w.Abides V (w.fire t) := by
      unfold World.fire
      split
      · exact .refl hw
      · exact hw.abides_errand htask herrand
    exact hfire.trans (ih hfire.confined hrest hrest')

theorem Confined.abides_fireDue (hw : w.Confined V) (hquiet : w.TimersQuiet) : w.Abides V w.fireDue := by
  have hlater : w.Abides V { w with loop := { w.loop with timers := w.loop.timers.dropWhile (·.deadline ≤ w.clock) } } :=
    .of_stores (hw.withLoop
      ⟨hw.loop.inbox, fun t ht => hw.loop.timers t ((List.dropWhile_suffix _).subset ht)⟩) rfl
  refine hlater.trans (hlater.confined.abides_fireAll (fun t ht => ?_) fun t ht => ?_)
  · exact hquiet.loop.timers t ((List.takeWhile_prefix _).subset ht)
  · exact hw.loop.timers t ((List.takeWhile_prefix _).subset ht)

/-! ## Permits -/

theorem Confined.abides_semaphores (hw : w.Confined V) (semaphores : Table Semaphore) :
    w.Abides V { w with stores := { w.stores with semaphores := semaphores } } :=
  ⟨hw.withStores ⟨hw.stores.cells, hw.stores.deferreds, hw.stores.queues, hw.stores.races, hw.stores.pairings, hw.stores.gates⟩, rfl,
    fun _ _ => rfl, fun _ _ => rfl⟩

theorem Confined.abides_wakeFirst (hw : w.Confined V) {line : List DeferredId}
    (hline : ∀ l ∈ line, V.mentions (.deferred l)) : w.Abides V (wakeFirst line w).2 := by
  induction line generalizing w with
  | nil => exact .refl hw
  | cons latch rest ih =>
    obtain ⟨hlatch, hrest⟩ := List.forall_mem_cons.1 hline
    have hcomplete : w.Abides V (w.completeDeferred latch (.value .null)).2 :=
      (hw.stays_completeDeferred hlatch (x := .value .null) Scope.nothing).abides
    unfold wakeFirst
    cases hresult : w.completeDeferred latch (.value .null) with
    | mk first v =>
      rw [hresult] at hcomplete
      cases first with
      | true => exact hcomplete
      | false => exact hcomplete.trans (ih hcomplete.confined hrest)

section Line

variable {s : SemaphoreId} (hline : ∀ row, w.semaphore? s = some row → ∀ l ∈ row.waiters, V.mentions (.deferred l))

include hline

theorem Confined.abides_releasePermit (hw : w.Confined V) : w.Abides V (w.releasePermit s) := by
  unfold World.releasePermit
  split
  · exact .refl hw
  · rename_i row hrow
    have hwake := hw.abides_wakeFirst (hline row hrow)
    split
    · rename_i rest v hresult
      rw [hresult] at hwake
      exact hwake.trans (hwake.confined.abides_semaphores _)
    · rename_i v hresult
      rw [hresult] at hwake
      exact hwake.trans (hwake.confined.abides_semaphores _)

theorem Confined.abides_abandonPermit (hw : w.Confined V) (latch : DeferredId) : w.Abides V (w.abandonPermit s latch) := by
  unfold World.abandonPermit
  split
  · exact .refl hw
  · split
    · exact hw.abides_semaphores _
    · split
      · exact hw.abides_releasePermit hline
      · exact .refl hw

end Line

theorem Confined.abides_tryAcquire (hw : w.Confined V) (s : SemaphoreId) : w.Abides V (w.tryAcquire s).2 := by
  unfold World.tryAcquire
  split
  · split
    · exact hw.abides_semaphores _
    · exact .refl hw
  · exact .refl hw

/-! ## Moments -/

/-- A moment that comes about by the rules of a scope. -/
structure Leads (V : Scope) (w : World) (m : Moment) : Prop where
  abides : w.Abides V m.world
  activity : m.activity.In V

theorem Abides.leads {m : Moment} (h : w.Abides V v) (h' : v.Leads V m) : w.Leads V m :=
  ⟨h.trans h'.abides, h'.activity⟩

theorem Confined.abides_tell (hw : w.Confined V) (f : FiberId) {x : Exit Value Value} (hx : Value.ExitIn V x)
    {hook : ExitHook} (hjoint : ∀ j, hook.joint? = some j → V.joint j) : w.Abides V ((hook.run f x).attempt w) := by
  by_cases hpublish : hook = .publish
  · subst hpublish
    by_cases hpending : ∃ listeners key, w.notice? f = some (.pending listeners key)
    · obtain ⟨listeners, key, hnotice⟩ := hpending
      rw [World.attempt_publish hnotice]
      have hset : w.Abides V (w.setNotice f (.done x)) := .of_stores (hw.setNotice hx) rfl
      exact hset.trans (hset.confined.abides_attempt (Tracks.forM (J := Confining V) listeners fun l hl =>
        Tracks.notify (hw.notices f _ hnotice l hl) hx))
    · rw [World.attempt_publish_of_not_pending fun listeners key hnotice => hpending ⟨listeners, key, hnotice⟩]
      exact .refl hw
  · exact hw.abides_attempt (Tracks.exitHook (J := Confining V) f hx hjoint fun he => absurd he hpublish)

/-- A closure by the rules of the scope. -/
theorem Confined.leads_called (hw : w.Confined V) {c : Call} (hc : c.In V) (hrun : run.In V)
    (hordinary : c.isOrdinary = true) (hqueue : ∀ q ∈ c.queue?, V.queue q) (f : FiberId) (left : Nat) :
    w.Leads V ⟨(w.called c run).2, .running f left (w.called c run).1⟩ := by
  obtain ⟨hstays, hresult⟩ := Confining.caught (Tracks.call (J := Confining V) hc hqueue hordinary) hw
  refine ⟨hstays.abides, fun _ => ⟨hrun, ?_⟩⟩
  simp only [World.called]
  cases hnext : (c.act.caught w).1 with
  | ok next => exact hresult next hnext
  | error d => exact Scope.nothing

theorem Confined.leads_takeNext (hw : w.Confined V) : w.Leads V w.takeNext := by
  have hdrop : w.Abides V w.dropMessage :=
    .of_stores (hw.withLoop ⟨fun m hm => hw.loop.inbox m (List.mem_of_mem_tail hm), hw.loop.timers⟩) rfl
  unfold World.takeNext
  cases hinbox : w.loop.inbox with
  | nil => exact ⟨.refl hw, trivial⟩
  | cons message rest =>
    have hmem : message ∈ w.loop.inbox := hinbox ▸ List.mem_cons_self
    have hin : message.In V := hw.loop.inbox message hmem
    cases message with
    | shutdown =>
      exact ⟨hdrop.trans (.of_stores (hdrop.confined.withLoop ⟨hdrop.confined.loop.inbox, hdrop.confined.loop.timers⟩) rfl),
        trivial⟩
    | timer deadline timer task =>
      refine ⟨hdrop.trans (.of_stores (hdrop.confined.withLoop ⟨hdrop.confined.loop.inbox, fun t ht => ?_⟩) rfl), trivial⟩
      rcases Timer.mem_insert.1 ht with rfl | ht
      · exact hin
      · exact hdrop.confined.loop.timers t ht
    | task task =>
      cases task with
      | start f =>
        simp only [takeUp]
        split
        · rename_i root hphase
          obtain ⟨r, hr, hcreated⟩ := Option.map_eq_some_iff.1 hphase
          have hroot := hdrop.confined.fibers f r hr
          rw [hcreated] at hroot
          exact ⟨hdrop.trans (hdrop.confined.abides_modifyFiber f _ (fun _ _ _ => Scope.nothing) (fun _ => rfl)
            fun r => Nat.le_refl r.epoch), fun hf => ⟨Scope.nothing, hroot hf⟩⟩
        · exact ⟨hdrop, trivial⟩
      | resume f run next => exact ⟨hdrop, hin⟩
      | unwind f canceler run => exact ⟨hdrop, hin⟩
      | succeed callback v =>
        exact ⟨hdrop.trans (hdrop.confined.abides_errand (show (Task.succeed callback v).In V from hin) rfl), trivial⟩
      | actions list env =>
        exact ⟨hdrop.trans (hdrop.confined.abides_errand (show (Task.actions list env).In V from hin) rfl), trivial⟩

theorem Confined.leads_beginRegistration (hV : V.Free) (hw : w.Confined V) (hrun : V.fiber f → run.In V)
    {r : Registration} (hr : r.In V) (left epoch : Nat) : w.Leads V (w.beginRegistration f left run r epoch) := by
  obtain ⟨hstays, hresult⟩ :=
    Confining.caught (Tracks.registration (J := Confining V) hr (hV.callback ⟨f, epoch⟩) (fun _ => hV.lines)
      fun _ => hV.starts) hw
  unfold World.beginRegistration
  cases hcaught : (r.run ⟨f, epoch⟩).caught w with
  | mk result v =>
    rw [hcaught] at hstays hresult
    cases result with
    | error d =>
      exact ⟨hstays.abides.trans (hstays.confined.abides_advanceEpoch f Scope.nothing),
        fun hf => ⟨hrun hf, Scope.nothing⟩⟩
    | ok canceler => exact ⟨hstays.abides, fun hf => ⟨hrun hf, (hresult canceler rfl).1⟩⟩

theorem Confined.leads_leaveRegistration (hw : w.Confined V) {canceler : Canceler}
    (hin : V.fiber f → run.In V ∧ canceler.In V) (left : Nat) :
    w.Leads V (w.leaveRegistration f left run canceler) := by
  have hend : w.Abides V (w.advanceEpoch f .running) := hw.abides_advanceEpoch f Scope.nothing
  unfold World.leaveRegistration
  split
  · rename_i x hphase
    obtain ⟨r, hr, hregistering⟩ := Option.map_eq_some_iff.1 hphase
    have hx := hw.fibers f r hr
    rw [hregistering] at hx
    exact ⟨hend, fun hf => ⟨(hin hf).1, Next.in_ofExit (hx hf)⟩⟩
  · split
    · exact ⟨hend, hin⟩
    · exact ⟨hw.abides_modifyFiber f _ (fun _ _ hf => List.forall_mem_append.2 (hin hf)) (fun _ => rfl)
        fun r => Nat.le_refl r.epoch, trivial⟩
  · exact ⟨.refl hw, fun hf => ⟨(hin hf).1, Scope.nothing⟩⟩

end Abides

end World

/-- **The next moment comes about by the rules of the scope**, if the closure that is called by a fiber in the scope
keeps to them, and so does a fiber that is hidden or asks for an item. -/
theorem Moment.Within.proceed {V : Scope} (hV : V.Free) {m : Moment} (h : m.Within V) (hquiet : m.world.TimersQuiet)
    (hcalls : ∀ f left stand c run, m.activity = .running f (left + 1) stand → V.fiber f → stand.deed = .call c run →
      m.world.cuts f c run = false → c.isOrdinary = true ∧ ∀ q ∈ c.queue?, V.queue q)
    (hdraws : ∀ f left stand q, m.activity = .running f (left + 1) stand → V.fiber f → stand.Draws q →
      V.mentions (.draw q))
    (hopens : ∀ f left stand q g, m.activity = .running f (left + 1) stand → V.fiber f → stand.Opens q g →
      V.mentions (.through q (some g)) → V.mentions (.semaphore g) ∧ V.mentions (.through q none))
    (hhidden : ∀ f, m.activity.fiber? = some f → ¬ V.fiber f → m.world.Leads V m.next) : m.world.Leads V m.next := by
  by_cases hvisible : ∃ f, m.activity.fiber? = some f ∧ ¬ V.fiber f
  · obtain ⟨f, ha, hf⟩ := hvisible
    exact hhidden f ha hf
  have hfiber (f : FiberId) (ha : m.activity.fiber? = some f) : V.fiber f :=
    Classical.byContradiction fun hf => hvisible ⟨f, ha, hf⟩
  obtain ⟨w, a⟩ := m
  obtain ⟨hw, ha⟩ := h
  cases a with
  | idle =>
    simp only [Moment.next]
    split
    · exact ⟨.refl hw, trivial⟩
    · have hfire := hw.abides_fireDue hquiet
      exact hfire.leads hfire.confined.leads_takeNext
  | running f left stand =>
    have hf := hfiber f rfl
    obtain ⟨hrun, hnext⟩ := ha hf
    cases left with
    | zero => exact ⟨.of_stores (hw.dispatch fun _ => ⟨hrun, hnext⟩) rfl, trivial⟩
    | succ left =>
      simp only [Moment.next, World.act]
      split
      · rename_i s' hdeed
        obtain ⟨hrun', hnext'⟩ :=
          Stand.in_of_move hrun hnext (fun _ _ => hV.request) (fun q => hdraws f left stand q rfl hf)
            (fun q g => hopens f left stand q g rfl hf) hdeed
        exact ⟨.refl hw, fun _ => ⟨hrun', hnext'⟩⟩
      · rename_i c run hdeed
        obtain ⟨hc, hrest⟩ := Stand.in_of_call hrun hnext hdeed
        split
        · exact ⟨.refl hw, fun _ => ⟨hrest, Scope.nothing⟩⟩
        · rename_i hcut
          obtain ⟨hordinary, hqueue⟩ := hcalls f left stand c run rfl hf hdeed (Bool.eq_false_iff.2 hcut)
          exact hw.leads_called hc hrest hordinary hqueue f left
      · rename_i r hdeed
        split
        · exact ⟨.refl hw, fun _ => ⟨hrun, Scope.nothing⟩⟩
        · exact ⟨hw.abides_advanceEpoch f Scope.nothing, fun _ => ⟨hrun, Stand.in_of_register hnext hdeed⟩⟩
      · rename_i x hdeed
        have hmark : w.Abides V (w.markDone f x) :=
          hw.abides_modifyFiber f _ (fun _ _ _ => Scope.nothing) (fun _ => rfl) fun r => Nat.le_refl r.epoch
        split
        · exact ⟨hmark, fun _ => Stand.in_of_exit hnext hdeed⟩
        · exact ⟨hmark, trivial⟩
  | registering f left run r epoch =>
    obtain ⟨hrun, hr⟩ := ha (hfiber f rfl)
    exact hw.leads_beginRegistration hV (fun _ => hrun) hr left epoch
  | returning f left run canceler => exact hw.leads_leaveRegistration ha left
  | canceling f left run canceler =>
    obtain ⟨hrun, hcanceler⟩ := ha (hfiber f rfl)
    exact ⟨hw.abides_attempt (Tracks.canceler (J := Confining V) hcanceler fun _ => hV.lines),
      fun _ => ⟨hrun, Scope.nothing⟩⟩
  | exiting f x hook => exact ⟨hw.abides_tell f (ha (hfiber f rfl)) fun j _ => hV.joint j, trivial⟩

/-- In an open scope no fiber is hidden, and everybody may ask for items. -/
theorem Moment.Within.next {V : Scope} (hV : V.Open) {m : Moment} (h : m.Within V) (hquiet : m.world.TimersQuiet)
    (hcalls : ∀ f left stand c run, m.activity = .running f (left + 1) stand → stand.deed = .call c run →
      m.world.cuts f c run = false → c.isOrdinary = true ∧ ∀ q ∈ c.queue?, V.queue q) : m.world.Leads V m.next :=
  h.proceed hV.toFree hquiet (fun f left stand c run hstand _ => hcalls f left stand c run hstand)
    (fun _ _ _ q _ _ _ => hV.draw q) (fun _ _ _ q g _ _ _ _ => ⟨hV.semaphore g, hV.through q⟩)
    fun f _ hf => absurd (hV.fiber f) hf

end FiberLoop
