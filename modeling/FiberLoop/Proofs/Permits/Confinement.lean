import FiberLoop.Proofs.Runtime.Request

/-!
# Confinement

A closure in a scope leaves alone what is outside. It completes no callback of a hidden fiber, does not touch the rows
of hidden deferreds, and hands out nothing that is outside the scope. All that it can do to a hidden fiber is to
request its interruption.

The main result of this module is that `Confining V` is passed on from the operations of the library to all closures
in the scope `V`.
-/

namespace FiberLoop

/-- What a closure can make happen to a fiber that is hidden from it. -/
def Event.isRequest : Event → Bool
  | .requested | .ended _ .interrupted => true
  | _ => false

/-- What happens to shielded fibers comes from requests to interrupt them. -/
def Scope.Spares (V : Scope) (es : Chronicle) : Prop := ∀ e ∈ es, V.shields → V.fiber e.1 ∨ e.2.isRequest = true

theorem EventLoop.In.queue {V : Scope} {l : EventLoop} (h : l.In V) {task : Task} (ht : task.In V) :
    (l.queue task).In V :=
  ⟨List.forall_mem_append.2 ⟨h.inbox, List.forall_mem_singleton.2 ht⟩, h.timers⟩

namespace World

/-- A world after something was done inside a scope. -/
structure Apart (V : Scope) (w w' : World) : Prop where
  requests : ∃ es, Requests w es w' ∧ V.Spares es
  semaphores : w'.stores.semaphores = w.stores.semaphores
  size : w'.stores.deferreds.size = w.stores.deferreds.size
  rows : ∀ d, ¬ V.mentions (.wait d) → w'.deferred? d = w.deferred? d
  /-- Nobody completes what nobody may complete. -/
  polls : ∀ d, ¬ V.mentions (.deferred d) → w'.pollDeferred d = w.pollDeferred d
  queues : ∀ q, ¬ V.queue q → w'.queue? q = w.queue? q

section Apart

variable {V : Scope} {u v w w' : World} {f : FiberId}

theorem Apart.refl (w : World) : w.Apart V w :=
  ⟨⟨[], .refl w, List.forall_mem_nil _⟩, rfl, rfl, fun _ _ => rfl, fun _ _ => rfl, fun _ _ => rfl⟩

theorem Apart.trans (h : u.Apart V v) (h' : v.Apart V w) : u.Apart V w := by
  obtain ⟨es, hrequests, hspares⟩ := h.requests
  obtain ⟨es', hrequests', hspares'⟩ := h'.requests
  exact ⟨⟨es ++ es', hrequests.append hrequests', List.forall_mem_append.2 ⟨hspares, hspares'⟩⟩,
    h'.semaphores.trans h.semaphores, h'.size.trans h.size, fun d hd => (h'.rows d hd).trans (h.rows d hd),
    fun d hd => (h'.polls d hd).trans (h.polls d hd), fun q hq => (h'.queues q hq).trans (h.queues q hq)⟩

/-- A change that concerns no fiber. -/
theorem Apart.quiet (h : w.Quiet w') (hsemaphores : w'.stores.semaphores = w.stores.semaphores)
    (hdeferreds : w'.stores.deferreds = w.stores.deferreds)
    (hqueues : ∀ q, ¬ V.queue q → w'.queue? q = w.queue? q) : w.Apart V w' := by
  have hrow (d : DeferredId) : w'.deferred? d = w.deferred? d := congrArg (fun t => Table.get? t d.index) hdeferreds
  exact ⟨⟨[], .one (.quiet h), List.forall_mem_nil _⟩, hsemaphores, congrArg Table.size hdeferreds,
    fun d _ => hrow d, fun d _ => congrArg (Option.bind · Deferred.exit?) (hrow d), hqueues⟩

/-! ## Changes of the record of a fiber -/

theorem Confined.modifyFiber (hw : w.Confined V) {change : Fiber → Fiber}
    (hphase : ∀ r, w.fiber? f = some r → V.fiber f → (change r).phase.In V)
    (hnotice : ∀ r notice, w.fiber? f = some r → (change r).notice = some notice → notice.In V)
    (hepoch : ∀ r, r.epoch ≤ (change r).epoch) : (w.modifyFiber f change).Confined V where
  loop := hw.loop
  aside := hw.aside
  fibers g r hr hg := by
    by_cases hfg : f = g
    · subst hfg
      rw [fiber?_modifyFiber_self] at hr
      obtain ⟨r', hr', rfl⟩ := Option.map_eq_some_iff.1 hr
      exact hphase r' hr' hg
    · rw [fiber?_modifyFiber_of_ne hfg] at hr
      exact hw.fibers g r hr hg
  notices g notice hg := by
    by_cases hfg : f = g
    · subst hfg
      unfold notice? at hg
      rw [fiber?_modifyFiber_self] at hg
      obtain ⟨r, hr, hrow⟩ := Option.bind_eq_some_iff.1 hg
      obtain ⟨r', hr', rfl⟩ := Option.map_eq_some_iff.1 hr
      exact hnotice r' notice hr' hrow
    · unfold notice? at hg
      rw [fiber?_modifyFiber_of_ne hfg] at hg
      exact hw.notices g notice hg
  hidden g hg := by
    by_cases hfg : f = g
    · subst hfg
      rw [fiber?_modifyFiber_self, Option.isSome_map]
      exact hw.hidden f hg
    · rw [fiber?_modifyFiber_of_ne hfg]
      exact hw.hidden g hg
  stale hshields callback r hcallback hf hr := by
    by_cases hfg : f = callback.fiber
    · subst hfg
      rw [fiber?_modifyFiber_self] at hr
      obtain ⟨r', hr', rfl⟩ := Option.map_eq_some_iff.1 hr
      exact Nat.lt_of_lt_of_le (hw.stale hshields callback r' hcallback hf hr') (hepoch r')
    · rw [fiber?_modifyFiber_of_ne hfg] at hr
      exact hw.stale hshields callback r hcallback hf hr
  stores := hw.stores
  session := hw.session

/-- A change that leaves the notice alone. -/
theorem Confined.modifyPhase (hw : w.Confined V) (f : FiberId) (change : Fiber → Fiber)
    (hphase : ∀ r, w.fiber? f = some r → V.fiber f → (change r).phase.In V)
    (hnotice : ∀ r : Fiber, (change r).notice = r.notice) (hepoch : ∀ r, r.epoch ≤ (change r).epoch) :
    (w.modifyFiber f change).Confined V := by
  refine hw.modifyFiber hphase (fun r notice hr hrow => hw.notices f notice ?_) hepoch
  rw [hnotice] at hrow
  exact Option.bind_eq_some_iff.2 ⟨r, hr, hrow⟩

theorem Confined.setNotice (hw : w.Confined V) {notice : ExitNotice} (h : notice.In V) :
    (w.setNotice f notice).Confined V :=
  hw.modifyFiber (fun r hr hf => hw.fibers f r hr hf) (fun _ _ _ hrow => Option.some.inj hrow ▸ h)
    fun r => Nat.le_refl r.epoch

/-! ## Messages -/

/-- What concerns no fiber may change inside the scope. -/
theorem Confined.besides (hw : w.Confined V) {loop aside : EventLoop} (hloop : loop.In V) (haside : aside.In V)
    {stores : Stores} (hstores : stores.In V) {session : Session} (hsession : session.In V) (here : LoopName)
    (clock caughtThrows : Nat) :
    World.Confined V { w with
      loop := loop, here := here, aside := aside, clock := clock, stores := stores, session := session
      caughtThrows := caughtThrows } where
  loop := hloop
  aside := haside
  fibers := hw.fibers
  notices := hw.notices
  hidden := hw.hidden
  stale := hw.stale
  stores := hstores
  session := hsession

theorem Confined.withLoop (hw : w.Confined V) {l : EventLoop} (h : l.In V) : World.Confined V { w with loop := l } :=
  hw.besides h hw.aside hw.stores hw.session w.here w.clock w.caughtThrows

theorem Confined.withStores (hw : w.Confined V) {stores : Stores} (h : stores.In V) :
    World.Confined V { w with stores := stores } :=
  hw.besides hw.loop hw.aside h hw.session w.here w.clock w.caughtThrows

theorem Confined.dispatch (hw : w.Confined V) {task : Task} (ht : task.In V) : (w.dispatch task).Confined V :=
  hw.withLoop (hw.loop.queue ht)

theorem Confined.dispatchTo (hw : w.Confined V) (name : LoopName) {task : Task} (ht : task.In V) :
    (w.dispatchTo name task).Confined V := by
  unfold World.dispatchTo
  split
  · exact hw.dispatch ht
  · exact hw.besides hw.loop (hw.aside.queue ht) hw.stores hw.session w.here w.clock w.caughtThrows

/-! ## Requests -/

theorem Confined.interrupt (hw : w.Confined V) (f : FiberId) : (w.interrupt f).Confined V := by
  unfold World.interrupt
  split
  · exact hw
  · rename_i r hr
    split
    · exact hw
    · split
      · rename_i run canceler hphase
        split
        · have hrunning := hw.modifyPhase f
            (fun r => { r with interruptRequested := true, phase := .running, epoch := r.epoch + 1 })
            (fun _ _ _ => Scope.nothing) (fun _ => rfl) fun r => Nat.le_succ r.epoch
          refine hrunning.dispatchTo _ fun hf => ?_
          have hin := hw.fibers f r hr hf
          rw [hphase] at hin
          exact List.forall_mem_append.1 hin
        · exact hw.modifyPhase _ _ (fun r hr hf => hw.fibers f r hr hf) (fun _ => rfl) fun r => Nat.le_refl r.epoch
      · exact hw.modifyPhase _ _ (fun r hr hf => hw.fibers f r hr hf) (fun _ => rfl) fun r => Nat.le_refl r.epoch

theorem isRequest_interruptEvents (w : World) (f : FiberId) : ∀ e ∈ w.interruptEvents f, e.2.isRequest = true := by
  unfold interruptEvents
  split
  · exact List.forall_mem_nil _
  · split
    · exact List.forall_mem_nil _
    · split
      · split
        · exact List.forall_mem_cons.2 ⟨rfl, List.forall_mem_singleton.2 rfl⟩
        · exact List.forall_mem_singleton.2 rfl
      · exact List.forall_mem_singleton.2 rfl

theorem spares_interruptEvents (w : World) (f : FiberId) : V.Spares (w.interruptEvents f) :=
  fun e he _ => Or.inr (isRequest_interruptEvents w f e he)

theorem stores_dispatchTo (w : World) (name : LoopName) (task : Task) :
    (w.dispatchTo name task).stores = w.stores := by
  unfold World.dispatchTo
  split <;> rfl

theorem stores_interrupt (w : World) (f : FiberId) : (w.interrupt f).stores = w.stores := by
  unfold World.interrupt
  split
  · rfl
  · split
    · rfl
    · split
      · split
        · exact stores_dispatchTo _ _ _
        · rfl
      · rfl

theorem stores_settle (w : World) (callback : Callback) (x : Exit Value Value) :
    (w.settle callback x).stores = w.stores := by
  unfold World.settle
  split
  · rfl
  · split
    · rfl
    · split
      · rfl
      · exact stores_dispatchTo _ _ _
      · rfl

/-- Requests that leave the stores alone. -/
theorem Apart.request {es : Chronicle} (h : Request w es w') (hspares : V.Spares es)
    (hstores : w'.stores = w.stores) : w.Apart V w' :=
  ⟨⟨es, .one h, hspares⟩, congrArg Stores.semaphores hstores, congrArg (Table.size ∘ Stores.deferreds) hstores,
    fun d _ => congrArg (fun s : Stores => Table.get? s.deferreds d.index) hstores,
    fun d _ => congrArg (fun s : Stores => (Table.get? s.deferreds d.index).bind Deferred.exit?) hstores,
    fun q _ => congrArg (fun s : Stores => Table.get? s.queues q.index) hstores⟩

theorem Apart.interrupt (w : World) (f : FiberId) : w.Apart V (w.interrupt f) :=
  .request (.interrupt w f) (spares_interruptEvents w f) (stores_interrupt w f)

/-- A known callback of a shielded fiber comes too late. -/
theorem Confined.settle_of_hidden (hw : w.Confined V) (hshields : V.shields) {callback : Callback} (h : V.callback callback)
    (hf : ¬ V.fiber callback.fiber) (x : Exit Value Value) :
    w.settle callback x = w ∧ w.settleEvents callback x = [] := by
  unfold settle settleEvents
  cases hr : w.fiber? callback.fiber with
  | none => exact ⟨rfl, rfl⟩
  | some r =>
    have hepoch : r.epoch ≠ callback.epoch := Nat.ne_of_gt (hw.stale hshields callback r h hf hr)
    simp only [if_pos hepoch, and_self]

theorem Confined.settle (hw : w.Confined V) (callback : Callback)
    {x : Exit Value Value} (hx : Value.ExitIn V x) : (w.settle callback x).Confined V := by
  unfold World.settle
  split
  · exact hw
  · rename_i r hr
    split
    · exact hw
    · split
      · rename_i early hphase
        refine hw.modifyPhase _ _ (fun r' hr' hf => ?_) (fun _ => rfl) fun r => Nat.le_refl r.epoch
        have hin := hw.fibers _ r hr hf
        rw [hphase] at hin
        cases early with
        | none => exact hx
        | some x' => exact hin
      · rename_i run canceler hphase
        have hrunning := hw.modifyPhase callback.fiber (fun r => { r with phase := .running, epoch := r.epoch + 1 })
          (fun _ _ _ => Scope.nothing) (fun _ => rfl) fun r => Nat.le_succ r.epoch
        refine hrunning.dispatchTo _ fun hf => ?_
        have hin := hw.fibers _ r hr hf
        rw [hphase] at hin
        refine ⟨(List.forall_mem_append.1 hin).1, ?_⟩
        cases x with
        | value v => exact hx
        | cause c => exact hx
      · exact hw

theorem settleEvents_fiber {w : World} {callback : Callback} {x : Exit Value Value} :
    ∀ e ∈ w.settleEvents callback x, e.1 = callback.fiber := by
  unfold settleEvents
  split
  · exact List.forall_mem_nil _
  · split
    · exact List.forall_mem_nil _
    · split
      · exact List.forall_mem_singleton.2 rfl
      · exact List.forall_mem_cons.2 ⟨rfl, List.forall_mem_singleton.2 rfl⟩
      · exact List.forall_mem_nil _

/-- A callback is completed that is known, or belongs to a fiber in the scope. -/
theorem Confined.apart_settle (hw : w.Confined V) {callback : Callback}
    (h : V.callback callback ∨ V.fiber callback.fiber) (x : Exit Value Value) : w.Apart V (w.settle callback x) := by
  refine .request (.settle w callback x) (fun e he hshields => ?_) (stores_settle w callback x)
  by_cases hf : V.fiber callback.fiber
  · exact Or.inl (settleEvents_fiber e he ▸ hf)
  · rw [(hw.settle_of_hidden hshields (h.resolve_right hf) hf x).2] at he
    cases he

theorem Confined.settleAll (hw : w.Confined V) {waiters : List (Nat × Callback)}
    (h : ∀ waiter ∈ waiters, V.waiter waiter.2) {x : Exit Value Value} (hx : Value.ExitIn V x) :
    (waiters.foldl (fun w waiter => w.settle waiter.2 x) w).Confined V ∧
      w.Apart V (waiters.foldl (fun w waiter => w.settle waiter.2 x) w) := by
  induction waiters generalizing w with
  | nil => exact ⟨hw, .refl w⟩
  | cons waiter rest ih =>
    obtain ⟨hwaiter, hrest⟩ := List.forall_mem_cons.1 h
    obtain ⟨hconfined, hapart⟩ := ih (hw.settle waiter.2 hx) hrest
    exact ⟨hconfined, (hw.apart_settle (V.known _ hwaiter) x).trans hapart⟩

theorem Confined.launch (hw : w.Confined V) {root : Effect} (h : root.In V) (hook : ExitHook) :
    (w.launch root hook hook.notice).2.Confined V := by
  have hrow (g : FiberId) (r : Fiber) (hr : (w.launch root hook hook.notice).2.fiber? g = some r) :
      w.fiber? g = some r ∨ r.phase = .created root ∧ r.notice = hook.notice ∧ w.fiber? g = none := by
    have hpush := Table.get?_push w.fibers
      { home := w.here, phase := .created root, hook := some hook, notice := hook.notice } g.index
    split at hpush
    · rename_i hg
      have hnone : w.fiber? g = none := by
        rw [fiber?, ← Option.not_isSome_iff_eq_none, Table.isSome_get?_iff, hg]
        exact Nat.lt_irrefl _
      cases hpush.symm.trans hr
      exact Or.inr ⟨rfl, rfl, hnone⟩
    · exact Or.inl (hpush.symm.trans hr)
  have hkeep (g : FiberId) (hg : (w.fiber? g).isSome = true) :
      ((w.launch root hook hook.notice).2.fiber? g).isSome = true := by
    have hsize : (w.launch root hook hook.notice).2.fibers.size = w.fibers.size + 1 := Table.size_push _ _
    rw [fiber?, Table.isSome_get?_iff] at hg ⊢
    omega
  exact {
    loop := hw.loop.queue trivial
    aside := hw.aside
    stores := hw.stores
    session := hw.session
    fibers := fun g r hr hg => by
      rcases hrow g r hr with hr | ⟨hphase, -, -⟩
      · exact hw.fibers g r hr hg
      · rw [hphase]
        exact h
    notices := fun g notice hnotice => by
      obtain ⟨r, hr, hrow'⟩ := Option.bind_eq_some_iff.1 hnotice
      rcases hrow g r hr with hr | ⟨-, hempty, -⟩
      · exact hw.notices g notice (Option.bind_eq_some_iff.2 ⟨r, hr, hrow'⟩)
      · rw [hempty] at hrow'
        cases hook with
        | publish =>
          cases hrow'
          exact List.forall_mem_nil _
        | _ => cases hrow'
    hidden := fun g hg => hkeep g (hw.hidden g hg)
    stale := fun hshields callback r hcallback hf hr => by
      rcases hrow callback.fiber r hr with hr | ⟨-, -, hnone⟩
      · exact hw.stale hshields callback r hcallback hf hr
      · have hsome := hw.hidden callback.fiber hf
        rw [hnone] at hsome
        cases hsome }

theorem Confined.apart_launch (hw : w.Confined V) (root : Effect) (hook : ExitHook) :
    w.Apart V (w.launch root hook hook.notice).2 := by
  refine .request (.launch w root hook) (List.forall_mem_singleton.2 fun _ => Or.inl ?_) rfl
  refine Classical.byContradiction fun hf => ?_
  have hsome := hw.hidden _ hf
  rw [fiber?, Table.isSome_get?_iff] at hsome
  exact Nat.lt_irrefl _ hsome

/-! ## Operations -/

/-- A world that was changed inside a scope only. -/
structure Stays (V : Scope) (w w' : World) : Prop where
  confined : w'.Confined V
  apart : w.Apart V w'

theorem Stays.refl (hw : w.Confined V) : w.Stays V w := ⟨hw, .refl w⟩

theorem Stays.trans (h : u.Stays V v) (h' : v.Stays V w) : u.Stays V w := ⟨h'.confined, h.apart.trans h'.apart⟩

/-- Stores without deferreds and semaphores may change inside the scope. -/
theorem Confined.stays_stores (hw : w.Confined V) {stores : Stores} (h : stores.In V)
    (hsemaphores : stores.semaphores = w.stores.semaphores) (hdeferreds : stores.deferreds = w.stores.deferreds)
    (hqueues : ∀ q, ¬ V.queue q → stores.queues.get? q.index = w.stores.queues.get? q.index) :
    w.Stays V { w with stores := stores } :=
  ⟨hw.withStores h, .quiet (.stores w stores) hsemaphores hdeferreds hqueues⟩

theorem Confined.stays_session (hw : w.Confined V) {session : Session} (h : session.In V) (caughtThrows : Nat) :
    w.Stays V { w with session := session, caughtThrows := caughtThrows } :=
  ⟨hw.besides hw.loop hw.aside hw.stores h w.here w.clock caughtThrows,
    .quiet (.besides w w.stores session caughtThrows) rfl rfl fun _ _ => rfl⟩

theorem Confined.stays_dispatch (hw : w.Confined V) (actions : List Action) {env : Env} (h : env.In V) :
    w.Stays V (w.dispatch (.actions actions env)) :=
  ⟨hw.dispatch h, .quiet (.put w.stores (m := .task (.actions actions env)) rfl rfl rfl rfl rfl) rfl rfl fun _ _ => rfl⟩

theorem Confined.stays_schedule (hw : w.Confined V) (delay : Nat) {task : Task} (herrand : task.isErrand = true)
    (h : task.In V) : w.Stays V (w.schedule delay task).2 := by
  have hloop : EventLoop.In V { w.loop with
      inbox := w.loop.inbox ++ [.timer (w.clock + delay) ⟨w.stores.timers.size⟩ task] } :=
    ⟨List.forall_mem_append.2 ⟨hw.loop.inbox, List.forall_mem_singleton.2 h⟩, hw.loop.timers⟩
  have hstores : Stores.In V { w.stores with timers := w.stores.timers.push false } :=
    ⟨hw.stores.cells, hw.stores.deferreds, hw.stores.queues, hw.stores.races, hw.stores.pairings, hw.stores.gates⟩
  refine ⟨hw.besides hloop hw.aside hstores hw.session w.here w.clock w.caughtThrows, ?_⟩
  exact .quiet (.put _ (m := .timer (w.clock + delay) ⟨w.stores.timers.size⟩ task) herrand rfl rfl rfl rfl) rfl rfl
    fun _ _ => rfl

theorem Confined.stays_requestShutdown (hw : w.Confined V) : w.Stays V w.requestShutdown := by
  unfold World.requestShutdown
  split
  · exact .refl hw
  · refine ⟨hw.withLoop ⟨?_, hw.loop.timers⟩, ?_⟩
    · exact List.forall_mem_append.2 ⟨hw.loop.inbox, List.forall_mem_singleton.2 trivial⟩
    · exact .quiet (.put w.stores (m := .shutdown) rfl rfl rfl rfl rfl) rfl rfl fun _ _ => rfl

theorem Confined.stays_enlist (hw : w.Confined V) (f : FiberId) {listener : Listener} (h : listener.In V) :
    w.Stays V (w.enlist f listener).2 := by
  unfold World.enlist
  split
  · rename_i listeners key hnotice
    have hin : ∀ l ∈ listeners, l.2.In V := hw.notices f _ hnotice
    exact ⟨hw.setNotice (List.forall_mem_append.2 ⟨hin, List.forall_mem_singleton.2 h⟩),
      .quiet (.watch hnotice _ _) rfl rfl fun _ _ => rfl⟩
  · exact .refl hw
  · exact .refl hw

theorem mem_of_mem_eraseFilling {α : Type} {l : List α} {i : Nat} {a : α} (h : a ∈ eraseFilling l i) : a ∈ l := by
  unfold eraseFilling at h
  split at h
  · exact h
  · rename_i last hlast
    split at h
    · exact List.dropLast_subset l h
    · rcases List.mem_or_eq_of_mem_set (List.dropLast_subset _ h) with hmem | rfl
      · exact hmem
      · exact List.mem_of_getLast? hlast

theorem Confined.stays_withdraw (hw : w.Confined V) (f : FiberId) (key : Nat) : w.Stays V (w.withdraw f key) := by
  unfold World.withdraw
  split
  · rename_i listeners next hnotice
    have hin : ∀ l ∈ listeners, l.2.In V := hw.notices f _ hnotice
    split
    · exact ⟨hw.setNotice fun l hl => hin l (mem_of_mem_eraseFilling hl),
        .quiet (.watch hnotice _ _) rfl rfl fun _ _ => rfl⟩
    · exact .refl hw
  · exact .refl hw

/-! ### Deferreds -/

/-- A row may change that may be waited for; without the right to complete it the exit stays as it is. -/
theorem Confined.stays_setDeferred (hw : w.Confined V) {d : DeferredId} (hd : V.mentions (.wait d))
    {row : Deferred} (h : row.In V)
    (hpoll : V.mentions (.deferred d) ∨ (w.setDeferred d row).pollDeferred d = w.pollDeferred d) :
    w.Stays V (w.setDeferred d row) := by
  have hstores : Stores.In V { w.stores with deferreds := w.stores.deferreds.set d.index row } :=
    ⟨hw.stores.cells, Table.forall_set hw.stores.deferreds fun _ => h, hw.stores.queues, hw.stores.races,
      hw.stores.pairings, hw.stores.gates⟩
  refine ⟨hw.withStores hstores, ⟨[], .one (.quiet (.stores w _)), List.forall_mem_nil _⟩, rfl,
    Table.size_set _ _ _, fun d' hd' => ?_, fun d' hd' => ?_, fun _ _ => rfl⟩
  · exact deferred?_setDeferred_of_ne fun he => hd' (he ▸ hd)
  · by_cases hsame : d' = d
    · subst hsame
      exact hpoll.resolve_left hd'
    · rw [pollDeferred, pollDeferred, deferred?_setDeferred_of_ne hsame]

/-- A row that nobody has completed is changed to another one. -/
theorem pollDeferred_setDeferred_of_pending {d : DeferredId} {waiters : List (Nat × Callback)} {key : Nat}
    (h : w.deferred? d = some (.pending waiters key)) (waiters' : List (Nat × Callback)) (key' : Nat) :
    (w.setDeferred d (.pending waiters' key')).pollDeferred d = w.pollDeferred d := by
  rw [pollDeferred, pollDeferred, deferred?_setDeferred_self h, h]
  rfl

theorem Confined.stays_completeDeferred (hw : w.Confined V) {d : DeferredId} (hd : V.mentions (.deferred d))
    {x : Exit Value Value} (hx : Value.ExitIn V x) : w.Stays V (w.completeDeferred d x).2 := by
  unfold World.completeDeferred
  split
  · rename_i waiters key hrow
    have hset := hw.stays_setDeferred (V.waits d hd) (show (Deferred.done x).In V from hx) (Or.inl hd)
    have hwaiters : ∀ waiter ∈ waiters, V.waiter waiter.2 := hw.stores.deferreds d.index _ hrow (V.waits d hd)
    obtain ⟨hconfined, hapart⟩ := hset.confined.settleAll hwaiters hx
    exact hset.trans ⟨hconfined, hapart⟩
  · exact .refl hw

theorem Confined.stays_awaitDeferred (hw : w.Confined V) {d : DeferredId} (hd : V.mentions (.wait d))
    {callback : Callback} (h : V.waiter callback) :
    w.Stays V (w.awaitDeferred d callback).2 ∧
      ∀ x, (w.awaitDeferred d callback).1 = some (.settled x) → Value.ExitIn V x := by
  unfold World.awaitDeferred
  split
  · rename_i waiters key hrow
    have hwaiters : ∀ waiter ∈ waiters, V.waiter waiter.2 := hw.stores.deferreds d.index _ hrow hd
    have hmore : ∀ waiter ∈ waiters ++ [(key, callback)], V.waiter waiter.2 :=
      List.forall_mem_append.2 ⟨hwaiters, List.forall_mem_singleton.2 h⟩
    exact ⟨hw.stays_setDeferred hd hmore (Or.inr (pollDeferred_setDeferred_of_pending hrow _ _)), fun x hx => nomatch hx⟩
  · rename_i x hrow
    refine ⟨.refl hw, fun x' hx' => ?_⟩
    cases hx'
    exact hw.stores.deferreds d.index _ hrow hd
  · exact ⟨.refl hw, fun x hx => nomatch hx⟩

theorem Confined.stays_leaveDeferred (hw : w.Confined V) {d : DeferredId} (hd : V.mentions (.wait d))
    (key : Nat) : w.Stays V (w.leaveDeferred d key) := by
  unfold World.leaveDeferred
  split
  · rename_i waiters next hrow
    have hwaiters : ∀ waiter ∈ waiters, V.waiter waiter.2 := hw.stores.deferreds d.index _ hrow hd
    have hless : (Deferred.pending (waiters.eraseP (·.1 == key)) next).In V :=
      fun waiter hmem => hwaiters waiter (List.mem_of_mem_eraseP hmem)
    exact hw.stays_setDeferred hd hless (Or.inr (pollDeferred_setDeferred_of_pending hrow _ _))
  · exact .refl hw

/-! ### Queues -/

theorem gate?_setQueueState (w : World) (q q' : QueueId) (state : QueueState) :
    (w.setQueueState q state).stores.gate? q' = w.stores.gate? q' := by
  unfold setQueueState Stores.gate?
  dsimp only
  rw [Table.get?_modify]
  split
  · rw [Option.bind_map]
    rfl
  · rfl

/-- A queue changes inside the scope. -/
theorem Confined.setQueueState (hw : w.Confined V) (q : QueueId) (state : QueueState) (h : state.In V (V.queue q)) :
    (w.setQueueState q state).Confined V := by
  refine hw.withStores ⟨hw.stores.cells, hw.stores.deferreds, Table.forall_modify hw.stores.queues fun _ _ => h,
    hw.stores.races, hw.stores.pairings, fun q' hq' => ?_⟩
  exact (gate?_setQueueState w q q' state).symm ▸ hw.stores.gates q' hq'

theorem queue?_setQueueState_of_ne {q q' : QueueId} (h : q' ≠ q) (state : QueueState) :
    (w.setQueueState q state).queue? q' = w.queue? q' :=
  (Table.get?_modify ..).trans (if_neg fun he => h (congrArg QueueId.mk he).symm)

theorem Confined.stays_setQueueState (hw : w.Confined V) {q : QueueId} (hq : V.queue q) (state : QueueState)
    (h : state.In V (V.queue q)) : w.Stays V (w.setQueueState q state) :=
  ⟨hw.setQueueState q state h, .quiet (.stores w _) rfl rfl fun q' hq' =>
    queue?_setQueueState_of_ne (fun he : q' = q => hq' (he ▸ hq)) state⟩

theorem QueueState.in_ofLine {used : Prop} {latches : List DeferredId}
    (h : used → ∀ l ∈ latches, V.mentions (.deferred l)) : (QueueState.ofLine latches).In V used := by
  cases latches with
  | nil => exact List.forall_mem_nil _
  | cons latch rest => exact h

/-- An item comes to a queue under a policy that puts nothing else into the buffer. -/
theorem Confined.stays_deliver (hw : w.Confined V) {q : QueueId} (hq : V.queue q) {item : Value} (h : item.In V)
    {place : Overflow → List Value → Value → List Value}
    (hplace : ∀ p items v, v ∈ place p items item → v ∈ items ∨ v = item) : w.Stays V (w.deliver q item place) := by
  unfold World.deliver
  split
  · exact .refl hw
  · rename_i row hrow
    have hstate := hw.stores.queues q.index row hrow
    have hbuffer (items : List Value) (hitems : ∀ v ∈ items, v.In V) :
        (QueueState.ready (place row.policy items item)).In V (V.queue q) := by
      intro v hv
      rcases hplace _ _ v hv with hmem | rfl
      · exact hitems v hmem
      · exact h
    split
    · rename_i latch rest hline
      rw [hline] at hstate
      obtain ⟨hlatch, hrest⟩ := List.forall_mem_cons.1 (hstate hq)
      have hcomplete := hw.stays_completeDeferred hlatch (x := .value item) h
      exact hcomplete.trans (hcomplete.confined.stays_setQueueState hq _ (QueueState.in_ofLine fun _ => hrest))
    · exact hw.stays_setQueueState hq _ (hbuffer [] (List.forall_mem_nil _))
    · rename_i items hitems
      rw [hitems] at hstate
      exact hw.stays_setQueueState hq _ (hbuffer items hstate)

theorem mem_push {p : Overflow} {items : List Value} {item v : Value} (h : v ∈ p.push items item) :
    v ∈ items ∨ v = item := by
  cases p with
  | unbounded | bounded n => simpa [Overflow.push] using h
  | sliding n =>
    simp only [Overflow.push] at h
    split at h
    · exact Or.inl h
    · rcases List.mem_append.1 h with hmem | hlast
      · exact Or.inl (List.mem_of_mem_drop hmem)
      · exact Or.inr (List.mem_singleton.1 hlast)
  | dropping n =>
    simp only [Overflow.push] at h
    split at h
    · simpa using h
    · exact Or.inl h

theorem mem_restore {p : Overflow} {items : List Value} {item v : Value} (h : v ∈ p.restore items item) :
    v ∈ items ∨ v = item := by
  cases p with
  | unbounded | bounded n => exact (List.mem_cons.1 h).symm
  | sliding n =>
    simp only [Overflow.restore] at h
    split at h
    · exact (List.mem_cons.1 h).symm
    · exact Or.inl h
  | dropping n => exact (List.mem_cons.1 (List.mem_of_mem_take h)).symm

theorem Confined.stays_reclaimItem (hw : w.Confined V) {q : QueueId} (hq : V.queue q) {latch : DeferredId}
    (h : V.mentions (.wait latch)) : w.Stays V (w.reclaimItem q latch) := by
  unfold World.reclaimItem
  split
  · rename_i item hpoll
    exact hw.stays_deliver hq (hw.poll h _ hpoll) fun _ _ _ => mem_restore
  · exact .refl hw

theorem Confined.stays_abandonItem (hw : w.Confined V) {q : QueueId} (hq : V.queue q) {latch : DeferredId}
    (h : V.mentions (.wait latch)) : w.Stays V (w.abandonItem q latch) := by
  unfold World.abandonItem
  split
  · rename_i latches hline
    obtain ⟨row, hrow, hstate⟩ := Option.map_eq_some_iff.1 hline
    have hin := hw.stores.queues q.index row hrow
    rw [hstate] at hin
    split
    · exact hw.stays_setQueueState hq _ (QueueState.in_ofLine fun _ l hl => hin hq l (List.mem_of_mem_erase hl))
    · exact hw.stays_reclaimItem hq h
  · exact hw.stays_reclaimItem hq h

/-! ### Fibers side by side -/

theorem Confined.stays_launch (hw : w.Confined V) {root : Effect} (h : root.In V) (hook : ExitHook) :
    w.Stays V (w.launch root hook hook.notice).2 := ⟨hw.launch h hook, hw.apart_launch root hook⟩

/-- Two fibers without a notice are launched. -/
theorem Confined.stays_launchBoth (hw : w.Confined V) {left right : Effect} (hl : left.In V) (hr : right.In V)
    (leftHook rightHook : ExitHook) (hleft : leftHook.notice = none) (hright : rightHook.notice = none) :
    w.Stays V ((w.launch left leftHook none).2.launch right rightHook none).2 := by
  have hfirst := hw.stays_launch hl leftHook
  rw [hleft] at hfirst
  have hsecond := hfirst.confined.stays_launch hr rightHook
  rw [hright] at hsecond
  exact hfirst.trans hsecond

theorem Confined.stays_races (hw : w.Confined V) (races : Table Race)
    (h : ∀ i row, races.get? i = some row → V.joint (.race ⟨i⟩) → row.In V) :
    w.Stays V { w with stores := { w.stores with races := races } } :=
  hw.stays_stores ⟨hw.stores.cells, hw.stores.deferreds, hw.stores.queues, h, hw.stores.pairings, hw.stores.gates⟩ rfl rfl
    fun _ _ => rfl

theorem Confined.stays_pairings (hw : w.Confined V) (pairings : Table Pairing)
    (h : ∀ i row, pairings.get? i = some row → V.joint (.pairing ⟨i⟩) → row.In V) :
    w.Stays V { w with stores := { w.stores with pairings := pairings } } :=
  hw.stays_stores ⟨hw.stores.cells, hw.stores.deferreds, hw.stores.queues, hw.stores.races, h, hw.stores.gates⟩ rfl rfl
    fun _ _ => rfl

theorem Confined.stays_startRace (hw : w.Confined V) {left right : Effect} (hl : left.In V) (hr : right.In V)
    {callback : Callback} (h : V.callback callback) : w.Stays V (w.startRace left right callback).2 := by
  have hopen := hw.stays_races (w.stores.races.push { callback := some callback })
    (Table.forall_push hw.stores.races fun _ _ hcb => Option.some.inj hcb ▸ h)
  have hboth := hopen.confined.stays_launchBoth hl hr (.race ⟨w.stores.races.size⟩ .left)
    (.race ⟨w.stores.races.size⟩ .right) rfl rfl
  have hname := fun change hchange => hboth.confined.stays_races _
    (Table.forall_modify (i := w.stores.races.size) (f := change) hboth.confined.stores.races hchange)
  exact (hopen.trans hboth).trans (hname (fun row => { row with fibers := _ }) fun row hrow => hrow)

theorem Confined.stays_startPairing (hw : w.Confined V) {left right : Effect} (hl : left.In V) (hr : right.In V)
    {f : Combine} (hf : f.In V) {callback : Callback} (h : V.callback callback) :
    w.Stays V (w.startPairing left right f callback).2 := by
  have hopen := hw.stays_pairings (w.stores.pairings.push { callback := some callback, combine := f })
    (Table.forall_push hw.stores.pairings
      fun _ => ⟨fun _ hcb => Option.some.inj hcb ▸ h, nofun, nofun, hf⟩)
  have hboth := hopen.confined.stays_launchBoth hl hr (.parZip ⟨w.stores.pairings.size⟩ .left)
    (.parZip ⟨w.stores.pairings.size⟩ .right) rfl rfl
  have hname := fun change hchange => hboth.confined.stays_pairings _
    (Table.forall_modify (i := w.stores.pairings.size) (f := change) hboth.confined.stores.pairings hchange)
  exact (hopen.trans hboth).trans (hname (fun row => { row with fibers := _ })
    fun row hrow hj => ⟨(hrow hj).callback, (hrow hj).left, (hrow hj).right, (hrow hj).combine⟩)

end Apart

end World

/-! ## All closures -/

/-- The judgement that a computation in a scope leaves alone what is outside. -/
def Confining (V : Scope) : Judgement := fun _ act Q =>
  ∀ w, w.Confined V → w.Stays V (act.run w).2 ∧ ∀ a, (act.run w).1 = .ok a → Q a

namespace Confining

open Act

variable {V : Scope} {α β : Type} {Q : α → Prop}

theorem updateGet {f : World → α × World} (h : ∀ w : World, w.Confined V → w.Stays V (f w).2 ∧ Q (f w).1) :
    Confining V α (Act.updateGet f) Q := fun w hw => ⟨(h w hw).1, fun _ ha => Except.ok.inj ha ▸ (h w hw).2⟩

theorem update {f : World → World} (h : ∀ w : World, w.Confined V → w.Stays V (f w)) :
    Confining V Unit (Act.update f) fun _ => True :=
  updateGet (f := fun w => ((), f w)) fun w hw => ⟨h w hw, trivial⟩

theorem bind {act : Act α} {k : α → Act β} {P : β → Prop} (h : Confining V α act Q)
    (hk : ∀ a, Q a → Confining V β (k a) P) : Confining V β (act >>= k) P := by
  intro w hw
  obtain ⟨hact, hresult⟩ := h w hw
  rw [run_bind]
  cases hrun : act.run w with
  | mk result v =>
    rw [hrun] at hact hresult
    cases result with
    | ok a =>
      obtain ⟨hnext, hlast⟩ := hk a (hresult a rfl) v hact.confined
      exact ⟨hact.trans hnext, hlast⟩
    | error d => exact ⟨hact, nofun⟩

/-- A throw that is counted. -/
theorem caught {act : Act α} (h : Confining V α act Q) {w : World} (hw : w.Confined V) :
    w.Stays V (act.caught w).2 ∧ ∀ a, (act.caught w).1 = .ok a → Q a := by
  obtain ⟨hact, hresult⟩ := h w hw
  refine ⟨?_, fun a ha => hresult a ((caught_fst _ w).symm.trans ha)⟩
  unfold Act.caught
  split
  · rename_i hrun
    rw [hrun] at hact
    exact hact
  · rename_i hrun
    rw [hrun] at hact
    exact hact.trans (hact.confined.stays_session hact.confined.session _)

theorem attempt {act : Act α} (h : Confining V α act Q) {w : World} (hw : w.Confined V) :
    w.Stays V (act.attempt w) := (h.caught hw).1

/-- **Confinement is passed on to all closures in the scope.** -/
instance : Tracks V (Confining V) where
  pure h _ hw := ⟨.refl hw, fun _ ha => Except.ok.inj ha ▸ h⟩
  throw _ _ hw := ⟨.refl hw, nofun⟩
  bind := bind
  read _ h w hw := h w hw w hw
  caught h := updateGet fun _ hw => h.caught hw
  session change _ h := updateGet fun w hw =>
    ⟨hw.stays_session (h w.session hw.session).1 w.caughtThrows, (h w.session hw.session).2⟩
  freshSerial := updateGet fun w hw => ⟨hw.stays_stores
    ⟨hw.stores.cells, hw.stores.deferreds, hw.stores.queues, hw.stores.races, hw.stores.pairings, hw.stores.gates⟩ rfl rfl
    fun _ _ => rfl, trivial⟩
  interrupt f := update fun w hw => ⟨hw.interrupt f, .interrupt w f⟩
  settle hcallback _ hx := update fun _ hw => ⟨hw.settle _ hx, hw.apart_settle (Or.inl hcallback) _⟩
  launch h hook _ := updateGet fun _ hw => ⟨hw.stays_launch h hook, trivial⟩
  dispatch actions _ h := update fun _ hw => hw.stays_dispatch actions h
  schedule delay _ herrand h := updateGet fun _ hw => ⟨hw.stays_schedule delay herrand h, trivial⟩
  cancelTimer _ := update fun _ hw => hw.stays_stores
    ⟨hw.stores.cells, hw.stores.deferreds, hw.stores.queues, hw.stores.races, hw.stores.pairings, hw.stores.gates⟩ rfl rfl
    fun _ _ => rfl
  requestShutdown := update fun _ hw => hw.stays_requestShutdown
  enlist f listener h := updateGet fun w hw => by
    refine ⟨hw.stays_enlist f h, fun x hx => ?_⟩
    unfold World.enlist at hx
    split at hx
    · cases hx
    · rename_i y hnotice
      cases hx
      exact hw.notices f _ hnotice
    · cases hx
  withdraw f key := update fun _ hw => hw.stays_withdraw f key
  makeCell h := updateGet fun _ hw => ⟨hw.stays_stores ⟨Table.forall_push hw.stores.cells h, hw.stores.deferreds,
    hw.stores.queues, hw.stores.races, hw.stores.pairings, hw.stores.gates⟩ rfl rfl fun _ _ => rfl, trivial⟩
  setCell _ _ h := update fun _ hw => hw.stays_stores ⟨Table.forall_set hw.stores.cells h, hw.stores.deferreds,
    hw.stores.queues, hw.stores.races, hw.stores.pairings, hw.stores.gates⟩ rfl rfl fun _ _ => rfl
  completeDeferred hd _ hx := updateGet fun _ hw => ⟨hw.stays_completeDeferred hd hx, trivial⟩
  awaitDeferred hlines _ hd _ h := updateGet fun _ hw => hw.stays_awaitDeferred hd (V.joins hlines _ h)
  leaveDeferred _ _ hd key := update fun _ hw => hw.stays_leaveDeferred hd key
  offerItem hq _ h := update fun _ hw => hw.stays_deliver hq h fun _ _ _ => World.mem_push
  putBackItem hq _ h := update fun _ hw => hw.stays_deliver hq h fun _ _ _ => World.mem_restore
  abandonItem hq _ h := update fun _ hw => hw.stays_abandonItem hq h
  startRace hl hr _ h _ := updateGet fun _ hw => ⟨hw.stays_startRace hl hr h, trivial⟩
  modifyRace _ _ h := update fun _ hw =>
    hw.stays_races _ (Table.forall_modify hw.stores.races fun row hrow hj => h row (hrow hj))
  startPairing hl hr _ hf _ h _ := updateGet fun _ hw => ⟨hw.stays_startPairing hl hr hf h, trivial⟩
  modifyPairing _ _ h := update fun _ hw =>
    hw.stays_pairings _ (Table.forall_modify hw.stores.pairings fun row hrow hj => h row (hrow hj))

end Confining

/-- A relation between worlds that composes and lets throws be counted. -/
class Composes (R : World → World → Prop) : Prop where
  refl (w : World) : R w w
  trans {u v w : World} (first : R u v) (second : R v w) : R u w
  caughtThrow (w : World) : R w { w with caughtThrows := w.caughtThrows + 1 }

instance {R : World → World → Prop} [PermitsCommon R] : Composes R where
  refl := PermitsStores.refl
  trans := PermitsStores.trans
  caughtThrow := PermitsCommon.caughtThrow

/-- A change that stays inside a scope and keeps to a relation. -/
def World.Tends (V : Scope) (R : World → World → Prop) (w w' : World) : Prop := w.Confined V → w'.Confined V ∧ R w w'

/-- The judgement that a computation stays inside a scope and keeps to a relation. -/
def Adhering (V : Scope) (R : World → World → Prop) : Judgement := fun _ act Q =>
  ∀ w, w.Confined V → ((act.run w).2.Confined V ∧ R w (act.run w).2) ∧ ∀ a, (act.run w).1 = .ok a → Q a

namespace Adhering

open Act

variable {V : Scope} {R : World → World → Prop} {α β : Type} {Q : α → Prop}

/-- A computation that leaves alone what is outside the scope, and what it does. -/
theorem of_confining {act : Act α} (h : Confining V α act Q) (hact : ∀ w : World, R w (act.run w).2) :
    Adhering V R α act Q := fun w hw => ⟨⟨(h w hw).1.confined, hact w⟩, (h w hw).2⟩

theorem updateGet {f : World → α × World} (h : ∀ w : World, w.Tends V R (f w).2) :
    Adhering V R α (Act.updateGet f) fun _ => True := fun w hw => ⟨h w hw, fun _ _ => trivial⟩

theorem update {f : World → World} (h : ∀ w : World, w.Tends V R (f w)) :
    Adhering V R Unit (Act.update f) fun _ => True := fun w hw => ⟨h w hw, fun _ _ => trivial⟩

variable [Composes R]

theorem bind {act : Act α} {k : α → Act β} {P : β → Prop} (h : Adhering V R α act Q)
    (hk : ∀ a, Q a → Adhering V R β (k a) P) : Adhering V R β (act >>= k) P := by
  intro w hw
  obtain ⟨⟨hconfined, hact⟩, hresult⟩ := h w hw
  rw [run_bind]
  cases hrun : act.run w with
  | mk result v =>
    rw [hrun] at hconfined hact hresult
    cases result with
    | ok a =>
      obtain ⟨⟨hend, hnext⟩, hlast⟩ := hk a (hresult a rfl) v hconfined
      exact ⟨⟨hend, Composes.trans hact hnext⟩, hlast⟩
    | error d => exact ⟨⟨hconfined, hact⟩, nofun⟩

/-- A throw that is counted. -/
theorem caught {act : Act α} (h : Adhering V R α act Q) {w : World} (hw : w.Confined V) :
    ((act.caught w).2.Confined V ∧ R w (act.caught w).2) ∧ ∀ a, (act.caught w).1 = .ok a → Q a := by
  obtain ⟨⟨hconfined, hact⟩, hresult⟩ := h w hw
  refine ⟨?_, fun a ha => hresult a ((caught_fst _ w).symm.trans ha)⟩
  unfold Act.caught
  split
  · rename_i hrun
    rw [hrun] at hconfined hact
    exact ⟨hconfined, hact⟩
  · rename_i hrun
    rw [hrun] at hconfined hact
    exact ⟨(hconfined.stays_session hconfined.session _).confined, Composes.trans hact (Composes.caughtThrow _)⟩

end Adhering

end FiberLoop
