import FiberLoop.Proofs.Permits.Minding

/-!
# Steps that concern no acquire

What the loops do between two tasks, what somebody who is no fiber asks for, and the steps of a fiber that is in no
acquire leave the acquires alone.
-/

namespace FiberLoop

namespace World

section Calm

variable {σ : Engagements} {b : Books} {X : FiberId → Prop} {w w' : World} {f : FiberId}

/-! ## Messages and timers -/

/-- The loops may go on with no fiber that is in an acquire. -/
theorem Calm.tend (h : w.Calm σ b) {loop aside : EventLoop} (here : LoopName) (clock : Nat)
    (hloop : loop.In (w.scope σ b)) (haside : aside.In (w.scope σ b)) (hquiet : loop.TimersQuiet)
    (hquiet' : aside.TimersQuiet)
    (htokens : ∀ g, σ g ≠ none → ¬ X g → (loop.tokens g ++ aside.tokens g).Perm (w.tokens g)) :
    w.Minds σ b X { w with loop := loop, here := here, aside := aside, clock := clock } where
  confined := h.confined.besides hloop haside h.confined.stores h.confined.session here clock w.caughtThrows
  later := .of_fiber? fun _ => rfl
  quiet := ⟨hquiet, hquiet'⟩
  nudges g hg hout := fun _ p hp =>
    ⟨[], p, .refl p, List.forall_mem_nil _, hp.alike ⟨rfl, htokens g hg hout, rfl⟩⟩
  deferreds := Nat.le_refl _
  semaphores_size := Nat.le_refl _
  semaphores _ _ h := h
  made _ _ h h' := nomatch h.symm.trans h'
  rows _ _ _ _ _ := rfl

theorem Calm.withLoop (h : w.Calm σ b) {loop : EventLoop} (hloop : loop.In (w.scope σ b)) (hquiet : loop.TimersQuiet)
    (htokens : ∀ g, σ g ≠ none → ¬ X g → loop.tokens g = w.loop.tokens g) :
    w.Minds σ b X { w with loop := loop } :=
  h.tend w.here w.clock hloop h.confined.aside hquiet h.quiet.aside fun g hg hout => by
    rw [htokens g hg hout]
    exact .refl _

theorem Calm.switch (h : w.Calm σ b) : w.Minds σ b X w.switch :=
  h.tend _ w.clock h.confined.aside h.confined.loop h.quiet.aside h.quiet.loop fun _ _ _ => List.perm_append_comm

theorem Calm.setClock (h : w.Calm σ b) (clock : Nat) : w.Minds σ b X { w with clock := clock } :=
  h.tend w.here clock h.confined.loop h.confined.aside h.quiet.loop h.quiet.aside fun _ _ _ => .refl _

/-- A message is taken that goes on with no fiber that is minded. -/
theorem Calm.dropMessage (h : w.Calm σ b) {message : Message} {rest : List Message}
    (hinbox : w.loop.inbox = message :: rest) (hother : ∀ g, σ g ≠ none → ¬ X g → message.token? g = none) :
    w.Minds σ b X w.dropMessage := by
  refine h.withLoop ⟨fun m hm => h.confined.loop.inbox m (List.mem_of_mem_tail hm), h.confined.loop.timers⟩
    h.quiet.loop.drop fun g hg hout => ?_
  rw [EventLoop.tokens, EventLoop.tokens, hinbox, List.filterMap_cons, hother g hg hout]
  rfl

/-- A fiber that is not minded yields. -/
theorem Calm.dispatch (h : w.Calm σ b) {task : Task} (htask : task.In (w.scope σ b)) (hf : task.fiber? = some f)
    (hminded : ∀ g, σ g ≠ none → ¬ X g → f ≠ g) : w.Minds σ b X (w.dispatch task) := by
  refine h.withLoop (h.confined.loop.queue htask) (h.quiet.loop.queue task) fun g hg hout => ?_
  have hne : task.fiber? ≠ some g := fun he => hminded g hg hout (Option.some.inj (hf.symm.trans he))
  rw [EventLoop.tokens_queue, token?_task_of_ne hne]
  exact List.append_nil _

theorem Calm.runErrand (h : w.Calm σ b) {task : Task} (htask : task.In (w.scope σ b))
    (herrand : task.isErrand = true) : w.Minds σ b X (w.runTask task) := by
  cases task with
  | succeed callback v =>
    exact h.stays ⟨h.confined.settle callback htask.2, h.confined.apart_settle (Or.inl htask.1) _⟩
  | actions list env =>
    exact h.attempt (Tracks.actions (J := Confining (w.scope σ b)) htask Scope.noCallback list)
  | _ => cases herrand

theorem Minds.errand_in (hminds : w.Minds σ b X w') {task : Task} (htask : task.In (w.scope σ b))
    (herrand : task.isErrand = true) : task.In (w'.scope σ b) :=
  Task.In.mono hminds.grows htask fun f hf => by
    rw [Task.fiber?_of_isErrand herrand] at hf
    cases hf

theorem Calm.fireAll (h : w.Calm σ b) {due : List Timer} (hdue : ∀ t ∈ due, t.task.isErrand = true)
    (hin : ∀ t ∈ due, t.task.In (w.scope σ b)) : w.Minds σ b X (due.foldl fire w) := by
  induction due generalizing w with
  | nil => exact h.refl
  | cons t rest ih =>
    obtain ⟨herrand, hrest⟩ := List.forall_mem_cons.1 hdue
    obtain ⟨htask, hrest'⟩ := List.forall_mem_cons.1 hin
    have hfire : w.Minds σ b X (w.fire t) := by
      unfold World.fire
      split
      · exact h.refl
      · exact h.runErrand htask herrand
    exact hfire.trans (ih (hfire.calm h) hrest fun u hu => hfire.errand_in (hrest' u hu) (hrest u hu))

theorem Calm.fireDue (h : w.Calm σ b) : w.Minds σ b X w.fireDue := by
  have hlater : w.Minds σ b X
      { w with loop := { w.loop with timers := w.loop.timers.dropWhile (·.deadline ≤ w.clock) } } :=
    h.withLoop ⟨h.confined.loop.inbox, fun t ht => h.confined.loop.timers t ((List.dropWhile_suffix _).subset ht)⟩
      ⟨h.quiet.loop.inbox, fun t ht => h.quiet.loop.timers t ((List.dropWhile_suffix _).subset ht)⟩ fun _ _ _ => rfl
  refine hlater.trans ((hlater.calm h).fireAll (fun t ht => ?_) fun t ht => ?_)
  · exact h.quiet.loop.timers t ((List.takeWhile_prefix _).subset ht)
  · exact h.confined.loop.timers t ((List.takeWhile_prefix _).subset ht)

/-! ## The record of a fiber -/

theorem ne_of_engaged {g : FiberId} (hf : σ f = none) (hg : σ g ≠ none) : f ≠ g := by
  rintro rfl
  exact hg hf

/-- The record of a fiber that is not minded may change. -/
theorem Calm.modify (h : w.Calm σ b) (hminded : ∀ g, σ g ≠ none → ¬ X g → f ≠ g) (change : Fiber → Fiber)
    (hphase : ∀ r, w.fiber? f = some r → σ f = none → (change r).phase.In (w.scope σ b))
    (hnotice : ∀ r notice, w.fiber? f = some r → (change r).notice = some notice → notice.In (w.scope σ b))
    (hle : ∀ r, r.epoch ≤ (change r).epoch)
    (hepoch : ∀ r, w.fiber? f = some r → r.epoch < (change r).epoch ∨
      (change r).epoch = r.epoch ∧ (r.phase.listens = true → (change r).phase.listens = true)) :
    w.Minds σ b X (w.modifyFiber f change) := by
  have hconfined := h.confined.modifyFiber hphase hnotice hle
  have hlater := Later.modifyFiber w f change hepoch
  have hquiet := h.quiet.modifyFiber f change
  exact {
    confined := hconfined.rescope hlater hquiet (Nat.le_refl _) (Nat.le_refl _) (fun _ hl => Or.inl hl)
      (fun _ hl => hl)
      (fun d row hrow hnew _ => absurd ((Table.isSome_get?_iff _ _).1 (Option.isSome_of_eq_some hrow))
        (Nat.not_lt_of_le hnew))
      (fun _ hg => Or.inl hg) (fun _ hg => Or.inl hg) hconfined.hidden
    later := hlater
    quiet := hquiet
    nudges := fun g hg hout => .of_view fun a => view_modifyFiber_of_ne (hminded g hg hout) w change a
    deferreds := Nat.le_refl _
    semaphores_size := Nat.le_refl _
    semaphores := fun _ _ h => h
    made := fun _ _ h h' => nomatch h.symm.trans h'
    rows := fun _ _ _ _ _ => rfl }

/-- The record of a fiber that is in no acquire may change. -/
theorem Calm.modifyFiber (h : w.Calm σ b) (hf : σ f = none) (change : Fiber → Fiber)
    (hphase : ∀ r, w.fiber? f = some r → (change r).phase.In (w.scope σ b))
    (hnotice : ∀ r notice, w.fiber? f = some r → (change r).notice = some notice → notice.In (w.scope σ b))
    (hle : ∀ r, r.epoch ≤ (change r).epoch)
    (hepoch : ∀ r, w.fiber? f = some r → r.epoch < (change r).epoch ∨
      (change r).epoch = r.epoch ∧ (r.phase.listens = true → (change r).phase.listens = true)) :
    w.Minds σ b X (w.modifyFiber f change) :=
  h.modify (fun _ hg _ => ne_of_engaged hf hg) change (fun r hr _ => hphase r hr) hnotice hle hepoch

theorem Calm.notice_in (h : w.Calm σ b) {r : Fiber} (hr : w.fiber? f = some r) {notice : ExitNotice}
    (hnotice : r.notice = some notice) : notice.In (w.scope σ b) :=
  h.confined.notices f notice (Option.bind_eq_some_iff.2 ⟨r, hr, hnotice⟩)

/-- The exit of a fiber that is in no acquire comes into its notice. -/
theorem Calm.setNotice (h : w.Calm σ b) (hf : σ f = none) {notice : ExitNotice} (hnotice : notice.In (w.scope σ b)) :
    w.Minds σ b X (w.setNotice f notice) :=
  h.modifyFiber hf _ (fun r hr => h.confined.fibers f r hr hf) (fun _ _ _ hrow => Option.some.inj hrow ▸ hnotice)
    (fun r => Nat.le_refl r.epoch) fun _ _ => Or.inr ⟨rfl, id⟩

theorem Calm.advanceEpoch (h : w.Calm σ b) (hf : σ f = none) {phase : Phase} (hphase : phase.In (w.scope σ b)) :
    w.Minds σ b X (w.advanceEpoch f phase) :=
  h.modifyFiber hf _ (fun _ _ => hphase) (fun _ _ hr => h.notice_in hr) (fun r => Nat.le_succ r.epoch)
    fun r _ => Or.inl (Nat.lt_succ_self r.epoch)

/-! ## What somebody asks for -/

theorem Calm.setGlobal (h : w.Calm σ b) (name : Name) {v : Value} (hv : v.In (w.scope σ b)) :
    w.Minds σ b X (w.setGlobal name v) :=
  h.stays ((Tracks.setGlobal (J := Confining (w.scope σ b)) name hv) w h.confined).1

/-- What is asked for leaves the acquires alone, and only descriptions in scope are kept. -/
theorem Calm.demand (h : w.Calm σ b) {kept : List Effect} (hkept : ∀ e ∈ kept, e.In (w.scope σ b)) (d : Demand) :
    w.Minds σ b X ((d.act kept).run w).2 ∧
      ∀ more, ((d.act kept).run w).1 = .ok more → ∀ e ∈ more, e.In (((d.act kept).run w).2.scope σ b) := by
  by_cases hordinary : d.isOrdinary = true
  · obtain ⟨hstays, hresult⟩ :=
      (Tracks.demand (J := Confining (w.scope σ b)) hkept hordinary) w h.confined
    have hminds : w.Minds σ b X _ := h.stays hstays
    exact ⟨hminds, fun more hmore e he d hd => hminds.grows.mentions d (hresult more hmore e he d hd)⟩
  · have hnone (w' : World) : ∀ more : List Effect, (.ok [] : Except Defect (List Effect)) = .ok more →
        ∀ e ∈ more, e.In (w'.scope σ b) := by
      rintro more ⟨⟩
      exact List.forall_mem_nil _
    cases d with
    | scenario op =>
      cases op with
      | newDeferred name =>
        obtain ⟨hmake, hnew⟩ := h.makeDeferred (X := X)
        have hset := (hmake.calm h).setGlobal (X := X) name (v := .deferred w.makeDeferred.1)
          (List.forall_mem_singleton.2 hnew)
        exact ⟨hmake.trans hset, hnone _⟩
      | newSemaphore name n =>
        obtain ⟨hmake, hnew⟩ := h.makeSemaphore (X := X) n
        have hset := (hmake.calm h).setGlobal (X := X) name (v := .semaphore (w.makeSemaphore n).1)
          (List.forall_mem_singleton.2 hnew)
        exact ⟨hmake.trans hset, hnone _⟩
      | newQueue name policy =>
        have hmake := h.makeQueue (X := X) policy
        have hset := (hmake.calm h).setGlobal (X := X) name (v := .queue (w.makeQueue policy).1)
          (List.forall_mem_singleton.2 trivial)
        exact ⟨hmake.trans hset, hnone _⟩
      | _ => exact absurd rfl hordinary
    | _ => exact absurd rfl hordinary

end Calm

end World

end FiberLoop
