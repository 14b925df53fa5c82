import FiberLoop.Proofs.Deferreds.Tidying
import FiberLoop.Proofs.Evaluation.BigStep
import FiberLoop.Proofs.Runtime.Staying

/-!
# What a completion does

The completion of a deferred queues one task for each fiber that is parked in its line, in the order of the line, and
leaves everybody else alone: fibers whose wait has ended are passed over, and no flag is set. A fiber that has joined
the line but is not parked yet keeps the exit for the end of its registration.

The main results of this module are `Moment.Tidy.inbox_complete`, which says what is queued, and
`Moment.Tidy.view_complete`, which says who is left alone.
-/

namespace FiberLoop

open World

namespace World

/-- The task that goes on with a fiber that waits, if it is parked and lives on the loop of that name. -/
def rouses (name : LoopName) (x : Exit Value Value) (w : World) (waiter : Nat × Callback) : Option Task :=
  (w.record waiter.2.fiber).bind fun r =>
    match r.phase with
    | .suspended run _ =>
      if r.home = name ∧ r.epoch = waiter.2.epoch then some (.resume waiter.2.fiber run (.ofExit x)) else none
    | _ => none

section Inbox

variable {w : World} {name home : LoopName} {x : Exit Value Value} {callback : Callback} {f : FiberId}
  {waiters : List (Nat × Callback)}

/-- The completion of a callback queues the run of a fiber that is parked with it. -/
theorem inbox_settle (key : Nat) (callback : Callback) (x : Exit Value Value) (w : World) (name : LoopName) :
    ((w.settle callback x).loopAt name).inbox =
      (w.loopAt name).inbox ++ (w.rouses name x (key, callback)).toList.map .task := by
  unfold settle rouses
  rw [record]
  cases hr : w.fiber? callback.fiber with
  | none => exact (List.append_nil _).symm
  | some r =>
    have hcore : r.core.phase = r.phase ∧ r.core.home = r.home ∧ r.core.epoch = r.epoch := ⟨rfl, rfl, rfl⟩
    simp only [Option.map_some, Option.bind_some, hcore]
    by_cases hepoch : r.epoch = callback.epoch
    · rw [if_neg (not_not_intro hepoch)]
      cases r.phase with
      | suspended run canceler =>
        simp only [inbox_dispatchTo, hepoch, and_true]
        by_cases hhome : r.home = name
        · simp only [if_pos hhome]
          rfl
        · simp only [if_neg hhome]
          rfl
      | _ => exact (List.append_nil _).symm
    · rw [if_pos hepoch]
      cases r.phase with
      | suspended run canceler =>
        simp only [hepoch, and_false, if_false]
        exact (List.append_nil _).symm
      | _ => exact (List.append_nil _).symm

/-- Callbacks of different fibers are completed in order. -/
theorem inbox_settleAll (h : (waiters.map (·.2.fiber)).Nodup) (x : Exit Value Value) (w : World) (name : LoopName) :
    ((w.settleAll waiters x).loopAt name).inbox =
      (w.loopAt name).inbox ++ (waiters.filterMap (w.rouses name x)).map .task := by
  induction waiters generalizing w with
  | nil => exact (List.append_nil _).symm
  | cons waiter rest ih =>
    obtain ⟨hfresh, hrest⟩ := List.nodup_cons.1 h
    have hothers : rest.filterMap ((w.settle waiter.2 x).rouses name x) = rest.filterMap (w.rouses name x) := by
      refine List.filterMap_congr fun e he => ?_
      have hne : waiter.2.fiber ≠ e.2.fiber := fun hf => hfresh (List.mem_map.2 ⟨e, he, hf.symm⟩)
      rw [rouses, rouses, record_settle_of_ne hne]
    refine (ih hrest (w.settle waiter.2 x)).trans ?_
    rw [inbox_settle waiter.1, hothers, List.append_assoc, ← List.map_append, List.filterMap_cons]
    cases w.rouses name x waiter <;> rfl

/-- No completion sets a flag. -/
theorem flagged_settle (callback : Callback) (x : Exit Value Value) (w : World) (f : FiberId) :
    (w.settle callback x).flagged f = w.flagged f := by
  unfold settle
  split
  · rfl
  · split
    · rfl
    · rename_i r hr hepoch
      have hsame (change : Fiber → Fiber) (h : ∀ r : Fiber, (change r).interruptRequested = r.interruptRequested) :
          (w.modifyFiber callback.fiber change).flagged f = w.flagged f := by
        by_cases hf : callback.fiber = f
        · subst hf
          rw [flagged, flagged, fiber?_modifyFiber_self]
          cases w.fiber? callback.fiber with
          | none => rfl
          | some r => exact h r
        · rw [flagged, flagged, fiber?_modifyFiber_of_ne hf]
      split
      · exact hsame _ fun _ => rfl
      · rw [flagged, fiber?_dispatchTo]
        exact hsame _ fun _ => rfl
      · rfl

theorem flagged_settleAll (waiters : List (Nat × Callback)) (x : Exit Value Value) (w : World) (f : FiberId) :
    (w.settleAll waiters x).flagged f = w.flagged f := by
  induction waiters generalizing w with
  | nil => rfl
  | cons waiter rest ih => exact (ih _).trans (flagged_settle waiter.2 x w f)

theorem flagged_completeDeferred (d : DeferredId) (x : Exit Value Value) (w : World) (f : FiberId) :
    (w.completeDeferred d x).2.flagged f = w.flagged f := by
  unfold completeDeferred
  split
  · exact flagged_settleAll _ x _ f
  · rfl

/-- A fiber all of whose callbacks in the line are stale shows the same. -/
theorem view_settleAll_of_stale (h : ∀ e ∈ waiters, e.2.fiber = f → e.2.epoch ≠ w.epoch f) (a : Activity) :
    (w.settleAll waiters x).view f a = w.view f a := by
  induction waiters generalizing w with
  | nil => rfl
  | cons waiter rest ih =>
    obtain ⟨hwaiter, hrest⟩ := List.forall_mem_cons.1 h
    by_cases hf : waiter.2.fiber = f
    · have hsame : w.settle waiter.2 x = w := by
        have hepoch := hwaiter hf
        rw [← hf] at hepoch
        unfold settle
        cases hr : w.fiber? waiter.2.fiber with
        | none => rfl
        | some r =>
          rw [epoch, hr] at hepoch
          exact if_pos fun he => hepoch he.symm
      refine (ih (w := w.settle waiter.2 x) ?_).trans (by rw [hsame])
      rw [hsame]
      exact hrest
    · have hrecord := record_settle_of_ne hf x w
      have hepoch : (w.settle waiter.2 x).epoch f = w.epoch f := by
        have hmap (v : World) : v.epoch f = (v.record f).elim 0 (·.epoch) := by
          rw [epoch, record]
          cases v.fiber? f <;> rfl
        rw [hmap, hmap, hrecord]
      refine (ih (w := w.settle waiter.2 x) fun e he hef => hepoch ▸ hrest e he hef).trans ?_
      rw [view, view, hrecord, tokens_settle_of_ne hf]

end Inbox

end World

namespace Moment.Tidy

variable {hidden : Callback → Prop} {before : World} {m : Moment} {f : FiberId} {home name : LoopName} {run : Run}
  {d : DeferredId} {key left : Nat} {x : Exit Value Value} {waiters : List (Nat × Callback)} {a : Activity}

/-! ## Who stands in a line -/

theorem pairwise_line (h : m.Tidy hidden before) (d : DeferredId) : ((m.world.line d).map (·.1)).Pairwise (· < ·) := by
  cases hrow : m.world.deferred? d with
  | none =>
    rw [line, hrow]
    exact .nil
  | some row =>
    cases row with
    | done x =>
      rw [line_of_done hrow]
      exact .nil
    | pending waiters key =>
      rw [line_of_pending hrow]
      exact (h.lined.ordered d _ hrow).1

/-- Nobody stands in a line twice. -/
theorem nodup_line (h : m.Tidy hidden before) (d : DeferredId) : ((m.world.line d).map (·.2.fiber)).Nodup := by
  refine List.pairwise_map.2 ((List.pairwise_map.1 (h.pairwise_line d)).imp_of_mem fun {e e'} he he' hlt hf => ?_)
  have hs := h.lined.seated d e he
  rw [show e.2.fiber = e'.2.fiber from hf, h.lined.seated d e' he'] at hs
  exact Nat.ne_of_gt hlt (congrArg Seat.key (Option.some.inj hs))

/-- A fiber that is parked on a deferred. -/
theorem parked (h : m.Tidy hidden before) (hasleep : m.world.Asleep f home run (.waiter d key)) :
    ∃ p, Fits f (m.view f) p ∧ p.standing = .parked run (.waiter d key) ∧ m.world.epoch f = p.epoch := by
  rcases (h.people f).cases with habsent | ⟨p, hp⟩
  · obtain ⟨r, hr, -⟩ := hasleep
    exact nomatch habsent.record.symm.trans hr
  · obtain ⟨home', hrecord⟩ := hp.record
    exact ⟨p, hp, hasleep.standing hp, epoch_of_record hrecord⟩

/-- A fiber that is parked on a deferred stands in its line. -/
theorem mem_line_of_asleep (h : m.Tidy hidden before) (hasleep : m.world.Asleep f home run (.waiter d key)) :
    (key, ⟨f, m.world.epoch f⟩) ∈ m.world.line d := by
  obtain ⟨p, hp, hstanding, hepoch⟩ := h.parked hasleep
  have hs : m.seat? f = some ⟨d, key, p.epoch⟩ := by
    rw [Moment.seat?, hp.seat?, Place.seat?, hstanding]
  rw [hepoch]
  exact (h.lined.lined f _ hs).resolve_right fun hpast => Nat.lt_irrefl _ (hepoch ▸ hpast.1)

theorem rouses_of_asleep (hasleep : m.world.Asleep f home run (.waiter d key)) (x : Exit Value Value) :
    m.world.rouses home x (key, ⟨f, m.world.epoch f⟩) = some (.resume f run (.ofExit x)) := by
  obtain ⟨r, hr, hhome, hphase⟩ := hasleep
  rw [rouses, hr]
  simp only [Option.bind_some, hphase, epoch_of_record hr, hhome, and_self, if_true]

/-- Who stands in a line is parked there, has joined it and is not parked yet, or has been interrupted. -/
theorem cases_of_mem_line (h : m.Tidy hidden before) {e : Nat × Callback} (he : e ∈ m.world.line d) :
    (∃ home run, m.world.Asleep e.2.fiber home run (.waiter d e.1)) ∧ e.2.epoch = m.world.epoch e.2.fiber ∨
      (∃ left run, m.activity = .returning e.2.fiber left run (.waiter d e.1)) ∧ e.2.epoch = m.world.epoch e.2.fiber ∨
      e.2.epoch < m.world.epoch e.2.fiber ∧ ((∃ run, m.world.tokens e.2.fiber = [.unwind e.2.fiber (.waiter d e.1) run]) ∨
        ∃ left run, m.activity = .canceling e.2.fiber left run (.waiter d e.1)) := by
  have hs := h.lined.seated d e he
  obtain ⟨p, hp, hseat⟩ := (h.people e.2.fiber).fits hs
  obtain ⟨home, hrecord⟩ := hp.record
  have hepoch : m.world.epoch e.2.fiber = p.epoch := epoch_of_record hrecord
  have hheld : Held e.2.fiber p.epoch p.hook p.standing (m.world.tokens e.2.fiber) (m.activity.of e.2.fiber) := hp.held
  rw [hepoch]
  obtain ⟨standing, epoch, requested, hook⟩ := p
  generalize htokens : m.world.tokens e.2.fiber = tokens at hheld
  generalize hactivity : m.activity.of e.2.fiber = a at hheld
  cases hheld with
  | returned run early canceler left =>
    cases early <;> cases canceler <;> cases hseat
    exact Or.inr (Or.inl ⟨⟨left, run, Activity.eq_of_of hactivity nofun⟩, rfl⟩)
  | parked run canceler =>
    cases canceler <;> cases hseat
    exact Or.inl ⟨⟨home, run, _, hrecord, rfl, rfl⟩, rfl⟩
  | unwinding hended run canceler =>
    cases canceler <;> cases hseat
    exact Or.inr (Or.inr ⟨by rw [hended]; exact Nat.lt_succ_self _, Or.inl ⟨run, rfl⟩⟩)
  | canceling hended run canceler left =>
    cases canceler <;> cases hseat
    refine Or.inr (Or.inr ⟨by rw [hended]; exact Nat.lt_succ_self _, Or.inr ⟨left, run, ?_⟩⟩)
    exact Activity.eq_of_of hactivity nofun
  | fresh root | queued s | running s left | registering run early left r | exiting x | done x => cases hseat

/-! ## What a completion does -/

/-- **A completion queues the runs of those who are parked, in the order of the line.** -/
theorem inbox_complete (h : m.Tidy hidden before) {next : Nat}
    (hrow : m.world.deferred? d = some (.pending waiters next)) (x : Exit Value Value) (name : LoopName) :
    ((m.world.completeDeferred d x).2.loopAt name).inbox =
      (m.world.loopAt name).inbox ++ (waiters.filterMap (m.world.rouses name x)).map .task := by
  have hnodup := h.nodup_line d
  rw [line_of_pending hrow] at hnodup
  rw [completeDeferred_of_pending hrow]
  exact inbox_settleAll hnodup x (m.world.setDeferred d (.done x)) name

/-- **A completion leaves everybody alone who does not wait for it.** -/
theorem view_complete (h : m.Tidy hidden before) (hasleep : ∀ home run key, ¬ m.world.Asleep f home run (.waiter d key))
    (hjoined : ∀ left run key, m.activity ≠ .returning f left run (.waiter d key)) (x : Exit Value Value) (a : Activity) :
    (m.world.completeDeferred d x).2.view f a = m.world.view f a := by
  cases hrow : m.world.deferred? d with
  | none => rw [completeDeferred, hrow]
  | some row =>
    cases row with
    | done y => rw [completeDeferred, hrow]
    | pending waiters next =>
      rw [completeDeferred_of_pending hrow]
      refine view_settleAll_of_stale (w := m.world.setDeferred d (.done x)) (fun e he hf => ?_) a
      rw [← line_of_pending hrow] at he
      subst hf
      rcases h.cases_of_mem_line he with ⟨⟨home, run, hparked⟩, -⟩ | ⟨⟨left, run, hreturning⟩, -⟩ | ⟨hlt, -⟩
      · exact absurd hparked (hasleep home run e.1)
      · exact absurd hreturning (hjoined left run e.1)
      · exact Nat.ne_of_lt hlt

/-- The task of a fiber that was parked waits in the loop on which the fiber lives. -/
theorem task_complete (h : m.Tidy hidden before) (hasleep : m.world.Asleep f home run (.waiter d key))
    (x : Exit Value Value) :
    .task (.resume f run (.ofExit x)) ∈ ((m.world.completeDeferred d x).2.loopAt home).inbox := by
  have hmem := h.mem_line_of_asleep hasleep
  obtain ⟨next, hrow⟩ := pending_of_mem_line hmem
  rw [h.inbox_complete hrow]
  refine List.mem_append_right _ (List.mem_map_of_mem (List.mem_filterMap.2 ⟨_, hmem, ?_⟩))
  exact rouses_of_asleep hasleep x

end Moment.Tidy

end FiberLoop
