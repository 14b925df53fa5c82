import FiberLoop.Proofs.Queues.Undoing

/-!
# The rows of queues in runs

In every run, whatever is offered, taken, interrupted and put back: those in the line of a queue wait on latches of
their own, which nobody completes but by the use of the queue, and the buffer of a queue respects its capacity
(`Scene.Occurs.lined`).

So takes that are undone leave no trace in a run either: `Scene.Occurs.undoes` is `World.undoing` for fibers that
take, offer and give up at any time, with arbitrary strokes in between that do not use the queue.
-/

namespace FiberLoop

/-- A closure that uses a queue is one of four. -/
theorem Call.cases_of_uses {q : QueueId} {c : Call} (h : c.uses q) :
    c = .thunk (.perform (.requestItem q)) ∨ (∃ item, c = .thunk (.perform (.offerItem q item))) ∨
      (∃ item, c = .thunk (.perform (.putBackItem q item))) ∨ ∃ latch, c = .thunk (.perform (.abandonItem q latch)) := by
  rcases h with hqueue | rfl
  · cases c with
    | thunk thunk =>
      cases thunk with
      | perform o =>
        cases o with
        | offerItem q' item =>
          cases hqueue
          exact Or.inr (Or.inl ⟨item, rfl⟩)
        | putBackItem q' item =>
          cases hqueue
          exact Or.inr (Or.inr (Or.inl ⟨item, rfl⟩))
        | abandonItem q' latch =>
          cases hqueue
          exact Or.inr (Or.inr (Or.inr ⟨latch, rfl⟩))
        | _ => cases hqueue
      | _ => cases hqueue
    | _ => cases hqueue
  · exact Or.inl rfl

theorem QueueState.line_ofLine (latches : List DeferredId) : (QueueState.ofLine latches).line = latches := by
  cases latches <;> rfl

namespace World

variable {w w' : World} {q : QueueId} {row : Queue} {L : List DeferredId} {V : Scope} {item : Value}
  {latch : DeferredId} {place : Overflow → List Value → Value → List Value}

/-- What holds of the row of a queue at any time. -/
structure Lined (q : QueueId) (L : List DeferredId) (row : Queue) (w : World) : Prop where
  found : w.queue? q = some row
  /-- The latches in line are among those that only the queue completes. -/
  known : ∀ l ∈ row.state.line, l ∈ L
  opened : ∀ l ∈ row.state.line, w.pollDeferred l = none
  distinct : row.state.line.Nodup
  fits : ∀ items, row.state = .ready items → row.policy.Fits items

theorem Lined.aside (h : w.Lined q L row) (hpast : w.Bypasses q L w') : w'.Lined q L row :=
  ⟨hpast.queue.trans h.found, h.known, fun l hl => (hpast.polls l (h.known l hl)).trans (h.opened l hl), h.distinct, h.fits⟩

/-- The state of a queue becomes a buffer that respects the capacity. -/
theorem lined_ready (hrow : w.queue? q = some row) {items : List Value} (hfits : row.policy.Fits items) :
    (w.setQueueState q (.ready items)).Lined q L { row with state := .ready items } where
  found := queue?_setQueueState_self hrow _
  known := List.forall_mem_nil _
  opened := List.forall_mem_nil _
  distinct := .nil
  fits items' he := by
    cases he
    exact hfits

/-- The state of a queue becomes a line. -/
theorem lined_ofLine (hrow : w.queue? q = some row) {line : List DeferredId} (hknown : ∀ l ∈ line, l ∈ L)
    (hopened : ∀ l ∈ line, w.pollDeferred l = none) (hdistinct : line.Nodup) :
    (w.setQueueState q (.ofLine line)).Lined q L { row with state := .ofLine line } where
  found := queue?_setQueueState_self hrow _
  known l hl := hknown l (QueueState.line_ofLine line ▸ hl)
  opened l hl := hopened l (QueueState.line_ofLine line ▸ hl)
  distinct := (QueueState.line_ofLine line).symm ▸ hdistinct
  fits items he := by
    cases line with
    | nil =>
      cases he
      exact row.policy.fits_nil
    | cons latch rest => cases he

/-! ## Items that come to a queue -/

theorem size_deliver (q : QueueId) (item : Value) (place : Overflow → List Value → Value → List Value) (w : World) :
    (w.deliver q item place).stores.deferreds.size = w.stores.deferreds.size := by
  unfold deliver
  split
  · rfl
  · split
    · exact size_completeDeferred _ _ w
    · rfl
    · rfl

/-- An item comes to a queue that nobody else uses. -/
theorem Confined.deliver (hw : w.Confined V) (hwaits : ∀ l, V.mentions (.wait l)) (hq : ¬ V.queue q)
    (hitem : item.In V) (hplace : ∀ p items, ∀ v ∈ place p items item, v ∈ items ∨ v = item) :
    (w.deliver q item place).Confined V := by
  unfold World.deliver
  split
  · exact hw
  · rename_i row hrow
    have hstate := hw.stores.queues q.index row hrow
    have hbuffer (items : List Value) (hitems : ∀ v ∈ items, v.In V) :
        (w.setQueueState q (.ready (place row.policy items item))).Confined V := by
      refine hw.setQueueState q _ fun v hv => ?_
      rcases hplace _ _ v hv with hmem | rfl
      · exact hitems v hmem
      · exact hitem
    split
    · rename_i latch rest hline
      exact (hw.completeDeferred (hwaits latch) (x := .value item) hitem).setQueueState q _
        (QueueState.in_ofLine fun hused => absurd hused hq)
    · exact hbuffer [] (List.forall_mem_nil _)
    · rename_i items hready
      rw [hready] at hstate
      exact hbuffer items hstate

/-- An item goes to the head of the line, or to the buffer by a rule that respects the capacity. -/
theorem Lined.deliver (h : w.Lined q L row) (item : Value)
    (hplace : ∀ buffer, row.policy.Fits buffer → row.policy.Fits (place row.policy buffer item)) :
    ∃ row', (w.deliver q item place).Lined q L row' ∧ row'.policy = row.policy := by
  obtain ⟨hrow, hknown, hopened, hdistinct, hfits⟩ := h
  unfold World.deliver
  rw [hrow]
  dsimp only
  split
  · rename_i latch rest hline
    rw [hline] at hknown hopened hdistinct
    obtain ⟨hlatch, hrest⟩ := List.nodup_cons.1 hdistinct
    refine ⟨_, lined_ofLine ((queue?_completeDeferred ..).trans hrow)
      (fun l hl => hknown l (List.mem_cons_of_mem _ hl)) (fun l hl => ?_) hrest, rfl⟩
    have hne : l ≠ latch := by
      rintro rfl
      exact hlatch hl
    exact (pollDeferred_completeDeferred_of_ne hne _ _).trans (hopened l (List.mem_cons_of_mem _ hl))
  · exact ⟨_, lined_ready hrow (hplace [] row.policy.fits_nil), rfl⟩
  · rename_i items hready
    exact ⟨_, lined_ready hrow (hplace items (hfits items hready)), rfl⟩

/-! ## Takes that give up -/

theorem Confined.reclaimItem (hw : w.Confined V) (hwaits : ∀ l, V.mentions (.wait l)) (hq : ¬ V.queue q)
    (latch : DeferredId) : (w.reclaimItem q latch).Confined V := by
  unfold World.reclaimItem
  split
  · rename_i item hpoll
    exact hw.deliver hwaits hq (hw.poll (hwaits latch) _ hpoll) fun _ _ _ => mem_restore
  · exact hw

theorem Confined.abandonItem (hw : w.Confined V) (hwaits : ∀ l, V.mentions (.wait l)) (hq : ¬ V.queue q)
    (latch : DeferredId) : (w.abandonItem q latch).Confined V := by
  unfold World.abandonItem
  split
  · split
    · exact hw.setQueueState q _ (QueueState.in_ofLine fun hused => absurd hused hq)
    · exact hw.reclaimItem hwaits hq latch
  · exact hw.reclaimItem hwaits hq latch

theorem size_reclaimItem (q : QueueId) (latch : DeferredId) (w : World) :
    (w.reclaimItem q latch).stores.deferreds.size = w.stores.deferreds.size := by
  unfold reclaimItem
  split
  · exact size_deliver _ _ _ w
  · rfl

theorem size_abandonItem (q : QueueId) (latch : DeferredId) (w : World) :
    (w.abandonItem q latch).stores.deferreds.size = w.stores.deferreds.size := by
  unfold abandonItem
  split
  · split
    · rfl
    · exact size_reclaimItem q latch w
  · exact size_reclaimItem q latch w

theorem Lined.putBack (h : w.Lined q L row) (item : Value) :
    ∃ row', (w.putBackItem q item).Lined q L row' ∧ row'.policy = row.policy :=
  h.deliver item fun _ hfits => hfits.restore item

theorem Lined.reclaim (h : w.Lined q L row) (latch : DeferredId) :
    ∃ row', (w.reclaimItem q latch).Lined q L row' ∧ row'.policy = row.policy := by
  unfold World.reclaimItem
  split
  · exact h.putBack _
  · exact ⟨row, h, rfl⟩

theorem Lined.abandon (h : w.Lined q L row) (latch : DeferredId) :
    ∃ row', (w.abandonItem q latch).Lined q L row' ∧ row'.policy = row.policy := by
  unfold World.abandonItem
  rw [queueState?_of_row h.found]
  split
  · rename_i latches hstate
    have hline : row.state.line = latches := congrArg QueueState.line (Option.some.inj hstate)
    obtain ⟨hrow, hknown, hopened, hdistinct, hfits⟩ := h
    rw [hline] at hknown hopened hdistinct
    split
    · exact ⟨_, lined_ofLine hrow (fun l hl => hknown l (List.mem_of_mem_erase hl))
        (fun l hl => hopened l (List.mem_of_mem_erase hl)) (hdistinct.erase latch), rfl⟩
    · exact Lined.reclaim ⟨hrow, hline ▸ hknown, hline ▸ hopened, hline ▸ hdistinct, hfits⟩ latch
  · exact h.reclaim latch

/-! ## Takes -/

/-- Where a take finds an item. -/
theorem state_of_nextItem? (hrow : w.queue? q = some row) (h : w.nextItem? q = some item) :
    ∃ items, row.state = .ready (item :: items) := by
  rw [nextItem?, queueState?_of_row hrow] at h
  split at h
  · rename_i item' items hstate
    cases h
    exact ⟨items, Option.some.inj hstate⟩
  · cases h

/-- A take that finds an item. -/
theorem Lined.pop (h : w.Lined q L row) {items : List Value} (hstate : row.state = .ready (item :: items)) :
    (w.setQueueState q (.ready items)).Lined q L { row with state := .ready items } :=
  lined_ready h.found (h.fits _ hstate).tail

/-- A take that finds no item. -/
theorem Lined.park (h : w.Lined q L row) (hmade : ∀ l ∈ L, l.index < w.stores.deferreds.size) :
    (w.makeDeferred.2.setQueueState q (.waiting (row.state.line ++ [w.makeDeferred.1]))).Lined q
      (L ++ [w.makeDeferred.1]) { row with state := .waiting (row.state.line ++ [w.makeDeferred.1]) } where
  found := queue?_setQueueState_self (w := w.makeDeferred.2) h.found _
  known l hl := (List.mem_append.1 hl).elim (fun hold => List.mem_append_left _ (h.known l hold)) (List.mem_append_right _)
  opened l hl := by
    rcases List.mem_append.1 hl with hold | hnew
    · exact (congrArg (Option.bind · Deferred.exit?)
        ((Table.get?_push ..).trans (if_neg (Nat.ne_of_lt (hmade l (h.known l hold)))))).trans (h.opened l hold)
    · cases List.mem_singleton.1 hnew
      exact congrArg (Option.bind · Deferred.exit?) ((Table.get?_push ..).trans (if_pos rfl))
  distinct := by
    refine List.nodup_append.2 ⟨h.distinct, List.pairwise_singleton .., fun l hl l' hl' he => ?_⟩
    cases List.mem_singleton.1 hl'
    have hlt := hmade l (h.known l hl)
    rw [he] at hlt
    exact Nat.lt_irrefl _ hlt
  fits items he := by cases he

end World

/-! ## Runs -/

namespace Scene

/-- A scene of a run, with the row of a queue and latches that nobody completes but by the use of the queue. -/
structure Lined (q : QueueId) (L : List DeferredId) (b : Books) (row : Queue) (s : Scene) : Prop where
  withheld : s.Withheld (some q) L b
  lined : s.moment.world.Lined q L row

section

variable {s s' : Scene} {q : QueueId} {L : List DeferredId} {b : Books} {row : Queue} {stroke : Stroke} {f : FiberId}
  {run : Run} {c : Call} {item : Value} {items buffer : List Value} {latch : DeferredId}

/-- A stroke that does not use the queue. -/
theorem Lined.spare (h : s.Lined q L b row) (huses : ∀ f run c, s.calls? stroke = some (f, run, c) → ¬ c.uses q) :
    s.moment.world.Bypasses q L (s.play stroke).moment.world ∧ (s.play stroke).Lined q L (s.book stroke b) row := by
  obtain ⟨hwithheld, hwithholds⟩ := h.withheld.play fun f run c hcalls q' hq' =>
    Option.some.inj hq' ▸ huses f run c hcalls
  have hpast : s.moment.world.Bypasses q L (s.play stroke).moment.world := by
    refine ⟨?_, hwithholds.size, hwithholds.polls⟩
    rcases hwithholds.queue q rfl with hsame | ⟨hnone, -⟩
    · exact hsame
    · cases hnone.symm.trans h.lined.found
  exact ⟨hpast, hwithheld, h.lined.aside hpast⟩

/-- A closure uses the queue and makes no latch. -/
theorem Lined.use (h : s.Lined q L b row) (hcalls : s.calls? stroke = some (f, run, c))
    (hbooks : b.record f c s.moment.world = b) {w' : World} {n : Next} {row' : Queue}
    (hcalled : s.moment.world.called c run = (⟨run, n⟩, w'))
    (hconfined : w'.Confined (s.moment.world.withholding (some q) L))
    (hsize : w'.stores.deferreds.size = s.moment.world.stores.deferreds.size)
    (hnext : n.In (s.moment.world.withholding (some q) L)) (hlined : w'.Lined q L row') :
    (s.play stroke).moment.world = w' ∧ (s.play stroke).Lined q L (s.book stroke b) row' := by
  have hsame : w'.withholding (some q) L = s.moment.world.withholding (some q) L := World.withholding_congr hsize
  obtain ⟨hworld, hwithheld⟩ := h.withheld.use L hcalls hbooks hcalled (hsame ▸ hconfined)
    (World.withholding_grows (Nat.le_of_eq hsize.symm) fun _ hl => Or.inl hl) hnext
    (fun l hl => hsize ▸ h.withheld.made l hl) fun _ hl => Or.inl hl
  exact ⟨hworld, hwithheld, hworld ▸ hlined⟩

/-- A closure brings an item to the queue, by a rule that respects the capacity and adds no other item. -/
theorem Lined.deliver {place : Overflow → List Value → Value → List Value} (h : s.Lined q L b row)
    (hcalls : s.calls? stroke = some (f, run, c)) (hbooks : b.record f c s.moment.world = b)
    (hcalled : s.moment.world.called c run = (⟨run, .value .null⟩, s.moment.world.deliver q item place))
    (hitem : item.In (s.moment.world.withholding (some q) L))
    (hplace : ∀ p items, ∀ v ∈ place p items item, v ∈ items ∨ v = item)
    (hfits : ∀ buffer, row.policy.Fits buffer → row.policy.Fits (place row.policy buffer item)) :
    (s.play stroke).moment.world = s.moment.world.deliver q item place ∧
      ∃ row', (s.play stroke).Lined q L (s.book stroke b) row' ∧ row'.policy = row.policy := by
  obtain ⟨row', hlined, hpolicy⟩ := h.lined.deliver item hfits
  obtain ⟨hworld, hnext⟩ := h.use hcalls hbooks hcalled
    (h.withheld.within.confined.deliver (fun _ => trivial) (fun hused => absurd rfl hused) hitem hplace)
    (World.size_deliver ..) Scope.nothing hlined
  exact ⟨hworld, row', hnext, hpolicy⟩

/-- An offer. -/
theorem Lined.offer (h : s.Lined q L b row) (hcalls : s.calls? stroke = some (f, run, .thunk (.perform (.offerItem q item)))) :
    (s.play stroke).moment.world = s.moment.world.offerItem q item ∧
      ∃ row', (s.play stroke).Lined q L (s.book stroke b) row' ∧ row'.policy = row.policy :=
  h.deliver hcalls rfl rfl (Operation.in_of_offerItem (h.withheld.in_of_calls? hcalls).1) (fun _ _ _ => World.mem_push)
    fun _ hfits => hfits.push item

theorem Lined.putBack (h : s.Lined q L b row)
    (hcalls : s.calls? stroke = some (f, run, .thunk (.perform (.putBackItem q item)))) :
    (s.play stroke).moment.world = s.moment.world.putBackItem q item ∧
      ∃ row', (s.play stroke).Lined q L (s.book stroke b) row' ∧ row'.policy = row.policy :=
  h.deliver hcalls rfl rfl (List.forall_mem_cons.1 (h.withheld.in_of_calls? hcalls).1).2 (fun _ _ _ => World.mem_restore)
    fun _ hfits => hfits.restore item

theorem Lined.abandon (h : s.Lined q L b row)
    (hcalls : s.calls? stroke = some (f, run, .thunk (.perform (.abandonItem q latch)))) :
    (s.play stroke).moment.world = s.moment.world.abandonItem q latch ∧
      ∃ row', (s.play stroke).Lined q L (s.book stroke b) row' ∧ row'.policy = row.policy := by
  obtain ⟨row', hlined, hpolicy⟩ := h.lined.abandon latch
  obtain ⟨hworld, hnext⟩ := h.use hcalls rfl (n := .value .null) rfl
    (h.withheld.within.confined.abandonItem (fun _ => trivial) (fun hused => absurd rfl hused) latch)
    (World.size_abandonItem ..) Scope.nothing hlined
  exact ⟨hworld, row', hnext, hpolicy⟩

/-- A take that finds an item. -/
theorem Lined.pop (h : s.Lined q L b row) (hcalls : s.calls? stroke = some (f, run, .thunk (.perform (.requestItem q))))
    (hstate : row.state = .ready (item :: items)) :
    (s.play stroke).moment.world = s.moment.world.setQueueState q (.ready items) ∧
      (s.play stroke).Lined q L (s.book stroke b) { row with state := .ready items } := by
  have hw := h.withheld.within.confined
  have hin := hw.stores.queues q.index row h.lined.found
  rw [hstate] at hin
  obtain ⟨hitem, hitems⟩ := List.forall_mem_cons.1 hin
  have hcalled : s.moment.world.called (.thunk (.perform (.requestItem q))) run =
      (⟨run, .value (s.moment.world.requestItem q).1⟩, (s.moment.world.requestItem q).2) := rfl
  rw [World.requestItem_of_next ((World.queueState?_of_row h.lined.found).trans (congrArg some hstate))] at hcalled
  exact h.use hcalls rfl hcalled (hw.setQueueState q (.ready _) hitems) rfl (Value.in_grantedItem trivial hitem)
    (h.lined.pop hstate)

/-- A take that finds no item. -/
theorem Lined.park (h : s.Lined q L b row) (hcalls : s.calls? stroke = some (f, run, .thunk (.perform (.requestItem q))))
    (hnone : s.moment.world.nextItem? q = none) :
    (s.play stroke).Lined q (L ++ [s.moment.world.makeDeferred.1]) (s.book stroke b)
      { row with state := .waiting (row.state.line ++ [s.moment.world.makeDeferred.1]) } := by
  have hcalled : s.moment.world.called (.thunk (.perform (.requestItem q))) run =
      (⟨run, .value (s.moment.world.requestItem q).1⟩, (s.moment.world.requestItem q).2) := rfl
  rw [World.requestItem_of_none (World.queueState?_of_row h.lined.found) hnone] at hcalled
  have hsize : s.moment.world.makeDeferred.2.stores.deferreds.size = s.moment.world.stores.deferreds.size + 1 :=
    Table.size_push _ _
  have hnew : ∀ l ∈ L ++ [s.moment.world.makeDeferred.1],
      l ∈ L ∨ s.moment.world.stores.deferreds.size ≤ l.index := fun l hl =>
    (List.mem_append.1 hl).imp_right fun hl =>
      Nat.le_of_eq (congrArg DeferredId.index (List.mem_singleton.1 hl)).symm
  have hmade : ∀ l ∈ L ++ [s.moment.world.makeDeferred.1],
      l.index < s.moment.world.makeDeferred.2.stores.deferreds.size := by
    intro l hl
    rw [hsize]
    rcases List.mem_append.1 hl with hold | hnew
    · exact Nat.lt_succ_of_lt (h.withheld.made l hold)
    · cases List.mem_singleton.1 hnew
      exact Nat.lt_succ_self _
  have hconfined := (h.withheld.within.confined.makeDeferred h.withheld.quiet hnew).setQueueState q
    (.waiting (row.state.line ++ [s.moment.world.makeDeferred.1])) fun hused => absurd rfl hused
  obtain ⟨hworld, hwithheld⟩ := h.withheld.use _ hcalls rfl hcalled hconfined
    (World.withholding_grows (Nat.le_of_lt (hsize ▸ Nat.lt_succ_self _)) hnew)
    (Value.in_awaitedItem trivial trivial) hmade hnew
  exact ⟨hwithheld, hworld ▸ h.lined.park h.withheld.made⟩

/-- **Every stroke keeps the row of a queue lined**, and the queue its policy. -/
theorem Lined.play (h : s.Lined q L b row) (stroke : Stroke) : ∃ L' row',
    (s.play stroke).Lined q L' (s.book stroke b) row' ∧ row'.policy = row.policy := by
  cases hcalls : s.calls? stroke with
  | none => exact ⟨L, row, (h.spare fun f run c hsome => nomatch hcalls.symm.trans hsome).2, rfl⟩
  | some call =>
    obtain ⟨f, run, c⟩ := call
    by_cases huses : c.uses q
    · rcases Call.cases_of_uses huses with rfl | ⟨item, rfl⟩ | ⟨item, rfl⟩ | ⟨latch, rfl⟩
      · cases hnext : s.moment.world.nextItem? q with
        | none => exact ⟨_, _, h.park hcalls hnext, rfl⟩
        | some item =>
          obtain ⟨items, hstate⟩ := World.state_of_nextItem? h.lined.found hnext
          exact ⟨_, _, (h.pop hcalls hstate).2, rfl⟩
      · obtain ⟨-, row', hrest⟩ := h.offer hcalls
        exact ⟨L, row', hrest⟩
      · obtain ⟨-, row', hrest⟩ := h.putBack hcalls
        exact ⟨L, row', hrest⟩
      · obtain ⟨-, row', hrest⟩ := h.abandon hcalls
        exact ⟨L, row', hrest⟩
    · refine ⟨L, row, (h.spare fun f' run' c' hsome => ?_).2, rfl⟩
      cases hcalls.symm.trans hsome
      exact huses

end

end Scene

section

variable {s s' : Scene} {q : QueueId} {L : List DeferredId} {b : Books} {row : Queue} {stroke : Stroke} {f : FiberId}
  {run : Run} {item : Value} {items buffer : List Value} {latch : DeferredId}

/-- **The row of every queue is lined in every run.** -/
theorem Recorded.lined (h : Recorded b s) (hrow : s.moment.world.queue? q = some row) : ∃ L, s.Lined q L b row := by
  induction h generalizing row with
  | initial config definitions => cases hrow
  | @play b s h stroke ih =>
    cases hold : s.moment.world.queue? q with
    | some old =>
      obtain ⟨L, hlined⟩ := ih hold
      obtain ⟨L', row', hlined', -⟩ := hlined.play stroke
      cases hrow.symm.trans hlined'.lined.found
      exact ⟨L', hlined'⟩
    | none =>
      obtain ⟨hwithheld, hstate⟩ := h.withheld_made hold hrow
      exact ⟨[], hwithheld, hrow, hstate ▸ nofun, hstate ▸ nofun, hstate ▸ .nil, fun items hitems => by
        cases hstate.symm.trans hitems
        exact row.policy.fits_nil⟩

theorem Scene.Occurs.lined (h : s.Occurs) (hrow : s.moment.world.queue? q = some row) : ∃ L b, s.Lined q L b row := by
  obtain ⟨b, hrecorded⟩ := h.recorded
  obtain ⟨L, hlined⟩ := hrecorded.lined hrow
  exact ⟨L, b, hlined⟩

/-! ## Takes that are undone -/

namespace Scene

/-- Strokes among which a queue is offered items, in their order, and is not used otherwise. -/
inductive Feeds (q : QueueId) (s : Scene) : List Value → Scene → Prop where
  | none : Feeds q s [] s
  | offer {items : List Value} {s' : Scene} (h : Feeds q s items s') {stroke : Stroke} {f : FiberId} {run : Run}
      {item : Value} (hcalls : s'.calls? stroke = some (f, run, .thunk (.perform (.offerItem q item)))) :
      Feeds q s (items ++ [item]) (s'.play stroke)
  | aside {items : List Value} {s' : Scene} (h : Feeds q s items s') (stroke : Stroke)
      (huses : ∀ f run c, s'.calls? stroke = some (f, run, c) → ¬ c.uses q) : Feeds q s items (s'.play stroke)

/-- Among offers, other strokes leave the queue and the latches in its line alone. -/
theorem Feeds.offered (h : s.Feeds q items s') (hlined : s.Lined q L b row) :
    s.moment.world.Offered q L items s'.moment.world ∧ ∃ b' row', s'.Lined q L b' row' ∧ row'.policy = row.policy := by
  induction h with
  | none => exact ⟨.none, b, row, hlined, rfl⟩
  | @offer items s' h stroke f run item hcalls ih =>
    obtain ⟨hoffered, b', row', hlined', hpolicy⟩ := ih
    obtain ⟨hworld, row'', hlined'', hpolicy'⟩ := hlined'.offer hcalls
    exact ⟨hworld ▸ hoffered.offer item, _, row'', hlined'', hpolicy'.trans hpolicy⟩
  | @aside items s' h stroke huses ih =>
    obtain ⟨hoffered, b', row', hlined', hpolicy⟩ := ih
    obtain ⟨hpast, hlined''⟩ := hlined'.spare huses
    exact ⟨hoffered.aside hpast, _, row', hlined'', hpolicy⟩

/-- Takes that are undone leave no trace. -/
structure Undoes (q : QueueId) (s : Scene) : Prop where
  /-- A take finds an item, which is put back after some offers. -/
  popped : ∀ row item buffer, s.moment.world.queue? q = some row → row.state = .ready (item :: buffer) →
    ∀ stroke f run, s.calls? stroke = some (f, run, .thunk (.perform (.requestItem q))) →
      ∀ items s', (s.play stroke).Feeds q items s' →
        ∀ stroke' f' run', s'.calls? stroke' = some (f', run', .thunk (.perform (.putBackItem q item))) →
          (s'.play stroke').moment.world.queue? q =
            some { row with state := .ready (row.policy.pushAll (item :: buffer) items) }
  /-- Somebody is alone in the line, and gives up after some offers. -/
  abandoned : ∀ row latch, s.moment.world.queue? q = some row → row.state = .waiting [latch] →
    ∀ items s', s.Feeds q items s' →
      ∀ stroke f run, s'.calls? stroke = some (f, run, .thunk (.perform (.abandonItem q latch))) →
        (s'.play stroke).moment.world.queue? q = some { row with state := .ready (row.policy.pushAll [] items) }

/-- **Takes that are undone leave no trace in any run.** -/
theorem Occurs.undoes (h : s.Occurs) (q : QueueId) : s.Undoes q where
  popped row item buffer hrow hstate stroke f run hcalls items s' hfeeds stroke' f' run' hcalls' := by
    obtain ⟨L, b, hlined⟩ := h.lined hrow
    obtain ⟨-, hpopped⟩ := hlined.pop hcalls hstate
    obtain ⟨hoffered, b', row', hlined', -⟩ := hfeeds.offered hpopped
    rw [(hlined'.putBack hcalls').1]
    exact hoffered.putBack hpopped.lined.found (hlined.lined.fits _ hstate)
  abandoned row latch hrow hstate items s' hfeeds stroke f run hcalls := by
    obtain ⟨L, b, hlined⟩ := h.lined hrow
    obtain ⟨hoffered, b', row', hlined', -⟩ := hfeeds.offered hlined
    have hline : latch ∈ row.state.line := by
      rw [hstate]
      exact List.mem_singleton_self latch
    have hknown := hlined.lined.known latch hline
    have hlingers := hoffered.lingers hknown hstate
      ⟨hrow, hlined.withheld.made latch hknown, hlined.lined.opened latch hline⟩
    rw [(hlined'.abandon hcalls).1]
    exact hlingers.abandon hstate

end Scene

end

end FiberLoop
