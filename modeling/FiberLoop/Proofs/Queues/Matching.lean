import FiberLoop.Proofs.Deferreds.Delivery
import FiberLoop.Proofs.Queues.Tallies

/-!
# Tickets and items

The k-th ticket of a queue that keeps every item goes with the k-th item, as long as no ticket is undone: it was
granted with that item, or its latch is completed with it as soon as it is there. `Matched` is the invariant, and
`Tallied.matched` says that it holds in every run.
-/

namespace FiberLoop

/-- The latches in the line of a queue. -/
def QueueState.line : QueueState → List DeferredId
  | .waiting latches => latches
  | .ready _ => []

theorem Overflow.push_of_isLossless {p : Overflow} (h : p.isLossless = true) {α : Type} (items : List α) (item : α) :
    p.push items item = items ++ [item] := by
  cases p with
  | unbounded | bounded n => rfl
  | sliding n | dropping n => cases h

theorem Tally.line_state (t : Tally) :
    t.state.line = (t.tickets.drop t.items.length).filterMap ItemTicket.latch? := by
  unfold state
  split
  · rename_i hle
    rw [List.drop_eq_nil_of_le hle]
    rfl
  · rfl

namespace World

variable {w : World} {q : QueueId} {row : Queue} {d d' : DeferredId} {x : Exit Value Value} {item : Value}

/-! ## What the operations on a queue come down to -/

theorem queue?_setQueueState_self (h : w.queue? q = some row) (state : QueueState) :
    (w.setQueueState q state).queue? q = some { row with state := state } := by
  refine (Table.get?_modify ..).trans ((if_pos rfl).trans ?_)
  exact congrArg (Option.map fun row => { row with state := state }) h

theorem queueState?_of_row (h : w.queue? q = some row) : w.queueState? q = some row.state := congrArg (Option.map Queue.state) h

theorem requestItem_of_next {items : List Value} (h : w.queueState? q = some (.ready (item :: items))) :
    w.requestItem q = (Effect.grantedTicket item (.perform (.putBackItem q item)), w.setQueueState q (.ready items)) := by
  rw [requestItem, h]

theorem joinQueue_of_state {state : QueueState} (h : w.queueState? q = some state) :
    w.joinQueue q =
      (w.makeDeferred.1, w.makeDeferred.2.setQueueState q (.waiting (state.line ++ [w.makeDeferred.1]))) := by
  have hmake : w.makeDeferred.2.queueState? q = some state := h
  unfold joinQueue
  dsimp only
  rw [hmake]
  cases state <;> rfl

theorem requestItem_of_none {state : QueueState} (h : w.queueState? q = some state) (hnone : w.nextItem? q = none) :
    w.requestItem q = (.ticket (.awaitDeferred w.makeDeferred.1) (.perform (.abandonItem q w.makeDeferred.1)),
      w.makeDeferred.2.setQueueState q (.waiting (state.line ++ [w.makeDeferred.1]))) := by
  have hjoin := joinQueue_of_state h
  unfold requestItem
  split
  · rename_i item items hready
    rw [nextItem?, hready] at hnone
    cases hnone
  · dsimp only
    rw [hjoin]

theorem offerItem_of_waiting {latch : DeferredId} {rest : List DeferredId} (h : w.queue? q = some row)
    (hstate : row.state = .waiting (latch :: rest)) (item : Value) :
    w.offerItem q item = (w.completeDeferred latch (.value item)).2.setQueueState q (.ofLine rest) := by
  rw [offerItem, deliver, h]
  dsimp only
  rw [hstate]

theorem offerItem_of_ready {items : List Value} (h : w.queue? q = some row) (hstate : row.state = .ready items)
    (hlossless : row.policy.isLossless = true) (item : Value) :
    w.offerItem q item = w.setQueueState q (.ready (items ++ [item])) := by
  rw [offerItem, deliver, h]
  dsimp only
  rw [hstate]
  dsimp only
  rw [Overflow.push_of_isLossless hlossless]

/-- A queue that is not there does not come about by its use. -/
theorem queue?_called_of_uses (h : w.queue? q = none) {c : Call} (huses : c.uses q) (run : Run) :
    (w.called c run).2.queue? q = none := by
  have hdeliver (item : Value) (place : Overflow → List Value → Value → List Value) : w.deliver q item place = w := by
    rw [deliver, h]
  have hstate : w.queueState? q = none := congrArg (Option.map Queue.state) h
  rcases huses with hqueue | rfl
  · cases c with
    | thunk thunk =>
      cases thunk with
      | perform o =>
        cases o with
        | offerItem q' item =>
          cases hqueue
          exact (congrArg (World.queue? · q) (hdeliver item _)).trans h
        | putBackItem q' item =>
          cases hqueue
          exact (congrArg (World.queue? · q) (hdeliver item _)).trans h
        | abandonItem q' latch =>
          cases hqueue
          have hsame : w.abandonItem q latch = w := by
            have hreclaim : w.reclaimItem q latch = w := by
              unfold reclaimItem
              split
              · exact hdeliver _ _
              · rfl
            rw [abandonItem, hstate]
            exact hreclaim
          exact (congrArg (World.queue? · q) hsame).trans h
        | _ => cases hqueue
      | _ => cases hqueue
    | _ => cases hqueue
  · have hmake : w.makeDeferred.2.queueState? q = none := hstate
    have hsame : (w.requestItem q).2 = w.makeDeferred.2 := by
      unfold requestItem joinQueue
      rw [hstate]
      dsimp only
      rw [hmake]
    exact (congrArg (World.queue? · q) hsame).trans h

/-! ## What completing a latch does -/

theorem pollDeferred_completeDeferred_self {waiters : List (Nat × Callback)} {key : Nat}
    (h : w.deferred? d = some (.pending waiters key)) (x : Exit Value Value) :
    (w.completeDeferred d x).2.pollDeferred d = some x := by
  rw [completeDeferred_of_pending h, pollDeferred_eq_some, deferred?_settleAll]
  exact deferred?_setDeferred_self h

theorem pollDeferred_completeDeferred_of_ne (h : d' ≠ d) (x : Exit Value Value) (w : World) :
    (w.completeDeferred d x).2.pollDeferred d' = w.pollDeferred d' := by
  unfold completeDeferred
  split
  · rename_i waiters key hrow
    have hsame : (((w.setDeferred d (.done x)).settleAll waiters x)).deferred? d' = w.deferred? d' :=
      (deferred?_settleAll waiters x _ d').trans (deferred?_setDeferred_of_ne h)
    exact congrArg (Option.bind · Deferred.exit?) hsame
  · rfl

/-- A deferred that is there and has no exit is pending. -/
theorem pending_of_pollDeferred_none (h : w.pollDeferred d = none) (hd : d.index < w.stores.deferreds.size) :
    ∃ waiters key, w.deferred? d = some (.pending waiters key) := by
  obtain ⟨row, hrow⟩ := Option.isSome_iff_exists.1 ((Table.isSome_get?_iff _ _).2 hd)
  have hrow' : w.deferred? d = some row := hrow
  cases row with
  | pending waiters key => exact ⟨waiters, key, hrow'⟩
  | done x =>
    rw [pollDeferred_eq_some.2 hrow'] at h
    cases h

theorem stores_settleAll (waiters : List (Nat × Callback)) (x : Exit Value Value) (w : World) :
    (w.settleAll waiters x).stores = w.stores := by
  induction waiters generalizing w with
  | nil => rfl
  | cons waiter rest ih => exact (ih _).trans (stores_settle w waiter.2 x)

theorem queue?_completeDeferred (d : DeferredId) (x : Exit Value Value) (w : World) (q : QueueId) :
    (w.completeDeferred d x).2.queue? q = w.queue? q := by
  unfold completeDeferred
  split
  · rename_i waiters key hrow
    have hsame : ((w.setDeferred d (.done x)).settleAll waiters x).queue? q = w.queue? q := by
      rw [queue?, stores_settleAll]
      rfl
    exact hsame
  · rfl

theorem size_completeDeferred (d : DeferredId) (x : Exit Value Value) (w : World) :
    (w.completeDeferred d x).2.stores.deferreds.size = w.stores.deferreds.size := by
  unfold completeDeferred
  split
  · rename_i waiters key hrow
    have hsame : ((w.setDeferred d (.done x)).settleAll waiters x).stores.deferreds.size = w.stores.deferreds.size := by
      rw [stores_settleAll]
      exact Table.size_set _ _ _
    exact hsame
  · rfl

/-- A deferred is completed that may be waited for; whether anybody may complete it does not matter. -/
theorem Confined.completeDeferred {V : Scope} (hw : w.Confined V) (hd : V.mentions (.wait d)) (hx : Value.ExitIn V x) :
    (w.completeDeferred d x).2.Confined V := by
  unfold World.completeDeferred
  split
  · rename_i waiters key hrow
    have hset : (w.setDeferred d (.done x)).Confined V := hw.withStores ⟨hw.stores.cells,
      Table.forall_set hw.stores.deferreds fun _ => hx, hw.stores.queues, hw.stores.races, hw.stores.pairings, hw.stores.gates⟩
    exact (hset.settleAll (hw.stores.deferreds d.index _ hrow hd) hx).1
  · exact hw

end World

namespace Scene

variable {s : Scene} {q? : Option QueueId} {L L' : List DeferredId} {b : Books} {f : FiberId} {c : Call} {run : Run}
  {stroke : Stroke}

/-- What a closure mentions that is called, and the run in which the fiber goes on. -/
theorem Withheld.in_of_calls? (h : s.Withheld q? L b) (hcalls : s.calls? stroke = some (f, run, c)) :
    c.In (s.moment.world.withholding q? L) ∧ run.In (s.moment.world.withholding q? L) := by
  obtain ⟨-, left, stand, hstand, hdeed, -⟩ := of_calls? hcalls
  have hactivity := h.within.activity
  rw [hstand] at hactivity
  obtain ⟨hrun, hnext⟩ := hactivity trivial
  exact Stand.in_of_call hrun hnext hdeed

/-- The queue is used, and more latches may be withheld then. -/
theorem Withheld.use (h : s.Withheld q? L b) (L' : List DeferredId) (hcalls : s.calls? stroke = some (f, run, c))
    (hbooks : b.record f c s.moment.world = b) {w' : World} {next : Next}
    (hcalled : s.moment.world.called c run = (⟨run, next⟩, w')) (hconfined : w'.Confined (w'.withholding q? L'))
    (hgrows : (s.moment.world.withholding q? L).Grows (w'.withholding q? L'))
    (hnext : next.In (s.moment.world.withholding q? L)) (hmade : ∀ l ∈ L', l.index < w'.stores.deferreds.size)
    (hnew : ∀ l ∈ L', l ∈ L ∨ s.moment.world.stores.deferreds.size ≤ l.index) :
    (s.play stroke).moment.world = w' ∧ (s.play stroke).Withheld q? L' (s.book stroke b) := by
  obtain ⟨left, hmoment, hkept⟩ := moment_of_calls? hcalls
  obtain ⟨-, hrun⟩ := h.in_of_calls? hcalls
  rw [hcalled] at hmoment
  have hworld : (s.play stroke).moment.world = w' := congrArg Moment.world hmoment
  refine ⟨hworld, h.recorded.play stroke, ⟨hworld ▸ hconfined, ?_⟩, ?_, hworld ▸ hmade, fun l hl hl' => ?_⟩
  · rw [hmoment]
    exact fun _ => ⟨fun d hd => hgrows.mentions d (hrun d hd), fun d hd => hgrows.mentions d (hnext d hd)⟩
  · rw [hkept, hworld]
    exact fun e he d hd => hgrows.mentions d (h.kept e he d hd)
  · rw [book_of_calls? b hcalls, hbooks] at hl'
    rcases hnew l hl with hold | hfresh
    · exact h.apart l hold hl'
    · obtain ⟨σ, horderly⟩ := h.recorded.orderly
      exact Nat.lt_irrefl _ (Nat.lt_of_lt_of_le (horderly.books.latches l hl') hfresh)

end Scene

/-! ## The invariant -/

/-- Tickets and items match: the queue is what its tally says, and the latch of a ticket is completed with the item
that goes with it, once that is there. -/
structure Matched (q : QueueId) (p : Overflow) (t : Tally) (b : Books) (s : Scene) : Prop where
  withheld : s.Withheld (some q) t.latches b
  row : ∃ row, s.moment.world.queue? q = some row ∧ row.policy = p ∧ row.state = t.state
  granted : t.Granted
  distinct : t.latches.Nodup
  latched : t.Latched fun l => s.moment.world.pollDeferred l

namespace Matched

variable {q : QueueId} {p : Overflow} {t : Tally} {b : Books} {s : Scene} {stroke : Stroke} {f : FiberId} {run : Run}
  {item : Value}

/-- A stroke that does not use the queue. -/
theorem spare (h : Matched q p t b s) (huses : ∀ f run c, s.calls? stroke = some (f, run, c) → ¬ c.uses q) :
    Matched q p t (s.book stroke b) (s.play stroke) := by
  obtain ⟨hwithheld, hwithholds⟩ := h.withheld.play fun f run c hcalls q' hq' => Option.some.inj hq' ▸ huses f run c hcalls
  refine ⟨hwithheld, ?_, h.granted, h.distinct, fun k ticket l hk hl => ?_⟩
  · obtain ⟨row, hrow, hrest⟩ := h.row
    rcases hwithholds.queue q rfl with hsame | ⟨hnone, -⟩
    · exact ⟨row, hsame.trans hrow, hrest⟩
    · cases hnone.symm.trans hrow
  · exact (hwithholds.polls l (Tally.mem_latches hk hl)).trans (h.latched k ticket l hk hl)

/-- What a ticket is taken for that finds an item. -/
theorem tally_of_next (hcalls : s.calls? stroke = some (f, run, .thunk (.perform (.requestItem q))))
    (hnext : s.moment.world.nextItem? q = some item) :
    s.tally q stroke t = t.take { fiber := f, run := run, latch? := none } := by
  simp only [Scene.tally, hcalls, Tally.record, if_true, World.newLatch?, hnext, Option.isSome_some]

/-- A ticket is taken that finds no item. -/
theorem tally_of_none (hcalls : s.calls? stroke = some (f, run, .thunk (.perform (.requestItem q))))
    (hnext : s.moment.world.nextItem? q = none) :
    s.tally q stroke t = t.take { fiber := f, run := run, latch? := some s.moment.world.makeDeferred.1 } := by
  simp only [Scene.tally, hcalls, Tally.record, if_true, World.newLatch?, hnext, Option.isSome_none,
    Bool.false_eq_true, if_false]
  rfl

theorem tally_of_offer (hcalls : s.calls? stroke = some (f, run, .thunk (.perform (.offerItem q item)))) :
    s.tally q stroke t = t.place item := by
  simp only [Scene.tally, hcalls, Tally.record, if_true]

/-- A ticket is taken while an item is there. -/
theorem take_of_lt (h : Matched q p t b s) (hcalls : s.calls? stroke = some (f, run, .thunk (.perform (.requestItem q))))
    (hlt : t.tickets.length < t.items.length) :
    Matched q p (s.tally q stroke t) (s.book stroke b) (s.play stroke) := by
  obtain ⟨row, hrow, hpolicy, hstate⟩ := h.row
  have hw := h.withheld.within.confined
  have hready := hstate.trans (Tally.state_of_lt hlt)
  have hstate? := (World.queueState?_of_row hrow).trans (congrArg some hready)
  have hnext : s.moment.world.nextItem? q = some t.items[t.tickets.length] := by rw [World.nextItem?, hstate?]
  have hcalled : s.moment.world.called (.thunk (.perform (.requestItem q))) run =
      (⟨run, .value (s.moment.world.requestItem q).1⟩, (s.moment.world.requestItem q).2) := rfl
  rw [World.requestItem_of_next hstate?] at hcalled
  have hin := hw.stores.queues q.index row hrow
  rw [hready] at hin
  obtain ⟨hitem, hitems⟩ := List.forall_mem_cons.1 hin
  obtain ⟨hworld, hwithheld⟩ := h.withheld.use t.latches hcalls rfl hcalled
    (hw.setQueueState q (.ready _) hitems) (World.withholding_grows (Nat.le_refl _) fun _ hl => Or.inl hl)
    (Value.in_grantedItem trivial hitem) h.withheld.made fun _ hl => Or.inl hl
  have hlatches : (t.take { fiber := f, run := run, latch? := none }).latches = t.latches :=
    (Tally.latches_take ..).trans (List.append_nil _)
  rw [tally_of_next hcalls hnext]
  refine ⟨hlatches.symm ▸ hwithheld, ?_, h.granted.take fun _ => hlt, hlatches.symm ▸ h.distinct,
    h.latched.take (fun l _ => by rw [hworld]; rfl) (by rintro l ⟨⟩)⟩
  rw [hworld, Tally.state_take_of_lt hlt]
  exact ⟨_, World.queue?_setQueueState_self hrow _, hpolicy, rfl⟩

/-- A ticket is taken while no item is there. -/
theorem take_of_ge (h : Matched q p t b s) (hcalls : s.calls? stroke = some (f, run, .thunk (.perform (.requestItem q))))
    (hge : t.items.length ≤ t.tickets.length) :
    Matched q p (s.tally q stroke t) (s.book stroke b) (s.play stroke) := by
  obtain ⟨row, hrow, hpolicy, hstate⟩ := h.row
  have hw := h.withheld.within.confined
  have hstate? := (World.queueState?_of_row hrow).trans (congrArg some hstate)
  have hnext : s.moment.world.nextItem? q = none := by
    rw [World.nextItem?, hstate?]
    rcases Nat.eq_or_lt_of_le hge with heq | hlt
    · rw [Tally.state, if_pos (Nat.le_of_eq heq.symm), List.drop_eq_nil_of_le (Nat.le_of_eq heq)]
    · rw [Tally.state, if_neg (Nat.not_le_of_lt hlt)]
  have hcalled : s.moment.world.called (.thunk (.perform (.requestItem q))) run =
      (⟨run, .value (s.moment.world.requestItem q).1⟩, (s.moment.world.requestItem q).2) := rfl
  rw [World.requestItem_of_none hstate? hnext] at hcalled
  have hsize : s.moment.world.makeDeferred.2.stores.deferreds.size = s.moment.world.stores.deferreds.size + 1 :=
    Table.size_push _ _
  have hlatches := Tally.latches_take { fiber := f, run := run, latch? := some s.moment.world.makeDeferred.1 } t
  have hmem : ∀ l ∈ (t.take { fiber := f, run := run, latch? := some s.moment.world.makeDeferred.1 }).latches,
      l ∈ t.latches ∨ l = s.moment.world.makeDeferred.1 := by
    intro l hl
    rw [hlatches] at hl
    exact (List.mem_append.1 hl).imp_right List.mem_singleton.1
  have hnew := fun l hl => (hmem l hl).imp_right fun he => Nat.le_of_eq (congrArg DeferredId.index he).symm
  have hbound : ∀ l ∈ (t.take { fiber := f, run := run, latch? := some s.moment.world.makeDeferred.1 }).latches,
      l.index < s.moment.world.makeDeferred.2.stores.deferreds.size := by
    intro l hl
    rw [hsize]
    rcases hmem l hl with hold | rfl
    · exact Nat.lt_succ_of_lt (h.withheld.made l hold)
    · exact Nat.lt_succ_self _
  have hgrows : (s.moment.world.withholding (some q) t.latches).Grows
      (s.moment.world.makeDeferred.2.withholding (some q)
        (t.take { fiber := f, run := run, latch? := some s.moment.world.makeDeferred.1 }).latches) :=
    World.withholding_grows
    (Nat.le_of_lt (hsize ▸ Nat.lt_succ_self _)) hnew
  have hmade := (hw.makeDeferred h.withheld.quiet hnew).setQueueState q
    (.waiting (t.state.line ++ [s.moment.world.makeDeferred.1])) fun hused => absurd rfl hused
  obtain ⟨hworld, hwithheld⟩ := h.withheld.use _ hcalls rfl hcalled hmade hgrows
    (Value.in_awaitedItem trivial trivial) hbound hnew
  rw [tally_of_none hcalls hnext]
  refine ⟨hwithheld, ?_, h.granted.take (by rintro ⟨⟩), ?_, h.latched.take (fun l hl => ?_) fun l hl => ⟨hge, ?_⟩⟩
  · rw [hworld, Tally.state_take_of_ge hge rfl, ← Tally.line_state]
    exact ⟨_, World.queue?_setQueueState_self hrow _, hpolicy, rfl⟩
  · rw [hlatches, List.nodup_append]
    refine ⟨h.distinct, List.pairwise_singleton .., fun l hl l' hl' he => ?_⟩
    have hlt := h.withheld.made l hl
    rw [he, List.mem_singleton.1 hl'] at hlt
    exact Nat.lt_irrefl _ hlt
  · rw [hworld]
    exact congrArg (Option.bind · Deferred.exit?)
      ((Table.get?_push ..).trans (if_neg (Nat.ne_of_lt (h.withheld.made l hl))))
  · cases hl
    rw [hworld]
    exact congrArg (Option.bind · Deferred.exit?) ((Table.get?_push ..).trans (if_pos rfl))

/-- An item is placed while nobody waits. -/
theorem place_of_le (h : Matched q p t b s) (hp : p.isLossless = true)
    (hcalls : s.calls? stroke = some (f, run, .thunk (.perform (.offerItem q item))))
    (hle : t.tickets.length ≤ t.items.length) :
    Matched q p (s.tally q stroke t) (s.book stroke b) (s.play stroke) := by
  obtain ⟨row, hrow, rfl, hstate⟩ := h.row
  have hw := h.withheld.within.confined
  have hready : row.state = .ready (t.items.drop t.tickets.length) := hstate.trans (if_pos hle)
  have hcalled : s.moment.world.called (.thunk (.perform (.offerItem q item))) run =
      (⟨run, .value .null⟩, s.moment.world.offerItem q item) := rfl
  rw [World.offerItem_of_ready hrow hready hp] at hcalled
  have hin := hw.stores.queues q.index row hrow
  rw [hready] at hin
  have hitem : item.In (s.moment.world.withholding (some q) t.latches) :=
    Operation.in_of_offerItem (h.withheld.in_of_calls? hcalls).1
  obtain ⟨hworld, hwithheld⟩ := h.withheld.use t.latches hcalls rfl hcalled
    (hw.setQueueState q (.ready _) (List.forall_mem_append.2 ⟨hin, List.forall_mem_singleton.2 hitem⟩))
    (World.withholding_grows (Nat.le_refl _) fun _ hl => Or.inl hl) Scope.nothing h.withheld.made fun _ hl => Or.inl hl
  rw [tally_of_offer hcalls]
  have hlatched : t.Latched fun l => (s.play stroke).moment.world.pollDeferred l := by
    rw [hworld]
    exact h.latched
  refine ⟨hwithheld, ?_, h.granted.place item, h.distinct, hlatched.place_of_le hle item⟩
  rw [hworld, Tally.state_place_of_le hle]
  exact ⟨_, World.queue?_setQueueState_self hrow _, rfl, rfl⟩

/-- An item is placed while somebody waits. -/
theorem place_of_gt (h : Matched q p t b s)
    (hcalls : s.calls? stroke = some (f, run, .thunk (.perform (.offerItem q item))))
    (hlt : t.items.length < t.tickets.length) :
    Matched q p (s.tally q stroke t) (s.book stroke b) (s.play stroke) := by
  obtain ⟨row, hrow, hpolicy, hstate⟩ := h.row
  have hw := h.withheld.within.confined
  obtain ⟨latch, hlatch, hline⟩ := Tally.state_of_gt h.granted hlt
  have hcalled : s.moment.world.called (.thunk (.perform (.offerItem q item))) run =
      (⟨run, .value .null⟩, s.moment.world.offerItem q item) := rfl
  rw [World.offerItem_of_waiting hrow (hstate.trans hline)] at hcalled
  have hitem : item.In (s.moment.world.withholding (some q) t.latches) :=
    Operation.in_of_offerItem (h.withheld.in_of_calls? hcalls).1
  have hsize := World.size_completeDeferred latch (.value item) s.moment.world
  have hcomplete : (s.moment.world.completeDeferred latch (.value item)).2.Confined
      (s.moment.world.withholding (some q) t.latches) := hw.completeDeferred trivial hitem
  have hset := hcomplete.setQueueState q
    (.ofLine ((t.tickets.drop (t.items.length + 1)).filterMap ItemTicket.latch?))
    (World.QueueState.in_ofLine fun hused => absurd rfl hused)
  have hsame : (s.moment.world.completeDeferred latch (.value item)).2.withholding (some q) t.latches =
      s.moment.world.withholding (some q) t.latches := World.withholding_congr hsize
  obtain ⟨hworld, hwithheld⟩ := h.withheld.use t.latches hcalls rfl hcalled
    (hsame ▸ hset)
    (World.withholding_grows (Nat.le_of_eq hsize.symm) fun _ hl => Or.inl hl) Scope.nothing
    (fun l hl => Nat.lt_of_lt_of_eq (h.withheld.made l hl) hsize.symm) fun _ hl => Or.inl hl
  -- The latch is pending, since the item that goes with it was not there.
  have hticket := List.getElem?_eq_getElem hlt
  have hopen := h.latched _ _ latch hticket hlatch
  rw [List.getElem?_eq_none (Nat.le_refl _)] at hopen
  obtain ⟨waiters, key, hpending⟩ :=
    World.pending_of_pollDeferred_none hopen (h.withheld.made latch (Tally.mem_latches hticket hlatch))
  rw [tally_of_offer hcalls]
  refine ⟨hwithheld, ?_, h.granted.place item, h.distinct, h.latched.place_of_gt h.distinct hlt hlatch item ?_ ?_⟩
  · rw [hworld, Tally.state_place_of_gt h.granted hlt]
    exact ⟨_, World.queue?_setQueueState_self ((World.queue?_completeDeferred ..).trans hrow) _, hpolicy, rfl⟩
  · rw [hworld]
    exact World.pollDeferred_completeDeferred_self hpending _
  · intro l hl
    rw [hworld]
    exact World.pollDeferred_completeDeferred_of_ne hl _ _

/-- **Every stroke that undoes no ticket keeps tickets and items matched.** -/
theorem play (h : Matched q p t b s) (hp : p.isLossless = true) (stroke : Stroke)
    (hundone : (s.tally q stroke t).undone = false) :
    Matched q p (s.tally q stroke t) (s.book stroke b) (s.play stroke) := by
  cases hcalls : s.calls? stroke with
  | none =>
    have htally : s.tally q stroke t = t := by simp only [Scene.tally, hcalls]
    rw [htally]
    exact h.spare fun f run c hsome => nomatch hcalls.symm.trans hsome
  | some call =>
    obtain ⟨f, run, c⟩ := call
    have htally : s.tally q stroke t = t.record q f run c s.moment.world := by simp only [Scene.tally, hcalls]
    by_cases huses : c.uses q
    · rw [htally] at hundone
      rcases Tally.cases_of_uses huses hundone with rfl | ⟨item, rfl⟩
      · rcases Nat.lt_or_ge t.tickets.length t.items.length with hlt | hge
        · exact h.take_of_lt hcalls hlt
        · exact h.take_of_ge hcalls hge
      · rcases Nat.lt_or_ge t.items.length t.tickets.length with hlt | hge
        · exact h.place_of_gt hcalls hlt
        · exact h.place_of_le hp hcalls hge
    · rw [htally, Tally.record_of_not_uses huses]
      refine h.spare fun f' run' c' hsome => ?_
      cases hcalls.symm.trans hsome
      exact huses

end Matched

/-! ## Runs -/

/-- Nothing is withheld from anybody in a run. -/
theorem Recorded.withheld_nothing {b : Books} {s : Scene} (h : Recorded b s) : s.Withheld none [] b := by
  induction h with
  | initial config definitions =>
    refine ⟨.initial config definitions, ⟨?_, trivial⟩, nofun, nofun, nofun⟩
    exact {
      loop := ⟨nofun, nofun⟩
      aside := ⟨nofun, nofun⟩
      fibers := fun _ _ hr => nomatch hr
      notices := fun _ _ hnotice => nomatch hnotice
      hidden := fun _ hf => absurd trivial hf
      stale := fun _ _ _ _ hf => absurd trivial hf
      stores := ⟨nofun, nofun, nofun, nofun, nofun, fun _ _ => trivial⟩
      session := ⟨nofun, nofun, nofun⟩ }
  | play _ stroke ih => exact (ih.play (by rintro _ _ _ _ _ ⟨⟩)).1

/-- A queue of which no latch is withheld may be left unused. -/
theorem Scene.Withheld.reserve {b : Books} {s : Scene} (h : s.Withheld none [] b) (q : QueueId) :
    s.Withheld (some q) [] b := by
  have hgrows : (s.moment.world.withholding none []).Grows (s.moment.world.withholding (some q) []) := by
    refine ⟨fun d hd => ?_, fun _ _ => (by rintro ⟨⟩), fun _ => id, fun _ => id, fun _ => id, id⟩
    cases d with
    | deferred d => exact hd
    | _ => trivial
  refine ⟨h.recorded, ⟨h.within.confined.mono hgrows h.quiet (fun _ _ => Or.inl trivial)
    (fun _ _ _ _ => Or.inl trivial) (fun _ hf => absurd trivial hf) (fun _ _ _ _ hf => absurd trivial hf)
    fun _ _ => Or.inl trivial,
    h.within.activity.mono hgrows fun f _ hf => hf⟩, fun e he d hd => hgrows.mentions d (h.kept e he d hd), h.made,
    h.apart⟩

/-- A queue that is made is empty, and no latch of it is known to anybody. -/
theorem Recorded.withheld_made {b : Books} {s : Scene} (h : Recorded b s) {stroke : Stroke} {q : QueueId} {row : Queue}
    (hnone : s.moment.world.queue? q = none) (hrow : (s.play stroke).moment.world.queue? q = some row) :
    (s.play stroke).Withheld (some q) [] (s.book stroke b) ∧ row.state = .ready [] := by
  obtain ⟨hwithheld, hwithholds⟩ := (h.withheld_nothing.reserve q).play (by
    rintro f run c hcalls q' hq' huses
    cases hq'
    obtain ⟨left, hmoment, -⟩ := Scene.moment_of_calls? hcalls
    rw [hmoment, World.queue?_called_of_uses hnone huses run] at hrow
    cases hrow)
  refine ⟨hwithheld, ?_⟩
  rcases hwithholds.queue q rfl with hsame | ⟨-, policy, gate, hnew⟩
  · cases hrow.symm.trans (hsame.trans hnone)
  · cases hrow.symm.trans hnew
    rfl

/-- Tickets and items match when a queue is made. -/
theorem Matched.of_made {q : QueueId} {p : Overflow} {s : Scene} (h : s.Occurs) (stroke : Stroke)
    (hnone : s.moment.world.queue? q = none) (hmade : ((s.play stroke).moment.world.queue? q).map Queue.policy = some p) :
    ∃ b, Matched q p {} b (s.play stroke) := by
  obtain ⟨b, hrecorded⟩ := h.recorded
  obtain ⟨row, hrow, hpolicy⟩ := Option.map_eq_some_iff.1 hmade
  obtain ⟨hwithheld, hstate⟩ := hrecorded.withheld_made hnone hrow
  exact ⟨_, hwithheld, ⟨row, hrow, hpolicy, hstate⟩, by rintro k ticket ⟨⟩, .nil, by rintro k ticket l ⟨⟩⟩

/-- **Tickets and items match in every run** of a queue that keeps every item, as long as no ticket is undone. -/
theorem Tallied.matched {q : QueueId} {p : Overflow} {t : Tally} {s : Scene} (h : Tallied q p t s)
    (hp : p.isLossless = true) (hundone : t.undone = false) : ∃ b, Matched q p t b s := by
  induction h with
  | make hoccurs stroke hnone hmade => exact Matched.of_made hoccurs stroke hnone hmade
  | @play t s h stroke ih =>
    have hbefore : t.undone = false := by
      cases hcalls : s.calls? stroke with
      | none => simpa only [Scene.tally, hcalls] using hundone
      | some call =>
        simp only [Scene.tally, hcalls] at hundone
        exact Tally.undone_of_record hundone
    obtain ⟨b, hmatched⟩ := ih hbefore
    exact ⟨_, hmatched.play hp stroke hundone⟩

end FiberLoop
