import FiberLoop.Proofs.Queues.Lining
import FiberLoop.Proofs.Queues.Modelling
import FiberLoop.Proofs.Queues.Pairing

/-!
# Queues that overflow

The buffer of a sliding or dropping queue never outgrows its capacity, whatever is offered, taken, interrupted and
put back. In a run in which no ticket is undone, a queue is an ideal queue: its state and what each take receives are
those of `IdealQueue`, under every policy.

The log of a queue says what happened to it, and nothing in a run depends on it: `Scene.queueEvent?` reads off each
stroke what it does. The main result of this module is `Logged.overflowing`.
-/

namespace FiberLoop

open World

/-! ## The log of a queue -/

/-- What a closure that a fiber calls does to a queue. -/
def World.queueEvent? (q : QueueId) (f : FiberId) (run : Run) (c : Call) (w : World) : Option QueueEvent :=
  match c with
  | .thunk (.perform (.requestItem q')) =>
    if q' = q then some (.took { fiber := f, run := run, latch? := w.newLatch? q }) else none
  | .thunk (.perform (.offerItem q' item)) => if q' = q then some (.offered item) else none
  | .thunk (.perform (.putBackItem q' _)) | .thunk (.perform (.abandonItem q' _)) =>
    if q' = q then some .undone else none
  | _ => none

namespace Scene

/-- What a stroke does to a queue. -/
def queueEvent? (q : QueueId) (s : Scene) (stroke : Stroke) : Option QueueEvent :=
  (s.calls? stroke).bind fun (f, run, c) => s.moment.world.queueEvent? q f run c

/-- The log of a queue after some strokes. -/
def logs (q : QueueId) (s : Scene) : List Stroke → List QueueEvent → List QueueEvent
  | [], log => log
  | stroke :: rest, log => (s.play stroke).logs q rest (log ++ (s.queueEvent? q stroke).toList)

end Scene

/-- A run from the time on at which a queue was made, with the log of the queue. -/
inductive Logged (q : QueueId) (p : Overflow) : List QueueEvent → Scene → Prop where
  | make {s : Scene} (h : s.Occurs) (stroke : Stroke) (hnone : s.moment.world.queue? q = none)
    (hmade : ((s.play stroke).moment.world.queue? q).map Queue.policy = some p) : Logged q p [] (s.play stroke)
  | play {log : List QueueEvent} {s : Scene} (h : Logged q p log s) (stroke : Stroke) :
    Logged q p (log ++ (s.queueEvent? q stroke).toList) (s.play stroke)

/-- The tickets that were taken, oldest first. -/
def QueueEvent.tickets (log : List QueueEvent) : List ItemTicket :=
  log.filterMap fun
    | .took ticket => some ticket
    | _ => none

section

variable {q : QueueId} {p : Overflow} {t : Tally} {log : List QueueEvent} {b : Books} {s s' : Scene} {stroke : Stroke}
  {strokes : List Stroke} {f : FiberId} {run : Run} {c : Call} {item v : Value} {items : List Value} {e : QueueEvent}
  {l : DeferredId} {k : Nat} {ticket : ItemTicket} {row : Queue} {T : Take}

namespace Scene

theorem queueEvent?_of_calls? (h : s.calls? stroke = some (f, run, c)) :
    s.queueEvent? q stroke = s.moment.world.queueEvent? q f run c := by
  rw [queueEvent?, h]
  rfl

/-- A stroke without an event does not use the queue. -/
theorem not_uses_of_queueEvent? (h : s.queueEvent? q stroke = none) (hcalls : s.calls? stroke = some (f, run, c)) :
    ¬ c.uses q := by
  rw [queueEvent?_of_calls? hcalls] at h
  intro huses
  rcases Call.cases_of_uses huses with rfl | ⟨item, rfl⟩ | ⟨item, rfl⟩ | ⟨latch, rfl⟩ <;>
    simp only [World.queueEvent?, if_true] at h <;> cases h

/-- Where a ticket is taken. -/
theorem calls?_of_took (h : s.queueEvent? q stroke = some (.took ticket)) :
    ∃ f run, s.calls? stroke = some (f, run, .thunk (.perform (.requestItem q))) ∧
      ticket = { fiber := f, run := run, latch? := s.moment.world.newLatch? q } := by
  obtain ⟨⟨f, run, c⟩, hcalls, hevent⟩ := Option.bind_eq_some_iff.1 h
  simp only [World.queueEvent?] at hevent
  split at hevent <;> try split at hevent
  all_goals cases hevent
  rename_i q' hq
  exact ⟨f, run, hq ▸ hcalls, rfl⟩

/-- Where an item is offered. -/
theorem calls?_of_offered (h : s.queueEvent? q stroke = some (.offered item)) :
    ∃ f run, s.calls? stroke = some (f, run, .thunk (.perform (.offerItem q item))) := by
  obtain ⟨⟨f, run, c⟩, hcalls, hevent⟩ := Option.bind_eq_some_iff.1 h
  simp only [World.queueEvent?] at hevent
  split at hevent <;> try split at hevent
  all_goals cases hevent
  rename_i q' hq
  exact ⟨f, run, hq ▸ hcalls⟩

/-- Who undoes a ticket is logged. -/
theorem queueEvent?_of_undo (hcalls : s.calls? stroke = some (f, run, .thunk (.perform T.undo))) (hqueue : T.queue = q) :
    s.queueEvent? q stroke = some .undone := by
  subst hqueue
  rw [queueEvent?_of_calls? hcalls]
  cases hdraw : T.draw with
  | item v => simp only [Take.undo, hdraw, World.queueEvent?, if_true]
  | latch l => simp only [Take.undo, hdraw, World.queueEvent?, if_true]

theorem prefix_logs (q : QueueId) (s : Scene) (strokes : List Stroke) (log : List QueueEvent) :
    log <+: s.logs q strokes log := by
  induction strokes generalizing s log with
  | nil => exact List.prefix_rfl
  | cons stroke rest ih => exact (List.prefix_append ..).trans (ih ..)

theorem queueEvent?_of_offer (hcalls : s.calls? stroke = some (f, run, .thunk (.perform (.offerItem q item)))) :
    s.queueEvent? q stroke = some (.offered item) :=
  (queueEvent?_of_calls? hcalls).trans (by simp only [World.queueEvent?, if_true])

/-- The tally after a ticket was taken. -/
theorem tally_of_request (hcalls : s.calls? stroke = some (f, run, .thunk (.perform (.requestItem q)))) :
    s.tally q stroke (.of p log) = .of p (log ++ (s.queueEvent? q stroke).toList) := by
  rw [queueEvent?_of_calls? hcalls]
  simp only [tally, hcalls, Tally.record, World.queueEvent?, if_true, Option.toList_some, Tally.of_concat, Tally.meet]

end Scene

/-! ## The tally of a log -/

namespace Tally

theorem tickets_of (p : Overflow) (log : List QueueEvent) : (of p log).tickets = QueueEvent.tickets log := by
  induction log using List.reverseRecOn with
  | nil => rfl
  | append_singleton log e ih =>
    rw [of_concat, QueueEvent.tickets, List.filterMap_append, ← QueueEvent.tickets, ← ih]
    cases e with
    | took ticket => rfl
    | offered item => exact (tickets_absorb p item _).trans (List.append_nil _).symm
    | undone => exact (List.append_nil _).symm

/-- What goes with a ticket is what its take received. -/
theorem given_of_item (hk : k < (QueueEvent.tickets log).length) (hv : (of p log).items[k]? = some v) :
    (IdealQueue.after p log).given k = some v := by
  rw [(IdealQueue.mirrors p log).given, tickets_of, if_pos hk]
  exact hv

/-- An event adds to the tickets. -/
theorem tickets_prefix_meet (p : Overflow) (e : QueueEvent) (t : Tally) : t.tickets <+: (t.meet p e).tickets := by
  cases e with
  | took ticket => exact List.prefix_append ..
  | offered item => exact (tickets_absorb p item t).symm ▸ List.prefix_rfl
  | undone => exact List.prefix_rfl

/-- An event leaves the item that goes with a ticket, or brings it. -/
theorem getElem?_meet (p : Overflow) (e : QueueEvent) (hk : k < t.tickets.length) :
    (t.meet p e).items[k]? = t.items[k]? ∨
      k = t.items.length ∧ ∃ item, e = .offered item ∧ (t.meet p e).items[k]? = some item := by
  cases e with
  | took ticket => exact Or.inl rfl
  | offered item =>
    rcases Nat.lt_or_ge t.items.length t.tickets.length with hlt | hge
    · have hplace : t.meet p (.offered item) = t.place item := absorb_of_gt hlt
      rw [hplace]
      exact (getElem?_place item t k).imp_right fun ⟨he, hitem⟩ => ⟨he, item, rfl, hitem⟩
    · exact Or.inl (getElem?_absorb hge hk)
  | undone => exact Or.inl rfl

theorem item_meet (hk : k < t.tickets.length) (hv : t.items[k]? = some v) (e : QueueEvent) :
    (t.meet p e).items[k]? = some v := by
  rcases getElem?_meet p e hk with hsame | ⟨rfl, -⟩
  · exact hsame.trans hv
  · rw [List.getElem?_eq_none (Nat.le_refl _)] at hv
    cases hv

/-- What a take receives stays what it receives. -/
theorem item_logs (hk : (of p log).tickets[k]? = some ticket) (hv : (of p log).items[k]? = some v) (s : Scene)
    (strokes : List Stroke) : (of p (s.logs q strokes log)).items[k]? = some v := by
  induction strokes generalizing s log with
  | nil => exact hv
  | cons stroke rest ih =>
    cases hevent : s.queueEvent? q stroke with
    | none => simpa only [Scene.logs, hevent, Option.toList_none, List.append_nil] using ih hk hv _
    | some e =>
      have hlt := (List.getElem?_eq_some_iff.1 hk).1
      have hkept : ((of p log).meet p e).tickets[k]? = some ticket :=
        (List.prefix_iff_getElem?.1 (tickets_prefix_meet p e _) k hlt).trans
          ((List.getElem?_eq_getElem hlt).symm.trans hk)
      have hlater := item_meet (p := p) hlt hv e
      rw [← of_concat] at hkept hlater
      simpa only [Scene.logs, hevent, Option.toList_some] using ih hkept hlater (s.play stroke)

end Tally

/-! ## Tickets and items match -/

namespace Matched

/-- An item is offered while nobody waits. -/
theorem absorb_of_le (h : Matched q p t b s)
    (hcalls : s.calls? stroke = some (f, run, .thunk (.perform (.offerItem q item))))
    (hle : t.tickets.length ≤ t.items.length) : Matched q p (t.absorb p item) (s.book stroke b) (s.play stroke) := by
  obtain ⟨row, hrow, rfl, hstate⟩ := h.row
  have hready : row.state = .ready (t.items.drop t.tickets.length) := hstate.trans (if_pos hle)
  have hline : row.state.line = [] := congrArg QueueState.line hready
  obtain ⟨L, hrecorded⟩ := h.withheld.recorded.lined hrow
  have hlined : s.Lined q t.latches b row := by
    refine ⟨h.withheld, hrow, ?_, ?_, ?_, hrecorded.lined.fits⟩
    all_goals rw [hline]
    · exact List.forall_mem_nil _
    · exact List.forall_mem_nil _
    · exact .nil
  obtain ⟨hworld, -, ⟨hwithheld, -⟩, -⟩ := hlined.offer hcalls
  have hpush := IdealQueue.absorb_eq_push (hlined.lined.fits _ hready) item
  have hoffer : (s.play stroke).moment.world =
      s.moment.world.setQueueState q (.ready (row.policy.push (t.items.drop t.tickets.length) item)) :=
    hworld.trans (deliver_of_ready hrow hready item _)
  have htickets : (t.absorb row.policy item).tickets = t.tickets := Tally.tickets_absorb ..
  have hlatches : (t.absorb row.policy item).latches = t.latches := congrArg (List.filterMap ItemTicket.latch?) htickets
  have hlength : t.tickets.length ≤ (t.absorb row.policy item).items.length := Tally.length_absorb hle
  have hrow' := queue?_setQueueState_self hrow (.ready (row.policy.push (t.items.drop t.tickets.length) item))
  rw [← hoffer] at hrow'
  refine ⟨hlatches.symm ▸ hwithheld, ⟨_, hrow', rfl, ?_⟩, fun k ticket hk _ => ?_, hlatches.symm ▸ h.distinct,
    fun k ticket l hk hl => ?_⟩
  · rw [Tally.state, htickets, if_pos hlength, Tally.drop_absorb hle, hpush]
  · rw [htickets] at hk
    exact Nat.lt_of_lt_of_le (List.getElem?_eq_some_iff.1 hk).1 hlength
  · rw [htickets] at hk
    rw [hoffer, Tally.getElem?_absorb hle (List.getElem?_eq_some_iff.1 hk).1]
    exact h.latched k ticket l hk hl

/-- **Every event but an undoing keeps tickets and items matched.** -/
theorem meet (h : Matched q p t b s) (hevent : s.queueEvent? q stroke = some e) (hundone : e ≠ .undone) :
    Matched q p (t.meet p e) (s.book stroke b) (s.play stroke) := by
  cases e with
  | took ticket =>
    obtain ⟨f, run, hcalls, rfl⟩ := Scene.calls?_of_took hevent
    have htally : t.meet p (.took { fiber := f, run := run, latch? := s.moment.world.newLatch? q }) =
        s.tally q stroke t := by simp only [Scene.tally, hcalls, Tally.record, if_true, Tally.meet]
    rw [htally]
    rcases Nat.lt_or_ge t.tickets.length t.items.length with hlt | hge
    · exact h.take_of_lt hcalls hlt
    · exact h.take_of_ge hcalls hge
  | offered item =>
    obtain ⟨f, run, hcalls⟩ := Scene.calls?_of_offered hevent
    rcases Nat.lt_or_ge t.items.length t.tickets.length with hlt | hge
    · have htally : t.meet p (.offered item) = s.tally q stroke t :=
        (Tally.absorb_of_gt hlt).trans (tally_of_offer hcalls).symm
      rw [htally]
      exact h.place_of_gt hcalls hlt
    · exact h.absorb_of_le hcalls hge
  | undone => exact absurd rfl hundone

/-- A stroke that undoes no ticket keeps tickets and items matched, and hands items over. -/
theorem logged (h : Matched q p (.of p log) b s) (stroke : Stroke) (hundone : s.queueEvent? q stroke ≠ some .undone) :
    Matched q p (.of p (log ++ (s.queueEvent? q stroke).toList)) (s.book stroke b) (s.play stroke) ∧
      Hands q p (.of p log) (.of p (log ++ (s.queueEvent? q stroke).toList)) s stroke := by
  cases hevent : s.queueEvent? q stroke with
  | none =>
    have hspare := h.spare fun f run c => Scene.not_uses_of_queueEvent? hevent
    rw [Option.toList_none, List.append_nil]
    exact ⟨hspare, ⟨b, h⟩, ⟨_, hspare⟩, List.prefix_rfl, fun _ _ => Or.inl rfl⟩
  | some e =>
    have hnext := h.meet hevent fun he => hundone (he ▸ hevent)
    rw [Option.toList_some, Tally.of_concat]
    refine ⟨hnext, ⟨b, h⟩, ⟨_, hnext⟩, Tally.tickets_prefix_meet p e _, fun k hk => ?_⟩
    refine (Tally.getElem?_meet p e hk).imp_right ?_
    rintro ⟨he, item, rfl, hitem⟩
    obtain ⟨g, run, hcalls⟩ := Scene.calls?_of_offered hevent
    exact ⟨he, g, run, item, hcalls, hitem⟩

end Matched

namespace Logged

theorem after (h : Logged q p log s) (strokes : List Stroke) : Logged q p (s.logs q strokes log) (s.after strokes) := by
  induction strokes generalizing s log with
  | nil => exact h
  | cons stroke rest ih => exact ih (h.play stroke)

theorem matched (h : Logged q p log s) (hundone : .undone ∉ log) : ∃ b, Matched q p (.of p log) b s := by
  induction h with
  | make hoccurs stroke hnone hmade => exact Matched.of_made hoccurs stroke hnone hmade
  | play h stroke ih =>
    obtain ⟨b, hmatched⟩ := ih fun hmem => hundone (List.mem_append_left _ hmem)
    exact ⟨_, (hmatched.logged stroke fun he => hundone (List.mem_append_right _ (he ▸ List.mem_singleton_self _))).1⟩

/-- The policy of a queue does not change. -/
theorem lined (h : Logged q p log s) : ∃ L b row, s.Lined q L b row ∧ row.policy = p := by
  induction h with
  | make hoccurs stroke hnone hmade =>
    obtain ⟨row, hrow, hpolicy⟩ := Option.map_eq_some_iff.1 hmade
    obtain ⟨L, b, hlined⟩ := (hoccurs.after [stroke]).lined hrow
    exact ⟨L, b, row, hlined, hpolicy⟩
  | play h stroke ih =>
    obtain ⟨L, b, row, hlined, hpolicy⟩ := ih
    obtain ⟨L', row', hlined', hsame⟩ := hlined.play stroke
    exact ⟨L', _, row', hlined', hsame.trans hpolicy⟩

/-! ## What a take receives -/

/-- A take receives the item that goes with its ticket: it is still under way, or it has gone on with that item. -/
theorem receives_of_begun (h : Logged q p log s) (hundone : .undone ∉ s.logs q strokes log) {got : Value → Prop}
    (hgot : ∀ v, (Tally.of p (s.logs q strokes log)).items[k]? = some v → got v) (hqueue : T.queue = q)
    (hk : (Tally.of p log).tickets[k]? = some ticket) (hlatch : ticket.latch? = T.draw.latch?)
    (hitem : ∀ v, T.draw = .item v → got v) (hunderway : T.Underway f got s) :
    T.Underway f got (s.after strokes) ∨ ∃ before rest left v, strokes = before ++ rest ∧ got v ∧
      (s.after before).moment.activity = .running f left ⟨T.base, .value v⟩ := by
  -- What holds of each scene and the strokes that follow it.
  let I (s : Scene) (strokes : List Stroke) : Prop := ∃ log, Logged q p log s ∧ .undone ∉ s.logs q strokes log ∧
    (∀ v, (Tally.of p (s.logs q strokes log)).items[k]? = some v → got v) ∧ (Tally.of p log).tickets[k]? = some ticket
  refine hunderway.after (I := I) ?_ hitem ⟨log, h, hundone, hgot, hk⟩
  rintro s stroke rest ⟨log, h, hundone, hgot, hk⟩
  have hnext : .undone ∉ log ++ (s.queueEvent? q stroke).toList := fun hmem => hundone ((Scene.prefix_logs q _ rest _).subset hmem)
  have hevent : s.queueEvent? q stroke ≠ some .undone := fun he =>
    hnext (List.mem_append_right _ (he ▸ List.mem_singleton_self _))
  obtain ⟨b, hmatched⟩ := h.matched fun hmem => hnext (List.mem_append_left _ hmem)
  obtain ⟨-, hhands⟩ := hmatched.logged stroke hevent
  have hk' := hhands.ticket_at hk
  refine ⟨hmatched.occurs, fun l hdraw => ?_, fun run hcalls => hevent (Scene.queueEvent?_of_undo hcalls hqueue), _,
    h.play stroke, hundone, hgot, hk'⟩
  exact hhands.serves hk (hlatch.trans (congrArg Draw.latch? hdraw)) fun v hv => hgot v (Tally.item_logs hk' hv _ rest)

end Logged

/-! ## All together -/

/-- How a queue with a policy behaves in a run. -/
structure Overflowing (q : QueueId) (p : Overflow) (log : List QueueEvent) (s : Scene) : Prop where
  /-- A sliding or dropping buffer never outgrows its capacity, whatever was interrupted and put back. -/
  bounded : ∀ n, p = .sliding n ∨ p = .dropping n → ∀ row items, s.moment.world.queue? q = some row →
    row.state = .ready items → items.length ≤ n
  /-- Offers to an empty queue leave the last of them in a sliding buffer, and the first of them in a dropping one. -/
  fed : ∀ row items s', s.moment.world.queue? q = some row → row.state = .ready [] → s.Feeds q items s' →
    ∃ row', s'.moment.world.queue? q = some row' ∧ (∀ n, p = .sliding n → row'.state = .ready (items.rtake n)) ∧
      ∀ n, p = .dropping n → row'.state = .ready (items.take n)
  /-- Unless a ticket was undone, the queue holds what the ideal queue holds: its buffer, or the latches of those who
  are parked. -/
  state : .undone ∉ log → ∃ row, s.moment.world.queue? q = some row ∧
    row.state = (IdealQueue.after p log).state fun k => (QueueEvent.tickets log)[k]?.bind ItemTicket.latch?
  /-- A take receives what it receives from the ideal queue: whatever happens then, it is under way or has gone on
  with that item, unless a ticket is undone. -/
  receives : ∀ f base stroke strokes, s.calls? stroke = some (f, Take.asked base, .thunk (.perform (.requestItem q))) →
    .undone ∉ s.logs q (stroke :: strokes) log →
      (∃ T : Take, T.base = base ∧ T.queue = q ∧ T.Underway f
        (fun v => (IdealQueue.after p (s.logs q (stroke :: strokes) log)).given (IdealQueue.after p log).takes = some v)
        (s.after (stroke :: strokes))) ∨
      ∃ before rest left v, strokes = before ++ rest ∧
        (IdealQueue.after p (s.logs q (stroke :: strokes) log)).given (IdealQueue.after p log).takes = some v ∧
        ((s.play stroke).after before).moment.activity = .running f left ⟨base, .value v⟩
  /-- Who waits for the latch of a ticket is parked in the ideal queue. -/
  parked : .undone ∉ log → ∀ (k : Nat) ticket l f home run key, (QueueEvent.tickets log)[k]? = some ticket →
    ticket.latch? = some l → s.moment.world.Asleep f home run (.waiter l key) → k ∈ (IdealQueue.after p log).parked
  /-- An offer rouses the one that is parked longest, and hands the item over. -/
  handed : .undone ∉ log → ∀ stroke g run item k rest ticket l,
    s.calls? stroke = some (g, run, .thunk (.perform (.offerItem q item))) →
      (IdealQueue.after p log).parked = k :: rest → (QueueEvent.tickets log)[k]? = some ticket →
        ticket.latch? = some l → ∀ f home run key, s.moment.world.Asleep f home run (.waiter l key) →
          .task (.resume f run (.value item)) ∈ ((s.play stroke).moment.world.loopAt home).inbox

/-- **A queue is an ideal queue in every run in which no ticket is undone**, and a sliding or dropping buffer respects
its capacity in every run. -/
theorem Logged.overflowing (h : Logged q p log s) : Overflowing q p log s where
  bounded n hp row items hrow hstate := by
    obtain ⟨L, b, row', hlined, rfl⟩ := h.lined
    cases hrow.symm.trans hlined.lined.found
    rcases hp with hp | hp <;> exact hlined.lined.fits items hstate n (by rw [hp]; rfl)
  fed row items s' hrow hstate hfeeds := by
    obtain ⟨L, b, row', hlined, rfl⟩ := h.lined
    cases hrow.symm.trans hlined.lined.found
    obtain ⟨hoffered, -⟩ := hfeeds.offered hlined
    have hempty : s.moment.world.queue? q = some { row with state := .ready [] } := by rw [← hstate]; exact hrow
    have hfed := hoffered.of_ready hempty
    rw [Overflow.pushAll_empty] at hfed
    refine ⟨_, hfed, fun n hp => ?_, fun n hp => ?_⟩ <;> rw [hp] <;> rfl
  state hundone := by
    obtain ⟨b, hmatched⟩ := h.matched hundone
    obtain ⟨row, hrow, -, hstate⟩ := hmatched.row
    refine ⟨row, hrow, hstate.trans ?_⟩
    rw [← (IdealQueue.mirrors p log).state_eq, Tally.tickets_of]
  receives f base stroke strokes hcalls hundone := by
    have hnext : .undone ∉ log ++ (s.queueEvent? q stroke).toList := fun hmem =>
      hundone ((Scene.prefix_logs q _ strokes _).subset hmem)
    obtain ⟨b, hmatched⟩ := h.matched fun hmem => hnext (List.mem_append_left _ hmem)
    obtain ⟨T, rfl, hqueue, hk, hitem, hunderway⟩ := hmatched.begins hcalls
    rw [Scene.tally_of_request hcalls] at hk hitem
    have hlater : (QueueEvent.tickets (log ++ (s.queueEvent? q stroke).toList)).length ≤
        (QueueEvent.tickets (s.logs q (stroke :: strokes) log)).length :=
      ((Scene.prefix_logs q (s.play stroke) strokes _).filterMap _).length_le
    have hlt := (List.getElem?_eq_some_iff.1 hk).1
    rw [Tally.tickets_of p (log ++ _)] at hlt
    have hgot : ∀ v, (Tally.of p (s.logs q (stroke :: strokes) log)).items[(Tally.of p log).tickets.length]? = some v →
        (IdealQueue.after p (s.logs q (stroke :: strokes) log)).given (IdealQueue.after p log).takes = some v := by
      intro v hv
      rw [(IdealQueue.mirrors p log).takes]
      exact Tally.given_of_item (Nat.lt_of_lt_of_le hlt hlater) hv
    rcases (h.play stroke).receives_of_begun hundone hgot hqueue hk rfl
      (fun v hdraw => hgot v (Tally.item_logs hk (hitem v hdraw) _ strokes)) (hunderway _) with hstill | hgone
    · exact Or.inl ⟨T, rfl, hqueue, hstill⟩
    · exact Or.inr hgone
  parked hundone k ticket l f home run key hk hl hasleep := by
    obtain ⟨b, hmatched⟩ := h.matched hundone
    rw [← Tally.tickets_of p] at hk
    have hle := hmatched.length_le_of_pending hk hl (hmatched.occurs.pending_of_asleep hasleep)
    have hlt := (List.getElem?_eq_some_iff.1 hk).1
    rw [(IdealQueue.mirrors p log).parked, List.mem_range'_1]
    omega
  handed hundone stroke g run item k rest ticket l hcalls hparked hk hl f home run' key hasleep := by
    obtain ⟨b, hmatched⟩ := h.matched hundone
    have hevent := Scene.queueEvent?_of_offer hcalls
    obtain ⟨hnext, hhands⟩ := hmatched.logged stroke (by rw [hevent]; exact nofun)
    rw [← Tally.tickets_of p] at hk
    have hlt := (List.getElem?_eq_some_iff.1 hk).1
    obtain rfl : k = (Tally.of p log).items.length := by
      rw [(IdealQueue.mirrors p log).parked] at hparked
      exact (List.range'_eq_cons_iff.1 hparked).1.symm
    have hdone := hnext.latched _ ticket l (hhands.ticket_at hk) hl
    have hplaced : Tally.of p (log ++ [.offered item]) = (Tally.of p log).place item :=
      (Tally.of_concat ..).trans (Tally.absorb_of_gt hlt)
    rw [hevent, Option.toList_some, hplaced, Tally.items_place, List.getElem?_concat_length] at hdone
    exact (hhands.rouses hk hl (hmatched.occurs.pending_of_asleep hasleep) hdone).2 f home run' key hasleep

end

/-- The scene at which a sliding queue with one place was just made. -/
def narrow : Scene := (Scene.initial {} []).play (.demand (.scenario (.newQueue "q" (.sliding 1))))

/-- One fiber takes from the queue and is parked, and another one offers three items. -/
def poured : List Stroke :=
  [.demand (.scenario (.run "a" (.queue (.take (.var "q"))) false)),
    .demand (.scenario (.run "b" (.queue (.offerAll (.var "q")
      (.list [.const (.int 1), .const (.int 2), .const (.int 3)]))) false))] ++ List.replicate 40 .next

/-- The take receives the first item, and the last one is kept. -/
theorem Logged.overflowing_of_poured :
    (IdealQueue.after (.sliding 1) (narrow.logs ⟨0⟩ poured [])).given 0 = some (.ofDatum (.int 1)) ∧
      (IdealQueue.after (.sliding 1) (narrow.logs ⟨0⟩ poured [])).buffer = [.ofDatum (.int 3)] ∧
      Overflowing ⟨0⟩ (.sliding 1) (narrow.logs ⟨0⟩ poured []) (narrow.after poured) := by
  have hmade : Logged ⟨0⟩ (.sliding 1) [] narrow :=
    .make (.initial {} []) (.demand (.scenario (.newQueue "q" (.sliding 1)))) rfl rfl
  exact ⟨rfl, rfl, Logged.overflowing (hmade.after poured)⟩

end FiberLoop
