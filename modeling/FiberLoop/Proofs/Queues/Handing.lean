import FiberLoop.Proofs.Queues.Redeeming

/-!
# Items that are handed over

While tickets and items match, an item comes to a latch by the offer of that item only, and whoever offers it rouses
those who are parked on the latch. This holds of every way to keep the tally of a queue in which tickets are only
added and an item that goes with a ticket stays (`Hands`).

`Take.Underway.after` follows a take along a run: it is under way, or has gone on with what its ticket brought.
-/

namespace FiberLoop

open World

variable {q : QueueId} {p : Overflow} {t t' : Tally} {b : Books} {s : Scene} {stroke : Stroke} {strokes : List Stroke}
  {f : FiberId} {l : DeferredId} {k : Nat} {ticket : ItemTicket} {T : Take} {x : Exit Value Value} {got : Value → Prop}

namespace Matched

variable (h : Matched q p t b s)
include h

theorem occurs : s.Occurs := by
  obtain ⟨σ, hσ⟩ := h.withheld.recorded.orderly
  exact hσ.occurs

/-- A completed latch has the exit that goes with its ticket. -/
theorem item_of_poll (hk : t.tickets[k]? = some ticket) (hl : ticket.latch? = some l)
    (hx : s.moment.world.pollDeferred l = some x) : ∃ v, x = .value v ∧ t.items[k]? = some v := by
  obtain ⟨v, hv, rfl⟩ := Option.map_eq_some_iff.1 ((h.latched k ticket l hk hl).symm.trans hx)
  exact ⟨v, rfl, hv⟩

/-- While a latch is pending, the item that goes with its ticket is not there. -/
theorem length_le_of_pending (hk : t.tickets[k]? = some ticket) (hl : ticket.latch? = some l)
    (hpending : s.moment.world.pollDeferred l = none) : t.items.length ≤ k :=
  List.getElem?_eq_none_iff.1 (Option.map_eq_none_iff.1 ((h.latched k ticket l hk hl).symm.trans hpending))

end Matched

/-- A stroke after which tickets and items still match. Tickets are only added, and a ticket that lacks its item gets
it by an offer. -/
structure Hands (q : QueueId) (p : Overflow) (t t' : Tally) (s : Scene) (stroke : Stroke) : Prop where
  before : ∃ b, Matched q p t b s
  after : ∃ b, Matched q p t' b (s.play stroke)
  tickets : t.tickets <+: t'.tickets
  items : ∀ k < t.tickets.length, t'.items[k]? = t.items[k]? ∨ k = t.items.length ∧
    ∃ g run item, s.calls? stroke = some (g, run, .thunk (.perform (.offerItem q item))) ∧ t'.items[k]? = some item

/-- What a placed item changes: only the ticket that lacks its item longest gets it. -/
theorem Tally.getElem?_place (item : Value) (t : Tally) (k : Nat) :
    (t.place item).items[k]? = t.items[k]? ∨ k = t.items.length ∧ (t.place item).items[k]? = some item := by
  rw [Tally.items_place]
  rcases Nat.lt_trichotomy k t.items.length with hlt | rfl | hgt
  · exact Or.inl (List.getElem?_append_left hlt)
  · exact Or.inr ⟨rfl, List.getElem?_concat_length⟩
  · refine Or.inl ?_
    rw [List.getElem?_eq_none (Nat.le_of_lt hgt), List.getElem?_eq_none]
    rw [List.length_append, List.length_singleton]
    exact hgt

namespace Hands

variable (h : Hands q p t t' s stroke) (hk : t.tickets[k]? = some ticket) (hl : ticket.latch? = some l)
include h hk

theorem ticket_at : t'.tickets[k]? = some ticket := by
  obtain ⟨more, hmore⟩ := h.tickets
  rw [← hmore, List.getElem?_append_left (List.getElem?_eq_some_iff.1 hk).1]
  exact hk

include hl

/-- A latch is completed by the offer of the item that goes with its ticket. -/
theorem offered (hpending : s.moment.world.pollDeferred l = none)
    (hdone : (s.play stroke).moment.world.pollDeferred l = some x) :
    ∃ g run item, s.calls? stroke = some (g, run, .thunk (.perform (.offerItem q item))) ∧ t.items.length = k ∧
      x = .value item := by
  obtain ⟨b, hmatched⟩ := h.before
  obtain ⟨b', hmatched'⟩ := h.after
  obtain ⟨v, rfl, hv⟩ := hmatched'.item_of_poll (h.ticket_at hk) hl hdone
  have hnone : t.items[k]? = none := List.getElem?_eq_none (hmatched.length_le_of_pending hk hl hpending)
  rcases h.items k (List.getElem?_eq_some_iff.1 hk).1 with hsame | ⟨rfl, g, run, item, hcalls, hitem⟩
  · cases hv.symm.trans (hsame.trans hnone)
  · cases hv.symm.trans hitem
    exact ⟨g, run, v, hcalls, rfl, rfl⟩

/-- Whoever completes a latch rouses those who are parked in its line. -/
theorem rouses (hpending : s.moment.world.pollDeferred l = none)
    (hdone : (s.play stroke).moment.world.pollDeferred l = some x) :
    (∃ g left stand, s.moment.activity = .running g left stand) ∧
      ∀ f home run key, s.moment.world.Asleep f home run (.waiter l key) →
        .task (.resume f run (.ofExit x)) ∈ ((s.play stroke).moment.world.loopAt home).inbox := by
  obtain ⟨g, run, item, hcalls, rfl, rfl⟩ := h.offered hk hl hpending hdone
  obtain ⟨b, hmatched⟩ := h.before
  obtain ⟨-, left, stand, ha, -⟩ := Scene.of_calls? hcalls
  refine ⟨⟨g, left + 1, stand, ha⟩, fun f home run' key hasleep => ?_⟩
  obtain ⟨row, hrow, -, hstate⟩ := hmatched.row
  obtain ⟨latch, hlatch, hline⟩ := Tally.state_of_gt hmatched.granted (List.getElem?_eq_some_iff.1 hk).1
  obtain rfl : latch = l := by
    have hticket := (List.getElem?_eq_some_iff.1 hk).2
    rw [hticket] at hlatch
    exact Option.some.inj (hlatch.symm.trans hl)
  obtain ⟨left', hmoment, -⟩ := Scene.moment_of_calls? hcalls
  have hworld : (s.play stroke).moment.world = s.moment.world.offerItem q item := congrArg Moment.world hmoment
  rw [hworld, offerItem_of_waiting hrow (hstate.trans hline)]
  exact hmatched.occurs.tidy.task_complete hasleep (.value item)

/-- What a take needs of the latch of its ticket. -/
theorem serves (hgot : ∀ v, t'.items[k]? = some v → got v) : Take.Serves got s stroke l where
  made := by
    obtain ⟨b, hmatched⟩ := h.before
    exact hmatched.withheld.made l (Tally.mem_latches hk hl)
  exit x hx := by
    obtain ⟨b', hmatched'⟩ := h.after
    obtain ⟨v, rfl, hv⟩ := hmatched'.item_of_poll (h.ticket_at hk) hl hx
    exact .value (hgot v hv)
  rouses _ := h.rouses hk hl

end Hands

/-- **A take goes on with what its ticket brings**, along every run in which its latch is served and its ticket is not
undone. -/
theorem Take.Underway.after {I : Scene → List Stroke → Prop}
    (hstep : ∀ s stroke rest, I s (stroke :: rest) → s.Occurs ∧
      (∀ l, T.draw = .latch l → Take.Serves got s stroke l) ∧
      (∀ run, s.calls? stroke ≠ some (f, run, .thunk (.perform T.undo))) ∧ I (s.play stroke) rest)
    (hitem : ∀ v, T.draw = .item v → got v) (h : T.Underway f got s) (hI : I s strokes) :
    T.Underway f got (s.after strokes) ∨ ∃ before rest left v, strokes = before ++ rest ∧ got v ∧
      (s.after before).moment.activity = .running f left ⟨T.base, .value v⟩ := by
  induction strokes generalizing s with
  | nil => exact Or.inl h
  | cons stroke rest ih =>
    obtain ⟨hoccurs, hserves, hundo, hnext⟩ := hstep s stroke rest hI
    rcases h.play hoccurs stroke hitem hserves hundo with hstill | ⟨left, v, hv, hgoes⟩
    · rcases ih hstill hnext with hlast | ⟨before, more, left, v, rfl, hv, hgoes⟩
      · exact Or.inl hlast
      · exact Or.inr ⟨stroke :: before, more, left, v, rfl, hv, hgoes⟩
    · exact Or.inr ⟨[stroke], rest, left, v, rfl, hv, hgoes⟩

end FiberLoop
