import FiberLoop.Proofs.Queues.Withholding

/-!
# The tally of a queue

The tally of a queue says which tickets were taken and which items were placed, each in order, and whether a ticket
was undone. Nothing in a run depends on it: `Scene.tally` reads off each stroke what it does.

If no ticket is undone, a queue that never drops an item is determined by its tally (`Tally.state`): either it holds
the items beyond the number of tickets, or the latches of the tickets beyond the number of items.
-/

namespace FiberLoop

/-- A ticket that a fiber has taken. -/
structure ItemTicket where
  fiber : FiberId
  /-- The run in which the fiber goes on with the ticket. -/
  run : Run
  /-- The latch with which the fiber has joined the line, unless an item was there. -/
  latch? : Option DeferredId

structure Tally where
  /-- The tickets, oldest first. -/
  tickets : List ItemTicket := []
  /-- The items that were placed, oldest first. -/
  items : List Value := []
  /-- Whether a ticket was undone: its item was put back, or its place in line given up. -/
  undone : Bool := false

/-- Whether a queue keeps every item that comes to it. -/
def Overflow.isLossless (p : Overflow) : Bool := p.limit?.isNone

namespace World

/-- The item that a take finds. -/
def nextItem? (q : QueueId) (w : World) : Option Value :=
  match w.queueState? q with
  | some (.ready (item :: _)) => some item
  | _ => none

/-- The latch that a take joins the line with, unless it finds an item. -/
def newLatch? (q : QueueId) (w : World) : Option DeferredId :=
  if (w.nextItem? q).isSome then none else some ⟨w.stores.deferreds.size⟩

end World

namespace Tally

variable {t : Tally}

/-- The latches of the tickets. -/
def latches (t : Tally) : List DeferredId := t.tickets.filterMap ItemTicket.latch?

/-- A fiber takes a ticket. -/
def take (ticket : ItemTicket) (t : Tally) : Tally := { t with tickets := t.tickets ++ [ticket] }

/-- An item is placed. -/
def place (item : Value) (t : Tally) : Tally := { t with items := t.items ++ [item] }

@[simp] theorem tickets_take (ticket : ItemTicket) (t : Tally) : (t.take ticket).tickets = t.tickets ++ [ticket] := rfl

@[simp] theorem items_take (ticket : ItemTicket) (t : Tally) : (t.take ticket).items = t.items := rfl

@[simp] theorem tickets_place (item : Value) (t : Tally) : (t.place item).tickets = t.tickets := rfl

@[simp] theorem items_place (item : Value) (t : Tally) : (t.place item).items = t.items ++ [item] := rfl

/-- What a closure that a fiber calls does to the items of a queue. -/
def record (q : QueueId) (f : FiberId) (run : Run) (c : Call) (w : World) (t : Tally) : Tally :=
  match c with
  | .thunk (.perform (.requestItem q')) =>
    if q' = q then t.take { fiber := f, run := run, latch? := w.newLatch? q } else t
  | .thunk (.perform (.offerItem q' item)) => if q' = q then t.place item else t
  | .thunk (.perform (.putBackItem q' _)) | .thunk (.perform (.abandonItem q' _)) =>
    if q' = q then { t with undone := true } else t
  | _ => t

/-- The state of a queue that keeps every item. -/
def state (t : Tally) : QueueState :=
  if t.tickets.length ≤ t.items.length then .ready (t.items.drop t.tickets.length)
  else .waiting ((t.tickets.drop t.items.length).filterMap ItemTicket.latch?)

/-- A closure that does not use the queue is not in its tally. -/
theorem record_of_not_uses {q : QueueId} {f : FiberId} {run : Run} {c : Call} {w : World} (h : ¬ c.uses q) :
    t.record q f run c w = t := by
  unfold record
  split
  · rw [if_neg]
    rintro rfl
    exact h (Or.inr rfl)
  · rw [if_neg]
    rintro rfl
    exact h (Or.inl rfl)
  · rw [if_neg]
    rintro rfl
    exact h (Or.inl rfl)
  · rw [if_neg]
    rintro rfl
    exact h (Or.inl rfl)
  · rfl

/-- A closure that uses the queue and undoes no ticket takes one or places an item. -/
theorem cases_of_uses {q : QueueId} {f : FiberId} {run : Run} {c : Call} {w : World} (h : c.uses q)
    (hundone : (t.record q f run c w).undone = false) :
    c = .thunk (.perform (.requestItem q)) ∨ ∃ item, c = .thunk (.perform (.offerItem q item)) := by
  rcases h with hqueue | rfl
  · cases c with
    | thunk thunk =>
      cases thunk with
      | perform o =>
        cases o with
        | offerItem q' item =>
          cases hqueue
          exact Or.inr ⟨item, rfl⟩
        | putBackItem q' item =>
          cases hqueue
          simp [record] at hundone
        | abandonItem q' latch =>
          cases hqueue
          simp [record] at hundone
        | _ => cases hqueue
      | _ => cases hqueue
    | _ => cases hqueue
  · exact Or.inl rfl

/-- Once a ticket was undone, that stays in the tally. -/
theorem undone_of_record {q : QueueId} {f : FiberId} {run : Run} {c : Call} {w : World}
    (h : (t.record q f run c w).undone = false) : t.undone = false := by
  unfold record at h
  split at h <;> (try split at h) <;> first | exact h | cases h

/-! ## Latches -/

/-- Whoever was granted an item at once found one there. -/
def Granted (t : Tally) : Prop :=
  ∀ k (ticket : ItemTicket), t.tickets[k]? = some ticket → ticket.latch? = none → k < t.items.length

/-- The latch of a ticket is completed with the item that goes with it, once that is there. -/
def Latched (t : Tally) (poll : DeferredId → Option (Exit Value Value)) : Prop :=
  ∀ (k : Nat) (ticket : ItemTicket) l, t.tickets[k]? = some ticket → ticket.latch? = some l →
    poll l = (t.items[k]?).map .value

theorem mem_latches {k : Nat} {ticket : ItemTicket} {l : DeferredId} (hk : t.tickets[k]? = some ticket)
    (hl : ticket.latch? = some l) : l ∈ t.latches :=
  List.mem_filterMap.2 ⟨ticket, List.mem_of_getElem? hk, hl⟩

/-- The last ticket, or an older one. -/
theorem of_take {ticket x : ItemTicket} {k : Nat} (h : (t.tickets ++ [ticket])[k]? = some x) :
    t.tickets[k]? = some x ∨ k = t.tickets.length ∧ x = ticket := by
  rw [List.getElem?_append] at h
  split at h
  · exact Or.inl h
  · rename_i hge
    rw [List.getElem?_singleton] at h
    split at h
    · cases h
      exact Or.inr ⟨by omega, rfl⟩
    · cases h

theorem latches_take (ticket : ItemTicket) (t : Tally) : (t.take ticket).latches = t.latches ++ ticket.latch?.toList := by
  unfold latches take
  rw [List.filterMap_append]
  cases hlatch : ticket.latch? <;> simp [hlatch]

theorem Granted.take (h : t.Granted) {ticket : ItemTicket}
    (hticket : ticket.latch? = none → t.tickets.length < t.items.length) : (t.take ticket).Granted := by
  intro k x hk hx
  rcases of_take hk with hold | ⟨rfl, rfl⟩
  · exact h k x hold hx
  · exact hticket hx

theorem Granted.place (h : t.Granted) (item : Value) : (t.place item).Granted := fun k ticket hk hlatch =>
  Nat.lt_of_lt_of_le (h k ticket hk hlatch) (List.length_append ▸ Nat.le_add_right _ _)

/-- A ticket is taken, and the exits of the latches stay as they are. -/
theorem Latched.take {poll poll' : DeferredId → Option (Exit Value Value)} (h : t.Latched poll)
    (hpoll : ∀ l ∈ t.latches, poll' l = poll l) {ticket : ItemTicket}
    (hticket : ∀ l, ticket.latch? = some l → t.items.length ≤ t.tickets.length ∧ poll' l = none) :
    (t.take ticket).Latched poll' := by
  intro k x l hk hl
  rcases of_take hk with hold | ⟨rfl, rfl⟩
  · exact (hpoll l (mem_latches hold hl)).trans (h k x l hold hl)
  · obtain ⟨hle, hnone⟩ := hticket l hl
    rw [hnone, items_take, List.getElem?_eq_none hle]
    rfl

/-- An item is placed while nobody waits. -/
theorem Latched.place_of_le {poll : DeferredId → Option (Exit Value Value)} (h : t.Latched poll)
    (hle : t.tickets.length ≤ t.items.length) (item : Value) : (t.place item).Latched poll := by
  intro k x l hk hl
  have hlt : k < t.tickets.length := (List.getElem?_eq_some_iff.1 hk).1
  rw [h k x l hk hl, items_place, List.getElem?_append_left (Nat.lt_of_lt_of_le hlt hle)]

/-- A latch belongs to no later ticket. -/
theorem not_lt_of_latch (hdistinct : t.latches.Nodup) {k k' : Nat} {x x' : ItemTicket} {l : DeferredId}
    (hk : t.tickets[k]? = some x) (hk' : t.tickets[k']? = some x') (hl : x.latch? = some l) (hl' : x'.latch? = some l) :
    ¬ k < k' := by
  intro hlt
  obtain ⟨hkey, rfl⟩ := List.getElem?_eq_some_iff.1 hk
  obtain ⟨hkey', rfl⟩ := List.getElem?_eq_some_iff.1 hk'
  have hsplit : t.latches = (t.tickets.take k').filterMap ItemTicket.latch? ++
      (t.tickets.drop k').filterMap ItemTicket.latch? := by
    rw [← List.filterMap_append, List.take_append_drop]
    rfl
  rw [hsplit, List.nodup_append] at hdistinct
  have hbefore : t.tickets[k] ∈ t.tickets.take k' := List.mem_take_iff_getElem.2 ⟨k, by omega, rfl⟩
  have hafter : t.tickets[k'] ∈ t.tickets.drop k' := List.drop_eq_getElem_cons hkey' ▸ List.mem_cons_self
  exact hdistinct.2.2 l (List.mem_filterMap.2 ⟨_, hbefore, hl⟩) l (List.mem_filterMap.2 ⟨_, hafter, hl'⟩) rfl

/-- Different tickets have different latches. -/
theorem eq_of_latch (hdistinct : t.latches.Nodup) {k k' : Nat} {x x' : ItemTicket} {l : DeferredId}
    (hk : t.tickets[k]? = some x) (hk' : t.tickets[k']? = some x') (hl : x.latch? = some l) (hl' : x'.latch? = some l) :
    k = k' :=
  Nat.le_antisymm (Nat.le_of_not_lt (not_lt_of_latch hdistinct hk' hk hl' hl))
    (Nat.le_of_not_lt (not_lt_of_latch hdistinct hk hk' hl hl'))

/-- An item is placed while somebody waits: the latch of the next ticket is completed with it. -/
theorem Latched.place_of_gt {poll poll' : DeferredId → Option (Exit Value Value)} (h : t.Latched poll)
    (hdistinct : t.latches.Nodup) (hlt : t.items.length < t.tickets.length) {latch : DeferredId}
    (hlatch : t.tickets[t.items.length].latch? = some latch) (item : Value) (hself : poll' latch = some (.value item))
    (hother : ∀ l, l ≠ latch → poll' l = poll l) : (t.place item).Latched poll' := by
  intro k x l hk hl
  rw [items_place]
  by_cases hkey : k = t.items.length
  · subst hkey
    obtain rfl : t.tickets[t.items.length] = x := Option.some.inj ((List.getElem?_eq_getElem hlt).symm.trans hk)
    obtain rfl : latch = l := Option.some.inj (hlatch.symm.trans hl)
    rw [hself, List.getElem?_concat_length]
    rfl
  · have hne : l ≠ latch := fun he => hkey <|
      eq_of_latch hdistinct hk (List.getElem?_eq_getElem hlt) hl (he ▸ hlatch)
    rw [hother l hne, h k x l hk hl]
    rcases Nat.lt_or_gt_of_ne hkey with hbefore | hafter
    · rw [List.getElem?_append_left hbefore]
    · rw [List.getElem?_eq_none (Nat.le_of_lt hafter), List.getElem?_eq_none]
      rw [List.length_append, List.length_singleton]
      exact hafter

/-! ## The state -/

/-- An item is there for the next ticket. -/
theorem state_of_lt (h : t.tickets.length < t.items.length) :
    t.state = .ready (t.items[t.tickets.length] :: t.items.drop (t.tickets.length + 1)) := by
  rw [state, if_pos (Nat.le_of_lt h), List.drop_eq_getElem_cons h]

/-- The next item goes to a latch. -/
theorem state_of_gt (hgranted : t.Granted) (h : t.items.length < t.tickets.length) :
    ∃ latch, t.tickets[t.items.length].latch? = some latch ∧
      t.state = .waiting (latch :: (t.tickets.drop (t.items.length + 1)).filterMap ItemTicket.latch?) := by
  cases hlatch : t.tickets[t.items.length].latch? with
  | none => exact absurd (hgranted _ _ (List.getElem?_eq_getElem h) hlatch) (Nat.lt_irrefl _)
  | some latch =>
    refine ⟨latch, rfl, ?_⟩
    rw [state, if_neg (Nat.not_le_of_lt h), List.drop_eq_getElem_cons h, List.filterMap_cons, hlatch]

/-- A ticket is taken while an item is there. -/
theorem state_take_of_lt (h : t.tickets.length < t.items.length) (ticket : ItemTicket) :
    (t.take ticket).state = .ready (t.items.drop (t.tickets.length + 1)) := by
  rw [state, tickets_take, items_take, List.length_append, List.length_singleton,
    if_pos (Nat.succ_le_of_lt h)]

/-- A ticket is taken while no item is there. -/
theorem state_take_of_ge (h : t.items.length ≤ t.tickets.length) {ticket : ItemTicket} {latch : DeferredId}
    (hlatch : ticket.latch? = some latch) :
    (t.take ticket).state = .waiting ((t.tickets.drop t.items.length).filterMap ItemTicket.latch? ++ [latch]) := by
  rw [state, tickets_take, items_take, List.length_append, List.length_singleton,
    if_neg (Nat.not_le_of_lt (Nat.lt_succ_of_le h)),
    List.drop_append_of_le_length h, List.filterMap_append, List.filterMap_cons, hlatch, List.filterMap_nil]

/-- An item is placed while nobody waits. -/
theorem state_place_of_le (h : t.tickets.length ≤ t.items.length) (item : Value) :
    (t.place item).state = .ready (t.items.drop t.tickets.length ++ [item]) := by
  rw [state, tickets_place, items_place, List.length_append, List.length_singleton, if_pos (Nat.le_succ_of_le h),
    List.drop_append_of_le_length h]

/-- An item is placed while somebody waits. -/
theorem state_place_of_gt (hgranted : t.Granted) (h : t.items.length < t.tickets.length) (item : Value) :
    (t.place item).state = .ofLine ((t.tickets.drop (t.items.length + 1)).filterMap ItemTicket.latch?) := by
  have hlength : (t.place item).items.length = t.items.length + 1 := List.length_append
  rw [state, hlength, tickets_place]
  rcases Nat.eq_or_lt_of_le h with heq | hlt
  · have hle : t.tickets.length ≤ t.items.length + 1 := Nat.le_of_eq heq.symm
    rw [if_pos hle, List.drop_eq_nil_of_le hle, List.drop_eq_nil_of_le (Nat.le_of_eq (hlength.trans heq))]
    rfl
  · rw [if_neg (Nat.not_le_of_lt hlt), List.drop_eq_getElem_cons hlt, List.filterMap_cons]
    -- The next ticket has a latch, so the line is not empty.
    cases hlatch : t.tickets[t.items.length + 1].latch? with
    | none => exact absurd (hgranted _ _ (List.getElem?_eq_getElem hlt) hlatch) (Nat.not_lt_of_le (Nat.le_succ _))
    | some latch => rfl

end Tally

namespace Scene

/-- What a stroke adds to the tally of a queue. -/
def tally (q : QueueId) (s : Scene) (stroke : Stroke) (t : Tally) : Tally :=
  match s.calls? stroke with
  | some (f, run, c) => t.record q f run c s.moment.world
  | none => t

end Scene

/-- A run from the time on at which a queue was made, with the tally of the queue. -/
inductive Tallied (q : QueueId) (p : Overflow) : Tally → Scene → Prop where
  | make {s : Scene} (h : s.Occurs) (stroke : Stroke) (hnone : s.moment.world.queue? q = none)
    (hmade : ((s.play stroke).moment.world.queue? q).map Queue.policy = some p) : Tallied q p {} (s.play stroke)
  | play {t : Tally} {s : Scene} (h : Tallied q p t s) (stroke : Stroke) :
    Tallied q p (s.tally q stroke t) (s.play stroke)

end FiberLoop
