import FiberLoop.Proofs.Queues.Tallies
import FiberLoop.Proofs.Queues.Trimming

/-!
# An ideal queue

An ideal queue numbers its takes. An offer goes to the take that is parked longest, if there is one. Otherwise it
comes to the buffer: a sliding buffer keeps its last items then, and a dropping buffer that is full discards the
offer. A take receives the first item of the buffer, or else is parked.

A tally is an ideal queue in another form, if its items are those that were received and, after them, those of the
buffer: the take with the k-th ticket goes with the k-th item. `IdealQueue.Mirrors` says so, and every event keeps it.
-/

namespace FiberLoop

/-- An ideal queue. -/
structure IdealQueue where
  /-- The number of takes so far. -/
  takes : Nat := 0
  /-- The takes that are parked, longest first. -/
  parked : List Nat := []
  /-- The items that nobody has taken, oldest first. -/
  buffer : List Value := []
  /-- What each take has received. -/
  given : Nat → Option Value := fun _ => none

/-- What happens to a queue. -/
inductive QueueEvent where
  | took (ticket : ItemTicket)
  | offered (item : Value)
  /-- A ticket was undone. -/
  | undone

namespace IdealQueue

/-- Append an item to a buffer: the last items are kept, or a full buffer is left as it is. -/
def absorb (p : Overflow) (buffer : List Value) (item : Value) : List Value :=
  match p with
  | .unbounded | .bounded _ => buffer ++ [item]
  | .sliding n => (buffer ++ [item]).rtake n
  | .dropping n => if n ≤ buffer.length then buffer else buffer ++ [item]

def take (m : IdealQueue) : IdealQueue :=
  match m.buffer with
  | item :: buffer =>
    { m with takes := m.takes + 1, buffer := buffer, given := Function.update m.given m.takes (some item) }
  | [] => { m with takes := m.takes + 1, parked := m.parked ++ [m.takes] }

def offer (p : Overflow) (item : Value) (m : IdealQueue) : IdealQueue :=
  match m.parked with
  | k :: parked => { m with parked := parked, given := Function.update m.given k (some item) }
  | [] => { m with buffer := absorb p m.buffer item }

def meet (p : Overflow) (m : IdealQueue) : QueueEvent → IdealQueue
  | .took _ => m.take
  | .offered item => m.offer p item
  | .undone => m

/-- The ideal queue after some events. -/
def after (p : Overflow) (log : List QueueEvent) : IdealQueue := log.foldl (meet p) {}

/-- The state of a queue whose takes wait on latches. -/
def state (latch? : Nat → Option DeferredId) (m : IdealQueue) : QueueState :=
  if m.parked = [] then .ready m.buffer else .waiting (m.parked.filterMap latch?)

section

variable {m : IdealQueue} {item : Value} {buffer : List Value} {k : Nat} {parked : List Nat}

theorem take_of_cons (h : m.buffer = item :: buffer) : m.take =
    { m with takes := m.takes + 1, buffer := buffer, given := Function.update m.given m.takes (some item) } := by
  rw [take, h]

theorem take_of_nil (h : m.buffer = []) : m.take = { m with takes := m.takes + 1, parked := m.parked ++ [m.takes] } := by
  rw [take, h]

theorem offer_of_cons (h : m.parked = k :: parked) (p : Overflow) (item : Value) :
    m.offer p item = { m with parked := parked, given := Function.update m.given k (some item) } := by
  rw [offer, h]

theorem offer_of_nil (h : m.parked = []) (p : Overflow) (item : Value) :
    m.offer p item = { m with buffer := absorb p m.buffer item } := by
  rw [offer, h]

end

/-- A buffer that respects the capacity absorbs what the policy says. -/
theorem absorb_eq_push {p : Overflow} {buffer : List Value} (h : p.Fits buffer) (item : Value) :
    absorb p buffer item = p.push buffer item := by
  cases p with
  | unbounded | bounded n => rfl
  | sliding n =>
    have htrim := Overflow.push_trim (.sliding n) buffer item
    rw [Overflow.trim_of_fits h] at htrim
    exact htrim.symm
  | dropping n =>
    simp only [absorb, Overflow.push]
    rcases Nat.lt_or_ge buffer.length n with hlt | hge
    · rw [if_pos hlt, if_neg (Nat.not_le_of_lt hlt)]
    · rw [if_neg (Nat.not_lt_of_le hge), if_pos hge]

end IdealQueue

namespace Tally

variable {p : Overflow} {t : Tally} {item : Value}

/-- An item is placed that goes with the next ticket, or comes to a buffer that absorbs it. -/
def absorb (p : Overflow) (item : Value) (t : Tally) : Tally :=
  if t.items.length < t.tickets.length then t.place item
  else { t with items := t.items.take t.tickets.length ++ IdealQueue.absorb p (t.items.drop t.tickets.length) item }

def meet (p : Overflow) (t : Tally) : QueueEvent → Tally
  | .took ticket => t.take ticket
  | .offered item => t.absorb p item
  | .undone => { t with undone := true }

/-- The tally of some events. -/
def of (p : Overflow) (log : List QueueEvent) : Tally := log.foldl (meet p) {}

theorem of_concat (p : Overflow) (log : List QueueEvent) (e : QueueEvent) : of p (log ++ [e]) = (of p log).meet p e :=
  List.foldl_concat ..

theorem absorb_of_gt (h : t.items.length < t.tickets.length) : t.absorb p item = t.place item := if_pos h

theorem absorb_of_le (h : t.tickets.length ≤ t.items.length) : t.absorb p item =
    { t with items := t.items.take t.tickets.length ++ IdealQueue.absorb p (t.items.drop t.tickets.length) item } :=
  if_neg (Nat.not_lt_of_le h)

theorem tickets_absorb (p : Overflow) (item : Value) (t : Tally) : (t.absorb p item).tickets = t.tickets := by
  unfold absorb
  split <;> rfl

/-- The item that goes with a ticket does not change. -/
theorem getElem?_absorb {k : Nat} (h : t.tickets.length ≤ t.items.length) (hk : k < t.tickets.length) :
    (t.absorb p item).items[k]? = t.items[k]? := by
  have hlength : k < (t.items.take t.tickets.length).length := by
    rw [List.length_take_of_le h]
    exact hk
  rw [absorb_of_le h, List.getElem?_append_left hlength, List.getElem?_take_of_lt hk]

theorem length_absorb (h : t.tickets.length ≤ t.items.length) : t.tickets.length ≤ (t.absorb p item).items.length := by
  rw [absorb_of_le h, List.length_append, List.length_take_of_le h]
  exact Nat.le_add_right _ _

theorem drop_absorb (h : t.tickets.length ≤ t.items.length) :
    (t.absorb p item).items.drop t.tickets.length = IdealQueue.absorb p (t.items.drop t.tickets.length) item := by
  rw [absorb_of_le h]
  exact List.drop_left' (List.length_take_of_le h)

end Tally

namespace IdealQueue

variable {p : Overflow} {t : Tally} {m : IdealQueue} {log : List QueueEvent}

/-- An ideal queue is what a tally says. -/
structure Mirrors (t : Tally) (m : IdealQueue) : Prop where
  takes : m.takes = t.tickets.length
  parked : m.parked = List.range' t.items.length (t.tickets.length - t.items.length)
  buffer : m.buffer = t.items.drop t.tickets.length
  given : ∀ k, m.given k = if k < t.tickets.length then t.items[k]? else none

theorem Mirrors.take (h : m.Mirrors t) (ticket : ItemTicket) : m.take.Mirrors (t.take ticket) := by
  have hlength : (t.take ticket).tickets.length = t.tickets.length + 1 := List.length_append
  rcases Nat.lt_or_ge t.tickets.length t.items.length with hlt | hge
  · have hparked : m.parked = [] := by rw [h.parked, Nat.sub_eq_zero_of_le (Nat.le_of_lt hlt), List.range'_zero]
    rw [take_of_cons (h.buffer.trans (List.drop_eq_getElem_cons hlt))]
    refine ⟨?_, ?_, ?_, fun k => ?_⟩
    · rw [hlength, h.takes]
    · rw [hlength, Tally.items_take, Nat.sub_eq_zero_of_le hlt]
      exact hparked
    · rw [hlength]
      rfl
    · rw [hlength, Tally.items_take, h.takes]
      dsimp only
      rcases Nat.lt_trichotomy k t.tickets.length with hbefore | rfl | hafter
      · rw [Function.update_of_ne (Nat.ne_of_lt hbefore), h.given, if_pos hbefore, if_pos (Nat.lt_succ_of_lt hbefore)]
      · rw [Function.update_self, if_pos (Nat.lt_succ_self _), List.getElem?_eq_getElem hlt]
      · rw [Function.update_of_ne (Nat.ne_of_gt hafter), h.given, if_neg (Nat.lt_asymm hafter),
          if_neg (Nat.not_lt_of_le hafter)]
  · have hempty := h.buffer.trans (List.drop_eq_nil_of_le hge)
    rw [take_of_nil hempty]
    refine ⟨?_, ?_, ?_, fun k => ?_⟩
    · rw [hlength, h.takes]
    · rw [hlength, Tally.items_take, Nat.succ_sub hge, List.range'_1_concat, h.parked, h.takes, Nat.add_sub_of_le hge]
    · rw [hlength, Tally.items_take, List.drop_eq_nil_of_le (Nat.le_succ_of_le hge)]
      exact hempty
    · rw [hlength, Tally.items_take, h.given]
      rcases Nat.lt_trichotomy k t.tickets.length with hbefore | rfl | hafter
      · rw [if_pos hbefore, if_pos (Nat.lt_succ_of_lt hbefore)]
      · rw [if_neg (Nat.lt_irrefl _), if_pos (Nat.lt_succ_self _), List.getElem?_eq_none hge]
      · rw [if_neg (Nat.lt_asymm hafter), if_neg (Nat.not_lt_of_le hafter)]

theorem Mirrors.offer (h : m.Mirrors t) (p : Overflow) (item : Value) : (m.offer p item).Mirrors (t.absorb p item) := by
  rcases Nat.lt_or_ge t.items.length t.tickets.length with hlt | hge
  · have hlength : (t.place item).items.length = t.items.length + 1 := List.length_append
    have hparked : m.parked =
        t.items.length :: List.range' (t.items.length + 1) (t.tickets.length - (t.items.length + 1)) := by
      rw [h.parked, ← List.range'_succ, Nat.sub_add_eq, Nat.sub_add_cancel (Nat.sub_pos_of_lt hlt)]
    rw [offer_of_cons hparked, Tally.absorb_of_gt hlt]
    refine ⟨h.takes, ?_, ?_, fun k => ?_⟩
    · rw [hlength, Tally.tickets_place]
    · rw [Tally.tickets_place, List.drop_eq_nil_of_le (hlength ▸ hlt)]
      exact h.buffer.trans (List.drop_eq_nil_of_le (Nat.le_of_lt hlt))
    · rw [Tally.tickets_place, Tally.items_place]
      dsimp only
      rcases Nat.lt_trichotomy k t.items.length with hbefore | rfl | hafter
      · rw [Function.update_of_ne (Nat.ne_of_lt hbefore), h.given, List.getElem?_append_left hbefore]
      · rw [Function.update_self, if_pos hlt, List.getElem?_concat_length]
      · have hlast : (t.items ++ [item]).length ≤ k := List.length_append ▸ hafter
        rw [Function.update_of_ne (Nat.ne_of_gt hafter), h.given, List.getElem?_eq_none (Nat.le_of_lt hafter),
          List.getElem?_eq_none hlast]
  · have hlength : t.tickets.length ≤ (t.absorb p item).items.length := Tally.length_absorb hge
    have hparked : m.parked = [] := by rw [h.parked, Nat.sub_eq_zero_of_le hge, List.range'_zero]
    rw [offer_of_nil hparked]
    refine ⟨?_, ?_, ?_, fun k => ?_⟩
    · rw [Tally.tickets_absorb, h.takes]
    · rw [Tally.tickets_absorb, Nat.sub_eq_zero_of_le hlength]
      exact hparked
    · rw [Tally.tickets_absorb, Tally.drop_absorb hge, ← h.buffer]
    · rw [Tally.tickets_absorb, h.given]
      by_cases hk : k < t.tickets.length
      · rw [if_pos hk, if_pos hk, Tally.getElem?_absorb hge hk]
      · rw [if_neg hk, if_neg hk]

/-- **After any events the ideal queue is what their tally says.** -/
theorem mirrors (p : Overflow) (log : List QueueEvent) : (after p log).Mirrors (.of p log) := by
  induction log using List.reverseRecOn with
  | nil => exact ⟨rfl, rfl, rfl, fun _ => (if_neg (Nat.not_lt_zero _)).symm⟩
  | append_singleton log e ih =>
    have hafter : after p (log ++ [e]) = (after p log).meet p e := List.foldl_concat ..
    rw [hafter, Tally.of_concat]
    cases e with
    | took ticket => exact ih.take ticket
    | offered item => exact ih.offer p item
    | undone => exact ⟨ih.takes, ih.parked, ih.buffer, ih.given⟩

/-- The end of a list, entry by entry. -/
theorem filterMap_range' {α : Type} {l : List α} {start n : Nat} (h : start + n = l.length) :
    (List.range' start n).filterMap (l[·]?) = l.drop start := by
  induction n generalizing start with
  | zero => exact (List.drop_eq_nil_of_le (Nat.le_of_eq h.symm)).symm
  | succ n ih =>
    have hlt : start < l.length := by omega
    rw [List.range'_succ, List.filterMap_cons, List.getElem?_eq_getElem hlt, List.drop_eq_getElem_cons hlt,
      ih (by omega)]

/-- The state of the ideal queue is the state that the tally determines. -/
theorem Mirrors.state_eq (h : m.Mirrors t) : m.state (fun k => t.tickets[k]?.bind ItemTicket.latch?) = t.state := by
  unfold IdealQueue.state Tally.state
  rcases Nat.lt_or_ge t.items.length t.tickets.length with hlt | hge
  · have hparked : m.parked ≠ [] := by
      rw [h.parked, List.range'_ne_nil_iff]
      exact Nat.sub_ne_zero_of_lt hlt
    rw [if_neg hparked, if_neg (Nat.not_le_of_lt hlt), h.parked]
    congr 1
    -- The takes that are parked are those with the tickets beyond the items.
    rw [← filterMap_range' (Nat.add_sub_of_le (Nat.le_of_lt hlt)), List.filterMap_filterMap]
  · have hparked : m.parked = [] := by rw [h.parked, Nat.sub_eq_zero_of_le hge, List.range'_zero]
    rw [if_pos hparked, if_pos hge, h.buffer]

end IdealQueue

end FiberLoop
