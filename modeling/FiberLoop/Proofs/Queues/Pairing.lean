import FiberLoop.Proofs.Permits.Fairness
import FiberLoop.Proofs.Queues.Handing

/-!
# Who receives which item

In a run in which no ticket is undone, the take with the k-th ticket receives the k-th item, whether it found the item
or waited for it, and those who wait go on in the order of their tickets.

The main result of this module is `Tallied.paired`.
-/

namespace FiberLoop

open World

variable {q : QueueId} {p : Overflow} {t : Tally} {b : Books} {s : Scene} {stroke : Stroke} {strokes : List Stroke}
  {f g : FiberId} {run run' : Run} {item v : Value} {l l' : DeferredId} {k : Nat} {ticket : ItemTicket} {T : Take}
  {x : Exit Value Value} {home home' : LoopName} {key key' : Nat}

theorem Overflow.isLossless_iff : p.isLossless = true ↔ p = .unbounded ∨ ∃ n, p = .bounded n := by
  cases p with
  | unbounded => exact ⟨fun _ => Or.inl rfl, fun _ => rfl⟩
  | bounded n => exact ⟨fun _ => Or.inr ⟨n, rfl⟩, fun _ => rfl⟩
  | sliding n | dropping n => exact ⟨nofun, by rintro (⟨⟨⟩⟩ | ⟨_, ⟨⟩⟩)⟩

/-! ## Tallies grow -/

namespace Tally

variable {t' : Tally}

/-- Tickets and items are only added. -/
structure Grows (t t' : Tally) : Prop where
  tickets : t.tickets <+: t'.tickets
  items : t.items <+: t'.items
  length : t'.items.length ≤ t.items.length + 1
  undone : t'.undone = false → t.undone = false

theorem Grows.refl (t : Tally) : t.Grows t := ⟨List.prefix_rfl, List.prefix_rfl, Nat.le_succ _, id⟩

theorem grows_take (ticket : ItemTicket) (t : Tally) : t.Grows (t.take ticket) :=
  ⟨List.prefix_append .., List.prefix_rfl, Nat.le_succ _, id⟩

theorem grows_place (item : Value) (t : Tally) : t.Grows (t.place item) :=
  ⟨List.prefix_rfl, List.prefix_append .., Nat.le_of_eq List.length_append, id⟩

theorem grows_record (q : QueueId) (f : FiberId) (run : Run) (c : Call) (w : World) (t : Tally) :
    t.Grows (t.record q f run c w) := by
  have hundo : t.Grows { t with undone := true } := ⟨List.prefix_rfl, List.prefix_rfl, Nat.le_succ _, nofun⟩
  unfold record
  split
  · split
    · exact grows_take _ t
    · exact .refl t
  · split
    · exact grows_place _ t
    · exact .refl t
  · split
    · exact hundo
    · exact .refl t
  · split
    · exact hundo
    · exact .refl t
  · exact .refl t

theorem Grows.ticket_at (h : t.Grows t') (hk : t.tickets[k]? = some ticket) : t'.tickets[k]? = some ticket := by
  obtain ⟨more, hmore⟩ := h.tickets
  rw [← hmore, List.getElem?_append_left (List.getElem?_eq_some_iff.1 hk).1]
  exact hk

theorem Grows.item_at (h : t.Grows t') (hk : t.items[k]? = some v) : t'.items[k]? = some v := by
  obtain ⟨more, hmore⟩ := h.items
  rw [← hmore, List.getElem?_append_left (List.getElem?_eq_some_iff.1 hk).1]
  exact hk

end Tally

namespace Scene

theorem tally_grows (q : QueueId) (s : Scene) (stroke : Stroke) (t : Tally) : t.Grows (s.tally q stroke t) := by
  unfold tally
  split
  · exact Tally.grows_record ..
  · exact .refl t

/-- The tally after some strokes. -/
def tallies (q : QueueId) (s : Scene) : List Stroke → Tally → Tally
  | [], t => t
  | stroke :: rest, t => (s.play stroke).tallies q rest (s.tally q stroke t)

theorem undone_of_tallies (h : (s.tallies q strokes t).undone = false) : t.undone = false := by
  induction strokes generalizing s t with
  | nil => exact h
  | cons stroke rest ih => exact (s.tally_grows q stroke t).undone (ih h)

theorem item_tallies (hk : t.items[k]? = some v) (strokes : List Stroke) :
    (s.tallies q strokes t).items[k]? = some v := by
  induction strokes generalizing s t with
  | nil => exact hk
  | cons stroke rest ih => exact ih ((s.tally_grows q stroke t).item_at hk)

/-- Who undoes a ticket is tallied. -/
theorem undone_tally_of_undo {T : Take} (hcalls : s.calls? stroke = some (f, run, .thunk (.perform T.undo)))
    (hqueue : T.queue = q) : (s.tally q stroke t).undone = true := by
  subst hqueue
  simp only [tally, hcalls]
  cases hdraw : T.draw with
  | item v => simp only [Take.undo, hdraw, Tally.record, if_true]
  | latch l => simp only [Take.undo, hdraw, Tally.record, if_true]

end Scene

theorem Tallied.after (h : Tallied q p t s) (strokes : List Stroke) :
    Tallied q p (s.tallies q strokes t) (s.after strokes) := by
  induction strokes generalizing s t with
  | nil => exact h
  | cons stroke rest ih => exact ih (h.play stroke)

theorem Scene.Occurs.tallied_after (h : s.Occurs)
    (hs : (s.moment.world.queue? q).isSome = true → ∃ p t, Tallied q p t s) (strokes : List Stroke)
    (hq : ((s.after strokes).moment.world.queue? q).isSome = true) : ∃ p t, Tallied q p t (s.after strokes) := by
  induction strokes generalizing s with
  | nil => exact hs hq
  | cons stroke rest ih =>
    refine ih (h.after [stroke]) (fun hplay => ?_) hq
    cases hrow : s.moment.world.queue? q with
    | none =>
      obtain ⟨row, hrow'⟩ := Option.isSome_iff_exists.1 hplay
      exact ⟨row.policy, {}, .make h stroke hrow (congrArg (Option.map Queue.policy) hrow')⟩
    | some row =>
      obtain ⟨p, t, htallied⟩ := hs (Option.isSome_of_eq_some hrow)
      exact ⟨p, _, htallied.play stroke⟩

/-- Every queue that is there has a tally. -/
theorem Scene.Occurs.tallied (h : s.Occurs) (hq : (s.moment.world.queue? q).isSome = true) : ∃ p t, Tallied q p t s := by
  obtain ⟨config, definitions, strokes, rfl⟩ := h
  exact (Scene.Occurs.initial config definitions).tallied_after (by rintro ⟨⟩) strokes hq

/-! ## What a stroke does to a latch -/

namespace Scene

/-- A stroke that undoes no ticket takes one, places an item or does neither. -/
theorem tally_cases (hundone : (s.tally q stroke t).undone = false) :
    s.tally q stroke t = t ∨
      (∃ f run, s.calls? stroke = some (f, run, .thunk (.perform (.requestItem q))) ∧
        (s.tally q stroke t).items = t.items) ∨
      ∃ f run item, s.calls? stroke = some (f, run, .thunk (.perform (.offerItem q item))) ∧
        s.tally q stroke t = t.place item := by
  cases hcalls : s.calls? stroke with
  | none => exact Or.inl (by simp only [tally, hcalls])
  | some call =>
    obtain ⟨f, run, c⟩ := call
    have htally : s.tally q stroke t = t.record q f run c s.moment.world := by simp only [tally, hcalls]
    rw [htally] at hundone ⊢
    by_cases huses : c.uses q
    · rcases Tally.cases_of_uses huses hundone with rfl | ⟨item, rfl⟩
      · exact Or.inr (Or.inl ⟨f, run, rfl, by simp only [Tally.record, if_true, Tally.items_take]⟩)
      · exact Or.inr (Or.inr ⟨f, run, item, rfl, by simp only [Tally.record, if_true]⟩)
    · exact Or.inl (Tally.record_of_not_uses huses)

end Scene

/-- A stroke that undoes no ticket hands items over. -/
theorem Matched.hands (h : Matched q p t b s) (hp : p.isLossless = true)
    (hundone : (s.tally q stroke t).undone = false) : Hands q p t (s.tally q stroke t) s stroke where
  before := ⟨b, h⟩
  after := ⟨_, h.play hp stroke hundone⟩
  tickets := (s.tally_grows q stroke t).tickets
  items k hk := by
    rcases Scene.tally_cases hundone with hsame | ⟨g, run, -, hsame⟩ | ⟨g, run, item, hcalls, hplaced⟩
    · exact Or.inl (by rw [hsame])
    · exact Or.inl (by rw [hsame])
    · rw [hplaced]
      exact (Tally.getElem?_place item t k).imp_right fun ⟨he, hitem⟩ => ⟨he, g, run, item, hcalls, hitem⟩

/-! ## What a take receives -/

/-- **A take receives the item that goes with its ticket**: it is still under way, or it has gone on with that item. -/
theorem Tallied.receives_of_underway (h : Tallied q p t s) (hp : p.isLossless = true) (strokes : List Stroke)
    (hundone : (s.tallies q strokes t).undone = false) {got : Value → Prop}
    (hgot : ∀ v, (s.tallies q strokes t).items[k]? = some v → got v) (hqueue : T.queue = q)
    (hk : t.tickets[k]? = some ticket) (hlatch : ticket.latch? = T.draw.latch?)
    (hitem : ∀ v, T.draw = .item v → got v) (hunderway : T.Underway f got s) :
    T.Underway f got (s.after strokes) ∨ ∃ before rest left v, strokes = before ++ rest ∧ got v ∧
      (s.after before).moment.activity = .running f left ⟨T.base, .value v⟩ := by
  -- What holds of each scene and the strokes that follow it.
  let I (s : Scene) (strokes : List Stroke) : Prop := ∃ t, Tallied q p t s ∧ (s.tallies q strokes t).undone = false ∧
    (∀ v, (s.tallies q strokes t).items[k]? = some v → got v) ∧ t.tickets[k]? = some ticket
  refine hunderway.after (I := I) ?_ hitem ⟨t, h, hundone, hgot, hk⟩
  rintro s stroke rest ⟨t, h, hundone, hgot, hk⟩
  have hnext : (s.tally q stroke t).undone = false := Scene.undone_of_tallies hundone
  obtain ⟨b, hmatched⟩ := h.matched hp ((s.tally_grows q stroke t).undone hnext)
  refine ⟨hmatched.occurs, fun l hdraw => ?_, fun run hcalls => ?_, _, h.play stroke, hundone, hgot,
    (s.tally_grows q stroke t).ticket_at hk⟩
  · exact (hmatched.hands hp hnext).serves hk (hlatch.trans (congrArg Draw.latch? hdraw))
      fun v hv => hgot v (Scene.item_tallies hv rest)
  · rw [Scene.undone_tally_of_undo hcalls hqueue] at hnext
    cases hnext

/-- A take that takes its ticket is under way. -/
theorem Matched.begins {base : Run} (h : Matched q p t b s)
    (hcalls : s.calls? stroke = some (f, Take.asked base, .thunk (.perform (.requestItem q)))) :
    ∃ T : Take, T.base = base ∧ T.queue = q ∧
      (s.tally q stroke t).tickets[t.tickets.length]? =
        some { fiber := f, run := Take.asked base, latch? := T.draw.latch? } ∧
      (∀ v, T.draw = .item v → (s.tally q stroke t).items[t.tickets.length]? = some v) ∧
      ∀ got, T.Underway f got (s.play stroke) := by
  obtain ⟨row, hrow, -, hstate⟩ := h.row
  obtain ⟨left, hmoment, -⟩ := Scene.moment_of_calls? hcalls
  have hafter : (s.play stroke).Occurs := h.occurs.after [stroke]
  have hgiven {T : Take} (hbase : T.base = base) (hvalue : (s.moment.world.requestItem q).1 = T.ticket)
      (got : Value → Prop) : T.Underway f got (s.play stroke) := by
    have hactivity : (s.play stroke).moment.activity = .running f left ⟨Take.asked T.base, .value T.ticket⟩ := by
      rw [hmoment, hbase, ← hvalue]
      rfl
    exact .of_activity hafter hactivity .given
  have hstate? := (queueState?_of_row hrow).trans (congrArg some hstate)
  rcases Nat.lt_or_ge t.tickets.length t.items.length with hlt | hge
  · have hready := hstate?.trans (congrArg some (Tally.state_of_lt hlt))
    have hnext : s.moment.world.nextItem? q = some t.items[t.tickets.length] := by rw [nextItem?, hready]
    rw [tally_of_next hcalls hnext]
    refine ⟨⟨base, q, .item t.items[t.tickets.length]⟩, rfl, rfl, List.getElem?_concat_length, ?_, hgiven rfl ?_⟩
    · rintro v ⟨⟩
      exact List.getElem?_eq_getElem hlt
    · rw [requestItem_of_next hready]
      rfl
  · have hnext : s.moment.world.nextItem? q = none := by
      rw [nextItem?, hstate?]
      rcases Nat.eq_or_lt_of_le hge with heq | hlt
      · rw [Tally.state, if_pos (Nat.le_of_eq heq.symm), List.drop_eq_nil_of_le (Nat.le_of_eq heq)]
      · rw [Tally.state, if_neg (Nat.not_le_of_lt hlt)]
    rw [tally_of_none hcalls hnext]
    refine ⟨⟨base, q, .latch s.moment.world.makeDeferred.1⟩, rfl, rfl, List.getElem?_concat_length, ?_, hgiven rfl ?_⟩
    · rintro v ⟨⟩
    · rw [requestItem_of_none hstate? hnext]
      rfl

/-! ## Who goes on first -/

/-- A deferred is pending while a fiber is parked on it. -/
theorem Scene.Occurs.pending_of_asleep {d : DeferredId} (h : s.Occurs)
    (hasleep : s.moment.world.Asleep f home run (.waiter d key)) : s.moment.world.pollDeferred d = none := by
  obtain ⟨next, hrow⟩ := pending_of_mem_line (h.tidy.mem_line_of_asleep hasleep)
  rw [pollDeferred, hrow]
  rfl

theorem Scene.Occurs.waits_of_asleep {d : DeferredId} (h : s.Occurs)
    (hasleep : s.moment.world.Asleep f home run (.waiter d key)) : s.Waits f run d := by
  obtain ⟨p, hp, hstanding, -⟩ := h.tidy.parked hasleep
  have hsits : p.standing.Sits run d key := hstanding ▸ .parked
  exact .seated hp hsits (h.pending_of_asleep hasleep)

/-- Whoever goes on with a value after a wait was given it. -/
theorem Scene.Waits.poll_of_ready {d : DeferredId} {place : Place} (h : s.Waits f run d)
    (hplace : Fits f (s.moment.view f) place) (hready : place.standing = .ready ⟨run, .ofExit (.value v)⟩) :
    s.moment.world.pollDeferred d = some (.value v) := by
  cases h with
  | joining ha =>
    obtain ⟨⟨early, hstanding⟩, -⟩ := (hplace.held_of_activity ha rfl).of_registering
    cases hstanding.symm.trans hready
  | given ha =>
    obtain ⟨⟨early, hstanding⟩, -⟩ := (hplace.held_of_activity ha rfl).of_returning
    cases hstanding.symm.trans hready
  | seated hp hsits =>
    rw [hplace.ready_unique hp hready] at hsits
    cases hsits
  | unwinding hp hstanding => cases hstanding.symm.trans (hplace.ready_unique hp hready)
  | @ended p x hp hstanding hx =>
    have hnext : Next.ofExit x = .ofExit (.value v) :=
      congrArg Stand.next (Standing.ready.inj (hstanding.symm.trans (hplace.ready_unique hp hready)))
    cases x with
    | cause c => cases hnext
    | value w =>
      cases hnext
      exact hx.resolve_right nofun

/-- A fiber that rests takes no step. -/
theorem World.Rests.stepper?_ne {canceler : Canceler} (hrests : s.moment.world.Rests f home run canceler) (h : s.Occurs)
    (stroke : Stroke) : s.stepper? stroke ≠ some f := by
  intro hstep
  obtain ⟨-, left, stand, ha⟩ := Scene.of_stepper? hstep
  obtain ⟨p, hp⟩ := h.fits hrests
  exact hrests.inactive hp (by rw [ha]; rfl)

section Order

variable {first second : ItemTicket} {j : Nat} {canceler : Canceler}

/-- While the fiber with the earlier ticket is parked, the fiber with the later one waits on, and its latch is pending
after the next stroke. -/
theorem Matched.waits_on (h : Matched q p t b s) (hp : p.isLossless = true)
    (hundone : (s.tally q stroke t).undone = false) (hjk : j < k) (hj : t.tickets[j]? = some first)
    (hk : t.tickets[k]? = some second) (hl : first.latch? = some l) (hl' : second.latch? = some l')
    (hasleep : s.moment.world.Asleep f home run (.waiter l key)) (hwaits : s.Waits g run' l')
    (hrests : s.moment.world.Rests g home' run' canceler) :
    (s.play stroke).Waits g run' l' ∧ (s.play stroke).moment.world.pollDeferred l' = none := by
  have hserves : Take.Serves (fun _ => True) s stroke l' := (h.hands hp hundone).serves hk hl' fun _ _ => trivial
  refine ⟨h.occurs.waits_play hwaits stroke hserves.made (hrests.stepper?_ne h.occurs stroke)
    fun x hpending hdone => ?_, ?_⟩
  · obtain ⟨hrunning, hroused⟩ := hserves.rouses x hpending hdone
    exact ⟨hrunning, fun home key => hroused g home run' key⟩
  · have hbefore := h.length_le_of_pending hj hl (h.occurs.pending_of_asleep hasleep)
    have hafter := (s.tally_grows q stroke t).length
    have hexit : (s.play stroke).moment.world.pollDeferred l' = ((s.tally q stroke t).items[k]?).map .value :=
      (h.play hp stroke hundone).latched k second l' ((s.tally_grows q stroke t).ticket_at hk) hl'
    rw [hexit, List.getElem?_eq_none (by omega)]
    rfl

variable (hp : p.isLossless = true) (hjk : j < k) (hl : first.latch? = some l) (hl' : second.latch? = some l')
include hp hjk hl hl'

/-- Of two takes that are parked the one with the earlier ticket is roused first. -/
theorem Tallied.roused_first (h : Tallied q p t s) (hundone : (s.tallies q strokes t).undone = false)
    (hj : t.tickets[j]? = some first) (hk : t.tickets[k]? = some second)
    (hasleep : s.moment.world.Asleep f home run (.waiter l key)) (hwaits : s.Waits g run' l')
    (hresumes : s.Resumes g home' run' canceler (.value v) strokes) :
    s.Before (fun later => ¬ later.moment.world.Asleep f home run (.waiter l key)) strokes := by
  induction hresumes generalizing t with
  | @goes s stroke left hrests hgoes =>
    obtain ⟨b, hmatched⟩ := h.matched hp ((s.tally_grows q stroke t).undone hundone)
    obtain ⟨hwaits', hpending⟩ := hmatched.waits_on hp hundone hjk hj hk hl hl' hasleep hwaits hrests
    obtain ⟨place, hplace, hready⟩ := (hmatched.occurs.after [stroke]).ready_of_activity hgoes
    cases hpending.symm.trans (hwaits'.poll_of_ready hplace hready)
  | @waits s stroke rest hrests hlater ih =>
    have hnext : (s.tally q stroke t).undone = false := Scene.undone_of_tallies hundone
    obtain ⟨b, hmatched⟩ := h.matched hp ((s.tally_grows q stroke t).undone hnext)
    obtain ⟨hwaits', -⟩ := hmatched.waits_on hp hnext hjk hj hk hl hl' hasleep hwaits hrests
    have hgrows := s.tally_grows q stroke t
    by_cases hstill : (s.play stroke).moment.world.Asleep f home run (.waiter l key)
    · exact (ih (h.play stroke) hundone (hgrows.ticket_at hj) (hgrows.ticket_at hk) hstill hwaits').cons
    · exact .first hlater.ne_nil hstill

/-- **Of two takes that are parked the one with the earlier ticket goes on first**, if both live on one loop. -/
theorem Tallied.goesOn_first (h : Tallied q p t s) (hundone : (s.tallies q strokes t).undone = false) (hfg : f ≠ g)
    (hj : t.tickets[j]? = some first) (hk : t.tickets[k]? = some second)
    (hasleep : s.moment.world.Asleep f home run (.waiter l key)) (hwaits : s.Waits g run' l')
    (hresumes : s.Resumes g home run' canceler (.value v) strokes) :
    s.Before (·.moment.activity.GoesOn f run (.waiter l key)) strokes := by
  induction hresumes generalizing t with
  | @goes s stroke left hrests hgoes =>
    obtain ⟨b, hmatched⟩ := h.matched hp ((s.tally_grows q stroke t).undone hundone)
    obtain ⟨hwaits', hpending⟩ := hmatched.waits_on hp hundone hjk hj hk hl hl' hasleep hwaits hrests
    obtain ⟨place, hplace, hready⟩ := (hmatched.occurs.after [stroke]).ready_of_activity hgoes
    cases hpending.symm.trans (hwaits'.poll_of_ready hplace hready)
  | @waits s stroke rest hrests hlater ih =>
    have hnext : (s.tally q stroke t).undone = false := Scene.undone_of_tallies hundone
    obtain ⟨b, hmatched⟩ := h.matched hp ((s.tally_grows q stroke t).undone hnext)
    obtain ⟨hwaits', hpending⟩ := hmatched.waits_on hp hnext hjk hj hk hl hl' hasleep hwaits hrests
    have hgrows := s.tally_grows q stroke t
    have ho := hmatched.occurs
    obtain ⟨place, hfits⟩ := ho.fits (.asleep hasleep)
    rcases (ho.turn stroke).rests (.asleep hasleep) hfits with hrests' | hgoes
    · cases hrests' with
      | asleep hstill =>
        exact (ih (h.play stroke) hundone (hgrows.ticket_at hj) (hgrows.ticket_at hk) hstill hwaits').cons
      | @roused task htask hwaiting =>
        have hother : .task (.resume g run' (.ofExit (.value v))) ∉ ((s.play stroke).moment.world.loopAt home).inbox := by
          intro hmem
          obtain ⟨place, hplace⟩ := (ho.after [stroke]).fits (.roused (@Task.Rouses.resume g run' canceler (.value v)) hmem)
          cases hpending.symm.trans (hwaits'.poll_of_ready hplace (hplace.ready_of_task hmem))
        obtain ⟨before, after, hinbox⟩ := List.append_of_mem hwaiting
        have hahead : (s.play stroke).moment.world.Ahead home task (.resume g run' (.ofExit (.value v))) :=
          ⟨before, after, hinbox, fun hmem => hother (hinbox ▸ List.mem_append_left _ hmem)⟩
        exact (hlater.of_ahead (ho.after [stroke]) hfg htask hahead).cons
    · exact .first hlater.ne_nil hgoes

end Order

/-! ## All together -/

/-- How a queue that keeps every item pairs takes and items, as long as no ticket is undone. -/
structure Paired (q : QueueId) (t : Tally) (s : Scene) : Prop where
  /-- The queue holds the items beyond the number of tickets, or the latches of the tickets beyond the number of items,
  oldest first. -/
  state : ∃ row, s.moment.world.queue? q = some row ∧ row.state = t.state
  /-- The take that takes the k-th ticket receives the k-th item: whatever happens then, it is under way or has gone on
  with that item. -/
  receives : ∀ f base stroke strokes, s.calls? stroke = some (f, Take.asked base, .thunk (.perform (.requestItem q))) →
    (s.tallies q (stroke :: strokes) t).undone = false →
      (∃ T : Take, T.base = base ∧ T.queue = q ∧
        T.Underway f (fun v => (s.tallies q (stroke :: strokes) t).items[t.tickets.length]? = some v)
          (s.after (stroke :: strokes))) ∨
      ∃ before rest left v, strokes = before ++ rest ∧
        (s.tallies q (stroke :: strokes) t).items[t.tickets.length]? = some v ∧
        ((s.play stroke).after before).moment.activity = .running f left ⟨base, .value v⟩
  /-- Who waits for the latch of a ticket is parked only until the item that goes with the ticket is there. -/
  parked : ∀ k ticket l f home run key, t.tickets[k]? = some ticket → ticket.latch? = some l →
    s.moment.world.Asleep f home run (.waiter l key) → t.items.length ≤ k
  /-- The offer of that item rouses who is parked, and hands the item over. -/
  handed : ∀ stroke g run item ticket l, s.calls? stroke = some (g, run, .thunk (.perform (.offerItem q item))) →
    t.tickets[t.items.length]? = some ticket → ticket.latch? = some l →
      ∀ f home run key, s.moment.world.Asleep f home run (.waiter l key) →
        .task (.resume f run (.value item)) ∈ ((s.play stroke).moment.world.loopAt home).inbox
  /-- Of two takes that are parked the one with the earlier ticket is roused first. -/
  roused : ∀ (j k : Nat) (first second : ItemTicket) l l' f g home home' run run' key key' canceler v strokes, j < k →
    t.tickets[j]? = some first → t.tickets[k]? = some second → first.latch? = some l → second.latch? = some l' →
      s.moment.world.Asleep f home run (.waiter l key) → s.moment.world.Asleep g home' run' (.waiter l' key') →
        s.Resumes g home' run' canceler (.value v) strokes → (s.tallies q strokes t).undone = false →
          s.Before (fun later => ¬ later.moment.world.Asleep f home run (.waiter l key)) strokes
  /-- If both live on one loop, it goes on first. -/
  first : ∀ (j k : Nat) (first second : ItemTicket) l l' f g home run run' key key' canceler v strokes, j < k → f ≠ g →
    t.tickets[j]? = some first → t.tickets[k]? = some second → first.latch? = some l → second.latch? = some l' →
      s.moment.world.Asleep f home run (.waiter l key) → s.moment.world.Asleep g home run' (.waiter l' key') →
        s.Resumes g home run' canceler (.value v) strokes → (s.tallies q strokes t).undone = false →
          s.Before (·.moment.activity.GoesOn f run (.waiter l key)) strokes

/-- **The k-th take to take its ticket receives the k-th item that is placed**, and those who wait go on in the order of
their tickets, in every run of a queue that keeps every item in which no ticket is undone. -/
theorem Tallied.paired (h : Tallied q p t s) (hp : p = .unbounded ∨ ∃ n, p = .bounded n) (hundone : t.undone = false) :
    Paired q t s := by
  have hlossless := Overflow.isLossless_iff.2 hp
  obtain ⟨b, hmatched⟩ := h.matched hlossless hundone
  have ho := hmatched.occurs
  refine {
    state := ?_
    receives := fun f base stroke strokes hcalls hlater => ?_
    parked := fun k ticket l f home run key hk hl hasleep =>
      hmatched.length_le_of_pending hk hl (ho.pending_of_asleep hasleep)
    handed := fun stroke g run item ticket l hcalls hk hl f home run' key hasleep => ?_
    roused := ?_
    first := ?_ }
  · obtain ⟨row, hrow, -, hstate⟩ := hmatched.row
    exact ⟨row, hrow, hstate⟩
  · obtain ⟨T, rfl, hqueue, hk, hitem, hunderway⟩ := hmatched.begins hcalls
    rcases (h.play stroke).receives_of_underway hlossless strokes hlater (fun v => id) hqueue hk rfl
      (fun v hdraw => Scene.item_tallies (hitem v hdraw) strokes) (hunderway _) with hstill | hgone
    · exact Or.inl ⟨T, rfl, hqueue, hstill⟩
    · exact Or.inr hgone
  · have htally : s.tally q stroke t = t.place item := Matched.tally_of_offer hcalls
    have hkept : (s.tally q stroke t).undone = false := htally ▸ hundone
    have hpending := ho.pending_of_asleep hasleep
    have hdone : (s.play stroke).moment.world.pollDeferred l = some (.value item) := by
      have hexit := (hmatched.play hlossless stroke hkept).latched _ ticket l ((s.tally_grows q stroke t).ticket_at hk) hl
      rw [htally, Tally.items_place, List.getElem?_concat_length] at hexit
      exact hexit
    exact ((hmatched.hands hlossless hkept).rouses hk hl hpending hdone).2 f home run' key hasleep
  · rintro j k first second l l' f g home home' run run' key key' canceler v strokes hjk hj hk hl hl' hf hg hresumes hlater
    exact h.roused_first hlossless hjk hl hl' hlater hj hk hf (ho.waits_of_asleep hg) hresumes
  · rintro j k first second l l' f g home run run' key key' canceler v strokes hjk hfg hj hk hl hl' hf hg hresumes hlater
    exact h.goesOn_first hlossless hjk hl hl' hlater hfg hj hk hf (ho.waits_of_asleep hg) hresumes

/-- The scene at which a queue was just made. -/
def opened : Scene := (Scene.initial {} []).play (.demand (.scenario (.newQueue "q" .unbounded)))

/-- Two fibers take from the queue, and both are parked. -/
def queued : List Stroke :=
  [.demand (.scenario (.run "a" (.queue (.take (.var "q"))) false)),
    .demand (.scenario (.run "b" (.queue (.take (.var "q"))) false))] ++ List.replicate 24 .next

/-- Each of the two has the latch of its ticket. -/
theorem Tallied.paired_of_queued :
    (opened.tallies ⟨0⟩ queued {}).tickets.map ItemTicket.latch? = [some ⟨0⟩, some ⟨1⟩] ∧
      Paired ⟨0⟩ (opened.tallies ⟨0⟩ queued {}) (opened.after queued) := by
  have hmade : Tallied ⟨0⟩ .unbounded {} opened :=
    .make (.initial {} []) (.demand (.scenario (.newQueue "q" .unbounded))) rfl rfl
  exact ⟨rfl, Tallied.paired (hmade.after queued) (Or.inl rfl) rfl⟩

end FiberLoop
