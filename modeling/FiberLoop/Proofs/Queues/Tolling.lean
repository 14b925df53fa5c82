import FiberLoop.Proofs.Queues.Gating
import FiberLoop.Proofs.Queues.Presenting
import FiberLoop.Proofs.Queues.Stocking

/-!
# What a take books

A take through a gate returns a permit before it asks for an item. Its toll is how many permits it has acquired since,
or nothing as long as it has returned none. `Visit.Clear` says that the fiber of a take is in no acquire and has booked
just that; a step that has nothing to do with permits leaves it so (`Visit.Clear.play`).

An acquire that cannot be interrupted is never refused (`Orderly.kept_of_masked`), so whoever acquires a permit again at
the end of a take gets one.
-/

namespace FiberLoop

open Engagement

variable {σ σ' : Engagements} {b b' : Books} {s : Scene} {stroke : Stroke} {f : FiberId} {E : Engagement} {left : Nat}
  {stand : Stand} {paid : Option Nat} {start n : Nat} {es : List (SemaphoreId × Booking)} {g : SemaphoreId}

/-! ## Acquires that cannot be interrupted -/

/-- **An acquire that cannot be interrupted is granted.** -/
theorem Orderly.kept_of_masked {t : Option DeferredId} {v : Verdict} (h : Orderly σ b s) (hf : σ f = some E)
    (hmasked : E.base.masks.isInterruptible = false)
    (hsince : b.since f E.start = ((Ask.settled t v).bookings f).map (E.semaphore, ·)) : v = .kept := by
  obtain ⟨ask, ws, p, hat⟩ := h.engaged f E hf
  have hbookings : ask.bookings f = (Ask.settled t v).bookings f :=
    List.map_injective_iff.2 (fun _ _ hpair => (Prod.mk.inj hpair).2) (hat.booked.symm.trans hsince)
  cases ask with
  | asking | holding | undoing => cases congrArg List.length hbookings
  | settled t' v' =>
    have hkept : v' = .kept := by
      cases hat.acquiring with
      | ready _ hstands =>
        have hdeaf : E.heeds p = false := by rw [heeds, hmasked, Bool.and_false]
        exact (hdeaf ▸ hstands).eq_kept
    subst hkept
    obtain ⟨-, hverdict⟩ := List.cons_eq_cons.1 hbookings
    cases v with
    | kept => rfl
    | undone => cases hverdict
    | abandoned =>
      cases t <;> cases hverdict

/-! ## Steps that have nothing to do with permits -/

/-- A fiber in no acquire that deals with no permits books nothing. -/
theorem Orderly.book_eq (h : Orderly σ b s) (ha : s.moment.activity = .running f (left + 1) stand) (hfree : σ f = none)
    (hdeals : ∀ c run, stand.deed = .call c run → c.deals = false) : s.book .next b = b := by
  cases hcalls : s.calls? .next with
  | none => exact Scene.book_of_no_call b hcalls
  | some call =>
    obtain ⟨f', run, c⟩ := call
    obtain ⟨-, left', stand', ha', hdeed, -⟩ := Scene.of_calls? hcalls
    cases ha.symm.trans ha'
    rw [Scene.book_of_calls? b hcalls]
    obtain ⟨⟨w, a⟩, kept⟩ := s
    cases ha
    obtain ⟨hrun, hnext⟩ := h.activity hfree
    exact h.record_eq hfree (Stand.in_of_call hrun hnext hdeed).1 (hdeals c run hdeed)

/-- A fiber that calls a closure does not begin an acquire. -/
theorem Stand.not_begins_of_call {c : Call} {run : Run} (hdeed : stand.deed = .call c run) {sem : SemaphoreId} :
    ¬ stand.Begins sem := by
  intro hbegins
  obtain ⟨run', next⟩ := stand
  cases hbegins
  cases hdeed

/-- What uses a queue deals with no permits. -/
theorem Call.not_deals_of_uses {c : Call} {q : QueueId} (h : c.uses q) : c.deals = false := by
  rcases Call.cases_of_uses h with rfl | ⟨v, rfl⟩ | ⟨v, rfl⟩ | ⟨l, rfl⟩ <;> rfl

/-! ## Where a take begins -/

theorem Stand.not_begins_take {run : Run} {q : QueueId} {gate : Option SemaphoreId} {sem : SemaphoreId} :
    ¬ Stand.Begins ⟨run, .eval (.takeItem q gate)⟩ sem := by
  cases gate <;> nofun

/-- In an acquire no take begins. -/
theorem Engagement.Stands.not_takes {requested : Bool} {done : DeferredId → Prop} {ask : Ask}
    (h : E.Stands requested done ask stand) {e : Effect} (he : stand.next = .eval e) : e.taken? = none := by
  have hexit {run : Run} {x : Exit Value Value} (hs : (⟨run, .ofExit x⟩ : Stand).next = .eval e) : e.taken? = none := by
    cases x <;> cases hs
  cases h with
  | asking | requesting | bracketed | guarded | redeeming | releasing | resuming | closing =>
    cases he
    rfl
  | shut h =>
    cases he
    cases h with
    | kept => rfl
    | undo t => cases t <;> rfl
  | given | brought | told | released | cleaned => cases he
  | ended | leaving => exact hexit he
  | waiting t => cases t <;> cases he <;> rfl
  | cleaning h =>
    cases he
    cases h with
    | kept => rfl
    | undo t => cases t <;> rfl

/-- Where a take begins the fiber is in no acquire. -/
theorem Orderly.free_of_take (h : Orderly σ b s) {base : Run} {q : QueueId} {gate : Option SemaphoreId}
    (ha : s.moment.activity = .running f (left + 1) ⟨base, .eval (.takeItem q gate)⟩) : σ f = none := by
  obtain ⟨⟨w, a⟩, kept⟩ := s
  cases ha
  cases hf : σ f with
  | none => rfl
  | some E =>
    obtain ⟨ask, ws, p, hat⟩ := h.engaged f E hf
    cases (hat.stands.2.not_takes rfl).symm.trans (Effect.taken?_takeItem q gate)

/-! ## Tolls -/

/-- What a fiber has booked in a take through a gate: nothing, or that it has returned a permit and then acquired some. -/
inductive Books.Paid (b : Books) (f : FiberId) (gate : Option SemaphoreId) :
    Option Nat → List (SemaphoreId × Booking) → Prop where
  | nothing : Paid b f gate none []
  | returned {g : SemaphoreId} {n : Nat} {es : List (SemaphoreId × Booking)} (hgate : gate = some g)
    (h : b.Bought f gate n es) : Paid b f gate (some n) ((g, .returned f) :: es)

theorem Books.Paid.mono {gate : Option SemaphoreId} (h : b.Paid f gate paid es)
    (hgrows : ∀ g l, b.delivered g l → b'.delivered g l) : b'.Paid f gate paid es := by
  cases h with
  | nothing => exact .nothing
  | returned hgate h => exact .returned hgate (h.mono hgrows)

namespace Visit

variable {V : Visit}

/-- The toll of a take that has acquired some permits since it has returned one, if there is a gate. -/
def toll (V : Visit) (n : Nat) : Option Nat := V.gate.map fun _ => n

theorem toll_of_gate (h : V.gate = some g) (n : Nat) : V.toll n = some n := by
  rw [Visit.toll, h]
  rfl

theorem toll_of_no_gate (h : V.gate = none) (n : Nat) : V.toll n = none := by
  rw [Visit.toll, h]
  rfl

/-- The fiber of a take is in no acquire, and has booked its toll. -/
structure Clear (V : Visit) (start : Nat) (paid : Option Nat) (σ : Engagements) (b : Books) : Prop where
  free : σ V.fiber = none
  booked : b.Paid V.fiber V.gate paid (b.since V.fiber start)

/-- Where a take begins nothing is booked. -/
theorem Clear.of_begin (hfree : σ V.fiber = none) : V.Clear b.entries.length none σ b := by
  refine ⟨hfree, ?_⟩
  rw [Books.since, List.drop_length, List.filter_nil]
  exact .nothing

/-- **What has nothing to do with permits leaves the toll as it is.** -/
theorem Clear.play (h : V.Clear start paid σ b)
    (hothers : s.stepper? stroke ≠ some V.fiber → σ' V.fiber = σ V.fiber ∧
      (s.book stroke b).since V.fiber start = b.since V.fiber start)
    (hself : s.stepper? stroke = some V.fiber → σ' V.fiber = none ∧ s.book stroke b = b) :
    V.Clear start paid σ' (s.book stroke b) := by
  by_cases hstep : s.stepper? stroke = some V.fiber
  · obtain ⟨hfree, hbook⟩ := hself hstep
    rw [hbook]
    exact ⟨hfree, h.booked⟩
  · obtain ⟨hsame, hsince⟩ := hothers hstep
    refine ⟨hsame.trans h.free, ?_⟩
    rw [hsince]
    exact h.booked.mono (s.since_book stroke b V.fiber).2.1

/-- The permit is returned. -/
theorem Clear.give {run : Run} (h : V.Clear start none σ b) (hσ : Orderly σ b s) (hgate : V.gate = some g)
    (hstart : start ≤ b.entries.length) (hfree : σ' V.fiber = none)
    (hcalls : s.calls? stroke = some (V.fiber, run, .thunk (.perform (.releasePermit g)))) :
    V.Clear start (some 0) σ' (s.book stroke b) := by
  refine ⟨hfree, ?_⟩
  have hclaim : ¬ (b.claim? V.fiber).any (·.undoing) = true := by
    rw [hσ.books.claim?_of_free h.free]
    exact Bool.false_ne_true
  have hrecord : s.book stroke b = b.putBack g (.returned V.fiber) s.moment.world :=
    (Scene.book_of_calls? b hcalls).trans (if_neg hclaim)
  have hadds : Books.Adds V.fiber g _ b (b.putBack g (.returned V.fiber) s.moment.world) :=
    Books.adds_write (Books.mine_putBack rfl _)
  have hmine : (Booking.returned V.fiber :: (s.moment.world.nextInLine? g).toList.map .delivered).filter
      (·.fiber? = some V.fiber) = [.returned V.fiber] := by
    have hothers : ((s.moment.world.nextInLine? g).toList.map Booking.delivered).filter (·.fiber? = some V.fiber) = [] := by
      refine List.filter_eq_nil_iff.2 fun e he => ?_
      obtain ⟨l, -, rfl⟩ := List.mem_map.1 he
      exact Bool.false_ne_true
    have hself : decide ((Booking.returned V.fiber).fiber? = some V.fiber) = true := decide_eq_true rfl
    rw [List.filter_cons, if_pos hself, hothers]
  have hnothing : b.since V.fiber start = [] := by
    generalize hes : b.since V.fiber start = es
    have hpaid := h.booked
    rw [hes] at hpaid
    cases hpaid
    rfl
  rw [hrecord, hadds.since V.fiber hstart, hmine, hnothing]
  exact .returned hgate .nothing

end Visit

end FiberLoop
