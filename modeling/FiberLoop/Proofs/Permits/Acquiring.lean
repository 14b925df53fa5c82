import FiberLoop.Proofs.Permits.Books
import FiberLoop.Proofs.Permits.Confinement

/-!
# The course of an acquire

An acquire is a bracket: it requests a ticket where it cannot be interrupted, waits on the ticket, and keeps the
permit or, if interrupted, cleans up. `Acquiring` lists the places at which a fiber can be meanwhile, with what it
holds there and who waits on its latch. `Stands.next` says what comes after each stand.
-/

namespace FiberLoop

/-- Where an acquire began: the run around it, the semaphore, and the length of the books. -/
structure Engagement where
  base : Run
  semaphore : SemaphoreId
  start : Nat

/-- How a ticket has served its purpose. -/
inductive Verdict where
  | kept
  | undone
  | abandoned

/-- How far an acquire has come. A ticket has a latch unless it was granted at once. -/
inductive Ask where
  | asking
  | holding (latch? : Option DeferredId)
  /-- The wait was interrupted, and the cleanup has not run yet. -/
  | undoing (latch? : Option DeferredId)
  | settled (latch? : Option DeferredId) (verdict : Verdict)

def Verdict.exit : Verdict → Exit Value Value
  | .kept => .value .null
  | .undone | .abandoned => .interrupted

namespace Ask

/-- The ticket that a fiber holds that has come so far. -/
def claim? (f : FiberId) (s : SemaphoreId) : Ask → Option Claim
  | .holding t => some { fiber := f, semaphore := s, latch? := t }
  | .undoing t => some { fiber := f, semaphore := s, latch? := t, undoing := true }
  | .asking | .settled .. => none

/-- How a ticket is booked. -/
def ticket (f : FiberId) : Option DeferredId → Booking
  | none => .granted f
  | some l => .queued f l

/-- How it is booked that a ticket has served its purpose. -/
def verdict (f : FiberId) (t : Option DeferredId) : Verdict → Booking
  | .kept => .kept f
  | .undone => .undone f
  | .abandoned => t.elim (.undone f) (.abandoned f)

/-- What a fiber has booked that has come so far. -/
def bookings (f : FiberId) : Ask → List Booking
  | .asking => []
  | .holding t | .undoing t => [ticket f t]
  | .settled t v => [ticket f t, verdict f t v]

/-- The latch on which it depends who has the permit. -/
def latch? : Ask → Option DeferredId
  | .holding t | .undoing t => t
  | .asking | .settled .. => none

end Ask

namespace Engagement

variable (E : Engagement)

/-- What a ticket waits for. -/
def waiting : Option DeferredId → Effect
  | none => .succeed .null
  | some l => .awaitDeferred l

/-- How a ticket is undone. -/
def undo : Option DeferredId → Effect
  | none => .releasePermit E.semaphore
  | some l => .perform (.abandonPermit E.semaphore l)

def ticket (t : Option DeferredId) : Value := .ticket (waiting t) (E.undo t)

/-! ## The stacks -/

def outer : Run := E.base.push (.chain (.useResource .cleanup .awaitTicket))

def asked : Run := E.outer.enter .uninterruptible

def guarded (t : Option DeferredId) : Run := E.base.push (.chain (.releaseResource .cleanup (E.ticket t)))

def inner (t : Option DeferredId) : Run := (E.guarded t).push (.fold (.transform .reify) .reify)

def shut : Run := E.base.enter .uninterruptible

def closing (x : Exit Value Value) : Run := E.shut.push (.chain (.proceed (.resume x)))

/-! ## The stands -/

/-- How the wait on a ticket can end, given whether the fiber was interrupted and which latches were completed. -/
inductive Ends (requested : Bool) (done : DeferredId → Prop) (t : Option DeferredId) : Exit Value Value → Prop where
  | value (h : ∀ l ∈ t, done l) : Ends requested done t (.value .null)
  | interrupted (h : requested = true) : Ends requested done t .interrupted

/-- Whether a ticket can have served its purpose in such a way. -/
def Lawful (done : DeferredId → Prop) (t : Option DeferredId) : Verdict → Prop
  | .kept | .undone => ∀ l ∈ t, done l
  | .abandoned => t.isSome = true

/-- What is done at the end of an acquire, and the exit then. -/
inductive Cleans (requested : Bool) (done : DeferredId → Prop) : Ask → Effect → Exit Value Value → Prop where
  | kept {t : Option DeferredId} (h : ∀ l ∈ t, done l) :
    Cleans requested done (.settled t .kept) .unitValue (.value .null)
  | undo (t : Option DeferredId) (h : requested = true) : Cleans requested done (.undoing t) (E.undo t) .interrupted

/-- Where a fiber can stand during an acquire. -/
inductive Stands (requested : Bool) (done : DeferredId → Prop) : Ask → Stand → Prop where
  | asking : Stands requested done .asking ⟨E.outer, .eval (Effect.perform (.requestPermit E.semaphore)).uninterruptible⟩
  | requesting : Stands requested done .asking ⟨E.asked, .eval (.perform (.requestPermit E.semaphore))⟩
  | given (t : Option DeferredId) : Stands requested done (.holding t) ⟨E.asked, .value (E.ticket t)⟩
  | brought (t : Option DeferredId) : Stands requested done (.holding t) ⟨E.outer, .value (E.ticket t)⟩
  | bracketed (t : Option DeferredId) :
    Stands requested done (.holding t) ⟨E.base,
      .eval (.chain (Effect.suspend (.continue .awaitTicket (E.ticket t))).result
        (.releaseResource .cleanup (E.ticket t)))⟩
  | guarded (t : Option DeferredId) :
    Stands requested done (.holding t)
      ⟨E.guarded t, .eval (Effect.suspend (.continue .awaitTicket (E.ticket t))).result⟩
  | redeeming (t : Option DeferredId) :
    Stands requested done (.holding t) ⟨E.inner t, .eval (.suspend (.continue .awaitTicket (E.ticket t)))⟩
  | waiting (t : Option DeferredId) : Stands requested done (.holding t) ⟨E.inner t, .eval (waiting t)⟩
  | ended {t : Option DeferredId} {x : Exit Value Value} (h : Ends requested done t x) :
    Stands requested done (.holding t) ⟨E.inner t, .ofExit x⟩
  | told {t : Option DeferredId} {x : Exit Value Value} (h : Ends requested done t x) :
    Stands requested done (.holding t) ⟨E.guarded t, .value (.exit x)⟩
  | closing {ask : Ask} {e : Effect} {x : Exit Value Value} (h : E.Cleans requested done ask e x) :
    Stands requested done ask ⟨E.base, .eval (e.andThen (.resume x)).uninterruptible⟩
  | shut {ask : Ask} {e : Effect} {x : Exit Value Value} (h : E.Cleans requested done ask e x) :
    Stands requested done ask ⟨E.shut, .eval (e.andThen (.resume x))⟩
  | cleaning {ask : Ask} {e : Effect} {x : Exit Value Value} (h : E.Cleans requested done ask e x) :
    Stands requested done ask ⟨E.closing x, .eval e⟩
  | releasing (h : requested = true) :
    Stands requested done (.undoing none)
      ⟨(E.closing .interrupted).enter .uninterruptible, .eval (.perform (.releasePermit E.semaphore))⟩
  | released (h : requested = true) : Stands requested done (.settled none .undone)
      ⟨(E.closing .interrupted).enter .uninterruptible, .value .null⟩
  | cleaned {t : Option DeferredId} {v : Verdict} (h : Lawful done t v) (hv : v ≠ .kept → requested = true) :
    Stands requested done (.settled t v) ⟨E.closing v.exit, .value .null⟩
  | resuming {t : Option DeferredId} {v : Verdict} (h : Lawful done t v) (hv : v ≠ .kept → requested = true) :
    Stands requested done (.settled t v) ⟨E.shut, .eval (.resume v.exit)⟩
  | leaving {t : Option DeferredId} {v : Verdict} (h : Lawful done t v) (hv : v ≠ .kept → requested = true) :
    Stands requested done (.settled t v) ⟨E.shut, .ofExit v.exit⟩

section Growing

variable {E : Engagement} {requested requested' : Bool} {done done' : DeferredId → Prop} {t : Option DeferredId}
  {x : Exit Value Value} {ask : Ask} {s : Stand} {e : Effect} {v : Verdict}

theorem Ends.mono (h : Ends requested done t x) (hrequested : requested = true → requested' = true)
    (hdone : ∀ l, done l → done' l) : Ends requested' done' t x := by
  cases h with
  | value h => exact .value fun l hl => hdone l (h l hl)
  | interrupted h => exact .interrupted (hrequested h)

theorem Lawful.mono (h : Lawful done t v) (hdone : ∀ l, done l → done' l) : Lawful done' t v := by
  cases v with
  | kept | undone => exact fun l hl => hdone l (h l hl)
  | abandoned => exact h

theorem Cleans.mono (h : E.Cleans requested done ask e x) (hrequested : requested = true → requested' = true)
    (hdone : ∀ l, done l → done' l) : E.Cleans requested' done' ask e x := by
  cases h with
  | kept h => exact .kept fun l hl => hdone l (h l hl)
  | undo t h => exact .undo t (hrequested h)

/-- A stand stays one when the fiber is interrupted and latches are completed. -/
theorem Stands.mono (h : E.Stands requested done ask s) (hrequested : requested = true → requested' = true)
    (hdone : ∀ l, done l → done' l) : E.Stands requested' done' ask s := by
  cases h with
  | asking => exact .asking
  | requesting => exact .requesting
  | given t => exact .given t
  | brought t => exact .brought t
  | bracketed t => exact .bracketed t
  | guarded t => exact .guarded t
  | redeeming t => exact .redeeming t
  | waiting t => exact .waiting t
  | ended h => exact .ended (h.mono hrequested hdone)
  | told h => exact .told (h.mono hrequested hdone)
  | closing h => exact .closing (h.mono hrequested hdone)
  | shut h => exact .shut (h.mono hrequested hdone)
  | cleaning h => exact .cleaning (h.mono hrequested hdone)
  | releasing h => exact .releasing (hrequested h)
  | released h => exact .released (hrequested h)
  | cleaned h hv => exact .cleaned (h.mono hdone) (hrequested ∘ hv)
  | resuming h hv => exact .resuming (h.mono hdone) (hrequested ∘ hv)
  | leaving h hv => exact .leaving (h.mono hdone) (hrequested ∘ hv)

/-- A ticket is kept unless the fiber was interrupted. -/
theorem Stands.eq_kept (h : E.Stands false done (.settled t v) s) : v = .kept := by
  have hnot (hv : v ≠ .kept → false = true) : v = .kept := Classical.byContradiction fun hne => nomatch hv hne
  cases h with
  | closing h | shut h | cleaning h =>
    cases h
    rfl
  | released h => cases h
  | cleaned _ hv | resuming _ hv | leaving _ hv => exact hnot hv

end Growing

/-! ## What comes next -/

/-- What a fiber does next during an acquire. -/
inductive Does (requested : Bool) (done : DeferredId → Prop) (ask : Ask) (s : Stand) : Prop where
  | move {s' : Stand} (hdeed : s.deed = .move s') (h : E.Stands requested done ask s')
  /-- The acquire is over. -/
  | leave {t : Option DeferredId} {v : Verdict} (hask : ask = .settled t v) (h : Lawful done t v)
    (hdeed : s.deed = .move ⟨E.base, .ofExit v.exit⟩)
  /-- A closure is called that leaves the world and the books alone. -/
  | call {c : Call} {run : Run} {next : Next} (hdeed : s.deed = .call c run)
    (hact : ∀ w, c.act.caught w = (.ok next, w)) (hrecord : ∀ f w b, Books.record f c w b = b)
    (hcut : c.yields = true → run.masks.isInterruptible = true → E.base.masks.isInterruptible = true ∧
      (requested = true → E.Stands requested done ask ⟨run, .cause .interrupted⟩))
    (h : E.Stands requested done ask ⟨run, next⟩)
  | request (hask : ask = .asking) (hdeed : s.deed = .call (.thunk (.perform (.requestPermit E.semaphore))) E.asked)
  | wait {l : DeferredId} (hask : ask = .holding (some l)) (hrun : s.run = E.inner (some l))
    (hdeed : s.deed = .register (.deferred l))
  | tell {t : Option DeferredId} {x : Exit Value Value} (hask : ask = .holding t) (h : Ends requested done t x)
    (hdeed : s.deed = .call (.bind (.releaseResource .cleanup (E.ticket t)) (.exit x)) E.base)
  | release (hask : ask = .undoing none) (h : requested = true)
    (hdeed : s.deed = .call (.thunk (.perform (.releasePermit E.semaphore)))
      ((E.closing .interrupted).enter .uninterruptible))
  | giveUp {l : DeferredId} (hask : ask = .undoing (some l)) (h : requested = true)
    (hdeed : s.deed = .call (.thunk (.perform (.abandonPermit E.semaphore l))) (E.closing .interrupted))

variable {E} {requested : Bool} {done : DeferredId → Prop} {ask : Ask} {s : Stand}

theorem masked_shut (frames : List Frame) : ({ E.shut with frames := frames } : Run).masks.isInterruptible = false :=
  Masks.isInterruptible_push_uninterruptible _

/-- **What comes after each stand of an acquire.** -/
theorem Stands.next (h : E.Stands requested done ask s) : E.Does requested done ask s := by
  cases h with
  | asking => exact .move rfl .requesting
  | requesting => exact .request rfl rfl
  | given t => exact .move rfl (.brought t)
  | brought t => exact .call rfl (fun _ => rfl) (fun _ _ _ => rfl) (fun hyields => nomatch hyields) (.bracketed t)
  | bracketed t => exact .move rfl (.guarded t)
  | guarded t => exact .move rfl (.redeeming t)
  | redeeming t =>
    exact .call rfl (fun _ => rfl) (fun _ _ _ => rfl)
      (fun _ hopen => ⟨hopen, fun hrequested => .ended (.interrupted hrequested)⟩) (.waiting t)
  | waiting t =>
    cases t with
    | none =>
      exact .call rfl (fun _ => rfl) (fun _ _ _ => rfl)
        (fun _ hopen => ⟨hopen, fun hrequested => .ended (.interrupted hrequested)⟩)
        (.ended (.value fun _ hl => nomatch hl))
    | some l => exact .wait rfl rfl rfl
  | ended h =>
    cases h with
    | value hdone =>
      exact .call rfl (fun _ => rfl) (fun _ _ _ => rfl) (fun hyields => nomatch hyields) (.told (.value hdone))
    | interrupted h =>
      exact .call rfl (fun _ => rfl) (fun _ _ _ => rfl) (fun hyields => nomatch hyields) (.told (.interrupted h))
  | told h => exact .tell rfl h rfl
  | closing h => exact .move rfl (.shut h)
  | shut h => exact .move rfl (.cleaning h)
  | cleaning h =>
    cases h with
    | kept h =>
      refine .call rfl (fun _ => rfl) (fun _ _ _ => rfl) (fun _ hopen => ?_)
        (.cleaned (v := .kept) h fun hv => absurd rfl hv)
      exact absurd hopen (Bool.eq_false_iff.1 (masked_shut _))
    | undo t h =>
      cases t with
      | none => exact .move rfl (.releasing h)
      | some l => exact .giveUp rfl h rfl
  | releasing h => exact .release rfl h rfl
  | released h => exact .move rfl (.cleaned (v := .undone) (fun _ hl => nomatch hl) fun _ => h)
  | cleaned h hv =>
    exact .call rfl (fun _ => rfl) (fun _ _ _ => rfl) (fun hyields => nomatch hyields) (.resuming h hv)
  | resuming h hv =>
    refine .call rfl (fun _ => rfl) (fun _ _ _ => rfl) (fun _ hopen => ?_) (.leaving h hv)
    exact absurd hopen (Bool.eq_false_iff.1 (masked_shut _))
  | leaving h => exact .leave rfl h (by cases ‹Verdict› <;> rfl)

/-! ## Places -/

/-- Whether an interruption of a fiber at some place takes effect in the wait for a permit. -/
def heeds (E : Engagement) (p : Place) : Bool := p.requested && E.base.masks.isInterruptible

theorem heeds_of {p : Place} (h : p.requested = true) (hopen : E.base.masks.isInterruptible = true) :
    E.heeds p = true := Bool.and_eq_true_iff.2 ⟨h, hopen⟩

theorem requested_of_heeds {p : Place} (h : E.heeds p = true) : p.requested = true := (Bool.and_eq_true_iff.1 h).1

theorem heeds_mono {p p' : Place} (h : p.requested = true → p'.requested = true) (hp : E.heeds p = true) :
    E.heeds p' = true := heeds_of (h (requested_of_heeds hp)) (Bool.and_eq_true_iff.1 hp).2

/-- Where a fiber can be during an acquire, and who waits on its latch. -/
inductive Acquiring (E : Engagement) (f : FiberId) (done : DeferredId → Prop) :
    Ask → List (Nat × Callback) → Place → Prop where
  | ready {ask : Ask} {s : Stand} {p : Place} (hp : p.standing = .ready s) (h : E.Stands (E.heeds p) done ask s) :
    Acquiring E f done ask [] p
  | registering {l : DeferredId} {p : Place} (hp : p.standing = .registering (E.inner (some l)) none) :
    Acquiring E f done (.holding (some l)) [] p
  | answered {l : DeferredId} {p : Place} (h : done l)
    (hp : p.standing = .returned (E.inner (some l)) (some (.value .null)) .none) :
    Acquiring E f done (.holding (some l)) [] p
  | returned {l : DeferredId} {key : Nat} {p : Place}
    (hp : p.standing = .returned (E.inner (some l)) none (.waiter l key)) :
    Acquiring E f done (.holding (some l)) [(key, ⟨f, p.epoch⟩)] p
  | parked {l : DeferredId} {key : Nat} {p : Place}
    (hp : p.standing = .parked (E.inner (some l)) (.waiter l key)) :
    Acquiring E f done (.holding (some l)) [(key, ⟨f, p.epoch⟩)] p
  | unwinding {l : DeferredId} {key epoch : Nat} {p : Place} (hepoch : epoch < p.epoch) (h : E.heeds p = true)
    (hp : p.standing = .unwinding epoch (E.inner (some l)) (.waiter l key)) :
    Acquiring E f done (.holding (some l)) [(key, ⟨f, epoch⟩)] p

namespace Acquiring

variable {f : FiberId} {done' : DeferredId → Prop} {ws : List (Nat × Callback)} {p q : Place} {e : Event}
  {es : List Event} {l : DeferredId}

theorem mono (h : E.Acquiring f done ask ws p) (hdone : ∀ l, done l → done' l) : E.Acquiring f done' ask ws p := by
  cases h with
  | ready hp h => exact .ready hp (h.mono id hdone)
  | registering hp => exact .registering hp
  | answered h hp => exact .answered (hdone _ h) hp
  | returned hp => exact .returned hp
  | parked hp => exact .parked hp
  | unwinding hepoch h hp => exact .unwinding hepoch h hp

/-- A fiber is at the same place when its interruption is requested, or on its way from there. -/
theorem nudge (h : E.Acquiring f done ask ws p) (hmove : Move p e q) (he : e.isRequest = true) :
    E.Acquiring f done ask ws q := by
  cases hmove with
  | request hnot =>
    cases h with
    | ready hp h => exact .ready hp (h.mono (heeds_mono fun _ => rfl) fun _ => id)
    | registering hp => exact .registering hp
    | answered h hp => exact .answered h hp
    | returned hp => exact .returned (p := { p with requested := true }) hp
    | parked hp => exact .parked (p := { p with requested := true }) hp
    | unwinding hepoch h hp => exact .unwinding hepoch (heeds_mono (fun _ => rfl) h) hp
  | interruptReturned hstanding hopen hrequested =>
    cases h with
    | returned hp =>
      cases hp.symm.trans hstanding
      exact .unwinding (Nat.lt_succ_self p.epoch) (heeds_of hrequested hopen) rfl
    | ready hp | registering hp | answered _ hp | parked hp | unwinding _ _ hp => cases hp.symm.trans hstanding
  | interruptParked hstanding hopen hrequested =>
    cases h with
    | parked hp =>
      cases hp.symm.trans hstanding
      exact .unwinding (Nat.lt_succ_self p.epoch) (heeds_of hrequested hopen) rfl
    | ready hp | registering hp | answered _ hp | returned hp | unwinding _ _ hp => cases hp.symm.trans hstanding
  | _ => cases he

theorem nudges (h : E.Acquiring f done ask ws p) (hmoves : Moves p es q) (hes : ∀ e ∈ es, e.isRequest = true) :
    E.Acquiring f done ask ws q := by
  induction hmoves with
  | refl => exact h
  | step first _ ih =>
    obtain ⟨hfirst, hrest⟩ := List.forall_mem_cons.1 hes
    exact ih (h.nudge first hfirst) hrest

/-- A parked fiber whose latch is completed goes on. -/
theorem answer (hl : done l)
    (hmoves : Moves p [.ended p.epoch (.answered (.value .null)),
      .continued p.epoch (.answered (.value .null)) ⟨E.inner (some l), .value .null⟩] q) :
    E.Acquiring f done (.holding (some l)) [] q := by
  obtain _ | ⟨first, hrest⟩ := hmoves
  obtain _ | ⟨second, hlast⟩ := hrest
  cases hlast
  cases first with
  | answer hstanding x =>
    cases second with
    | «continue» h =>
      cases h
      refine .ready rfl (.ended (x := .value .null) (.value ?_))
      rintro l' ⟨⟩
      exact hl

end Acquiring

end Engagement

end FiberLoop
