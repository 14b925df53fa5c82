import FiberLoop.Proofs.Queues.Offering
import FiberLoop.Proofs.Queues.Parking

/-!
# The course of a take

A take asks for a ticket where it cannot be interrupted, waits on the ticket and goes on with the item that the wait
has brought. If the wait was interrupted, it undoes the ticket and goes on interrupted. `Take.Stands` lists the places
at which a fiber can be meanwhile, and `Take.Stands.next` says what comes after each of them.

The main result of this module is `Take.Underway.play`: a take goes on with the item of its ticket, unless the ticket
is undone.
-/

namespace FiberLoop

open World

/-- What a ticket of a queue gives its fiber: an item, or a latch to wait for. -/
inductive Draw where
  | item (v : Value)
  | latch (l : DeferredId)

/-- The latch with which a fiber has joined the line. -/
def Draw.latch? : Draw → Option DeferredId
  | .item _ => none
  | .latch l => some l

/-- A take that has its ticket: the run around it, the queue and what the ticket gives. -/
structure Take where
  base : Run
  queue : QueueId
  draw : Draw

namespace Take

variable (T : Take)

/-- What the ticket waits for. -/
def wait : Effect :=
  match T.draw with
  | .item v => .succeed v
  | .latch l => .awaitDeferred l

/-- What undoes the ticket. -/
def undo : Operation :=
  match T.draw with
  | .item v => .putBackItem T.queue v
  | .latch l => .abandonItem T.queue l

def ticket : Value := .ticket T.wait (.perform T.undo)

/-! ## The stacks -/

def outer (base : Run) : Run := base.push (.chain (.useResource .cleanup .awaitTicket))

/-- The run in which a take asks for its ticket. -/
def asked (base : Run) : Run := (outer base).enter .uninterruptible

def guarded : Run := T.base.push (.chain (.releaseResource .cleanup T.ticket))

def inner : Run := T.guarded.push (.fold (.transform .reify) .reify)

def shut : Run := T.base.enter .uninterruptible

def closing (x : Exit Value Value) : Run := T.shut.push (.chain (.proceed (.resume x)))

/-- A take of a queue without a gate asks for its ticket. -/
theorem asks (base : Run) (q : QueueId) :
    (⟨base, .eval (.takeItem q none)⟩ : Stand).deed =
        .move ⟨outer base, .eval (Effect.perform (.requestItem q)).uninterruptible⟩ ∧
      (⟨outer base, .eval (Effect.perform (.requestItem q)).uninterruptible⟩ : Stand).deed =
        .move ⟨asked base, .eval (.perform (.requestItem q))⟩ ∧
      (⟨asked base, .eval (.perform (.requestItem q))⟩ : Stand).deed =
        .call (.thunk (.perform (.requestItem q))) (asked base) := ⟨rfl, rfl, rfl⟩

/-! ## The stands -/

/-- How the wait on a ticket can end. -/
inductive Ends (got : Value → Prop) : Exit Value Value → Prop where
  | value {v : Value} (h : got v) : Ends got (.value v)
  | interrupted : Ends got .interrupted

/-- What is done at the end of a take, and the exit then. -/
inductive Cleans (got : Value → Prop) : Effect → Exit Value Value → Prop where
  | keep {v : Value} (h : got v) : Cleans got .unitValue (.value v)
  | undo : Cleans got (.perform T.undo) .interrupted

/-- Where a fiber can stand during a take, from its ticket on. -/
inductive Stands (got : Value → Prop) : Stand → Prop where
  | given : Stands got ⟨asked T.base, .value T.ticket⟩
  | brought : Stands got ⟨outer T.base, .value T.ticket⟩
  | bracketed : Stands got ⟨T.base,
      .eval (.chain (Effect.suspend (.continue .awaitTicket T.ticket)).result (.releaseResource .cleanup T.ticket))⟩
  | guarded : Stands got ⟨T.guarded, .eval (Effect.suspend (.continue .awaitTicket T.ticket)).result⟩
  | redeeming : Stands got ⟨T.inner, .eval (.suspend (.continue .awaitTicket T.ticket))⟩
  | waiting : Stands got ⟨T.inner, .eval T.wait⟩
  | ended {x : Exit Value Value} (h : Ends got x) : Stands got ⟨T.inner, .ofExit x⟩
  | told {x : Exit Value Value} (h : Ends got x) : Stands got ⟨T.guarded, .value (.exit x)⟩
  | closing {e : Effect} {x : Exit Value Value} (h : T.Cleans got e x) :
    Stands got ⟨T.base, .eval (e.andThen (.resume x)).uninterruptible⟩
  | shut {e : Effect} {x : Exit Value Value} (h : T.Cleans got e x) : Stands got ⟨T.shut, .eval (e.andThen (.resume x))⟩
  | cleaning {e : Effect} {x : Exit Value Value} (h : T.Cleans got e x) : Stands got ⟨T.closing x, .eval e⟩
  | cleaned {v : Value} (h : got v) : Stands got ⟨T.closing (.value v), .value .null⟩
  | resuming {v : Value} (h : got v) : Stands got ⟨T.shut, .eval (.resume (.value v))⟩
  | leaving {v : Value} (h : got v) : Stands got ⟨T.shut, .value v⟩

/-- What a fiber does next during a take. -/
inductive Does (got : Value → Prop) (s : Stand) : Prop where
  | move {s' : Stand} (hdeed : s.deed = .move s') (h : T.Stands got s')
  /-- The take is over. -/
  | leave {v : Value} (h : got v) (hdeed : s.deed = .move ⟨T.base, .value v⟩)
  /-- A closure is called that leaves the world alone. -/
  | call {c : Call} {run : Run} {next : Next} (hdeed : s.deed = .call c run)
    (hact : ∀ w, c.act.caught w = (.ok next, w))
    (hcut : c.yields = true → run.masks.isInterruptible = true → T.Stands got ⟨run, .cause .interrupted⟩)
    (h : T.Stands got ⟨run, next⟩)
  | wait {l : DeferredId} (hdraw : T.draw = .latch l) (hrun : s.run = T.inner) (hdeed : s.deed = .register (.deferred l))
  | undo (hdeed : s.deed = .call (.thunk (.perform T.undo)) (T.closing .interrupted))

variable {T} {got got' : Value → Prop} {s : Stand}

section Growing

variable (hgot : ∀ v, got v → got' v)
include hgot

theorem Ends.mono {x : Exit Value Value} (h : Ends got x) : Ends got' x := by
  cases h with
  | value h => exact .value (hgot _ h)
  | interrupted => exact .interrupted

theorem Cleans.mono {e : Effect} {x : Exit Value Value} (h : T.Cleans got e x) : T.Cleans got' e x := by
  cases h with
  | keep h => exact .keep (hgot _ h)
  | undo => exact .undo

/-- A stand stays one when more is got. -/
theorem Stands.mono (h : T.Stands got s) : T.Stands got' s := by
  cases h with
  | given => exact .given
  | brought => exact .brought
  | bracketed => exact .bracketed
  | guarded => exact .guarded
  | redeeming => exact .redeeming
  | waiting => exact .waiting
  | ended h => exact .ended (h.mono hgot)
  | told h => exact .told (h.mono hgot)
  | closing h => exact .closing (h.mono hgot)
  | shut h => exact .shut (h.mono hgot)
  | cleaning h => exact .cleaning (h.mono hgot)
  | cleaned h => exact .cleaned (hgot _ h)
  | resuming h => exact .resuming (hgot _ h)
  | leaving h => exact .leaving (hgot _ h)

end Growing

theorem masked_shut (frames : List Frame) : ({ T.shut with frames := frames } : Run).masks.isInterruptible = false :=
  Masks.isInterruptible_push_uninterruptible _

theorem wait_of_item {v : Value} (h : T.draw = .item v) : T.wait = .succeed v := by
  rw [wait, h]

theorem wait_of_latch {l : DeferredId} (h : T.draw = .latch l) : T.wait = .awaitDeferred l := by
  rw [wait, h]

/-- **What comes after each stand of a take.** -/
theorem Stands.next (h : T.Stands got s) (hitem : ∀ v, T.draw = .item v → got v) : T.Does got s := by
  cases h with
  | given => exact .move rfl .brought
  | brought => exact .call rfl (fun _ => rfl) nofun .bracketed
  | bracketed => exact .move rfl .guarded
  | guarded => exact .move rfl .redeeming
  | redeeming => exact .call rfl (fun _ => rfl) (fun _ _ => .ended .interrupted) .waiting
  | waiting =>
    cases hdraw : T.draw with
    | item v =>
      rw [wait_of_item hdraw]
      exact .call rfl (fun _ => rfl) (fun _ _ => .ended .interrupted) (.ended (.value (hitem v hdraw)))
    | latch l =>
      rw [wait_of_latch hdraw]
      exact .wait hdraw rfl rfl
  | ended h =>
    cases h with
    | value h => exact .call rfl (fun _ => rfl) nofun (.told (.value h))
    | interrupted => exact .call rfl (fun _ => rfl) nofun (.told .interrupted)
  | told h =>
    cases h with
    | value h => exact .call rfl (fun _ => rfl) nofun (.closing (.keep h))
    | interrupted => exact .call rfl (fun _ => rfl) nofun (.closing .undo)
  | closing h => exact .move rfl (.shut h)
  | shut h => exact .move rfl (.cleaning h)
  | cleaning h =>
    cases h with
    | keep h =>
      exact .call rfl (fun _ => rfl) (fun _ hopen => absurd hopen (Bool.eq_false_iff.1 (masked_shut _))) (.cleaned h)
    | undo => exact .undo rfl
  | cleaned h => exact .call rfl (fun _ => rfl) nofun (.resuming h)
  | resuming h =>
    exact .call rfl (fun _ => rfl) (fun _ hopen => absurd hopen (Bool.eq_false_iff.1 (masked_shut _))) (.leaving h)
  | leaving h => exact .leave h rfl

/-! ## What is done with a ticket -/

/-- With a ticket nothing is done but to undo it. -/
theorem Stands.performs (h : T.Stands got s) {o : Operation}
    (hs : s.next = .eval (.perform o)) : o = T.undo ∧ s.run = T.closing .interrupted := by
  cases h with
  | ended h => cases h <;> cases hs
  | waiting =>
    cases hdraw : T.draw with
    | item v =>
      rw [wait_of_item hdraw] at hs
      cases hs
    | latch l =>
      rw [wait_of_latch hdraw] at hs
      cases hs
  | cleaning h =>
    cases h with
    | keep => cases hs
    | undo =>
      cases hs
      exact ⟨rfl, rfl⟩
  | _ => cases hs

/-- With a ticket no permit is acquired, -/
theorem Stands.not_begins (h : T.Stands got s) (sem : SemaphoreId) : ¬ s.Begins sem := by
  cases h with
  | shut => exact Stand.not_begins_andThen
  | waiting =>
    cases hdraw : T.draw with
    | item v =>
      rw [wait_of_item hdraw]
      nofun
    | latch l =>
      rw [wait_of_latch hdraw]
      nofun
  | ended h => cases h <;> nofun
  | cleaning h => cases h <;> nofun
  | _ => nofun

/-- and none is tried for or returned. -/
theorem Stands.not_deals (h : T.Stands got s) {c : Call} {run : Run} (hdeed : s.deed = .call c run) : c.deals = false := by
  cases hdeals : c.deals with
  | false => rfl
  | true =>
    have hnot (o : Operation) (hc : c = .thunk (.perform o)) : o = T.undo := by
      subst hc
      exact (h.performs (Stand.of_thunk hdeed ▸ rfl)).1
    obtain ⟨sem, hc | hc⟩ := Call.eq_of_deals hdeals
    · have hundo := hnot _ hc
      unfold undo at hundo
      cases hdraw : T.draw <;> rw [hdraw] at hundo <;> cases hundo
    · have hundo := hnot _ hc
      unfold undo at hundo
      cases hdraw : T.draw <;> rw [hdraw] at hundo <;> cases hundo

/-! ## Strokes -/

/-- A fiber is in the middle of a take. -/
inductive Underway (T : Take) (f : FiberId) (got : Value → Prop) (s : Scene) : Prop where
  | stands {p : Place} {stand : Stand} (hp : Fits f (s.moment.view f) p) (hready : p.standing = .ready stand)
    (h : T.Stands got stand)
  | waits {l : DeferredId} (hdraw : T.draw = .latch l) (h : s.Waits f T.inner l)

section Strokes

variable {f : FiberId} {s : Scene} {stroke : Stroke} {stand : Stand} {left : Nat}

/-- What is said about the latch of a take: the wait for it ends with what the take gets, and whoever completes it
rouses those who are parked in its line. -/
structure Serves (got : Value → Prop) (s : Scene) (stroke : Stroke) (l : DeferredId) : Prop where
  made : l.index < s.moment.world.stores.deferreds.size
  exit : ∀ x, (s.play stroke).moment.world.pollDeferred l = some x → Ends got x
  rouses : ∀ x, s.moment.world.pollDeferred l = none → (s.play stroke).moment.world.pollDeferred l = some x →
    (∃ g left stand, s.moment.activity = .running g left stand) ∧
      ∀ f home run key, s.moment.world.Asleep f home run (.waiter l key) →
        .task (.resume f run (.ofExit x)) ∈ ((s.play stroke).moment.world.loopAt home).inbox

theorem Underway.mono {got' : Value → Prop} (h : T.Underway f got s) (hgot : ∀ v, got v → got' v) :
    T.Underway f got' s := by
  cases h with
  | stands hp hready h => exact .stands hp hready (h.mono hgot)
  | waits hdraw h => exact .waits hdraw h

theorem Underway.of_activity (ho : s.Occurs) (ha : s.moment.activity = .running f left stand) (h : T.Stands got stand) :
    T.Underway f got s := by
  obtain ⟨p, hp, hready⟩ := ho.ready_of_activity ha
  exact .stands hp hready h

/-- The fiber takes a step. -/
theorem Stands.play (h : T.Stands got stand) (ho : s.Occurs) (ha : s.moment.activity = .running f (left + 1) stand)
    (hitem : ∀ v, T.draw = .item v → got v) (hundo : ∀ run, s.calls? .next ≠ some (f, run, .thunk (.perform T.undo))) :
    T.Underway f got (s.play .next) ∨
      ∃ left v, got v ∧ (s.play .next).moment.activity = .running f left ⟨T.base, .value v⟩ := by
  have hafter : (s.play .next).Occurs := ho.after [.next]
  cases h.next hitem with
  | move hdeed h =>
    exact Or.inl (.of_activity hafter (congrArg Moment.activity (Scene.play_of_goes (b := {}) ha (.move hdeed)).1) h)
  | leave h hdeed =>
    exact Or.inr ⟨left, _, h, congrArg Moment.activity (Scene.play_of_goes (b := {}) ha (.move hdeed)).1⟩
  | @call c run next hdeed hact hcut h =>
    cases hcuts : s.moment.world.cuts f c run with
    | true =>
      have hmoment := (Scene.play_of_cut ha {} hdeed hcuts).1
      obtain ⟨hyields, hpending⟩ := Bool.and_eq_true_iff.1 hcuts
      exact Or.inl (.of_activity hafter (congrArg Moment.activity hmoment)
        (hcut hyields (Bool.and_eq_true_iff.1 hpending).1))
    | false =>
      have hmoment := (Scene.play_of_call ha {} hdeed hcuts).1
      have hcalled : (s.moment.world.called c run).1 = ⟨run, next⟩ := by
        rw [World.called, hact]
        rfl
      rw [hcalled] at hmoment
      exact Or.inl (.of_activity hafter (congrArg Moment.activity hmoment) h)
  | wait hdraw hrun hdeed =>
    rcases Scene.activity_of_register ha hdeed with hcut | ⟨epoch, hregisters⟩
    · exact Or.inl (.of_activity hafter (hrun ▸ hcut) (.ended .interrupted))
    · exact Or.inl (.waits hdraw (.joining (hrun ▸ hregisters)))
  | undo hdeed =>
    have hcuts : s.moment.world.cuts f (.thunk (.perform T.undo)) (T.closing .interrupted) = false :=
      World.cuts_of_masked (masked_shut _) s.moment.world f _
    exact absurd (Scene.calls?_of_deed ha hdeed hcuts) (hundo _)

/-- A fiber that is about to take a step is at one of the stands. -/
theorem Underway.stands_of_running (h : T.Underway f got s) (ho : s.Occurs)
    (ha : s.moment.activity = .running f (left + 1) stand) (hlatch : ∀ l, T.draw = .latch l → Serves got s .next l) :
    T.Stands got stand := by
  cases h with
  | stands hp hready h => exact Standing.ready.inj (hready.symm.trans (hp.ready_of_running ha)) ▸ h
  | @waits l hdraw h =>
    cases h with
    | joining ha' | given ha' => cases ha'.symm.trans ha
    | seated hp hsits =>
      rw [hp.ready_of_running ha] at hsits
      cases hsits
    | unwinding hp hstanding => cases hstanding.symm.trans (hp.ready_of_running ha)
    | @ended p x hp hready hx =>
      cases hready.symm.trans (hp.ready_of_running ha)
      rcases hx with hx | rfl
      · exact .ended ((hlatch l hdraw).exit x (ho.poll_play hx .next))
      · exact .ended .interrupted

/-- **A take goes on with what its ticket brings**, unless the ticket is undone. -/
theorem Underway.play (h : T.Underway f got s) (ho : s.Occurs) (stroke : Stroke)
    (hitem : ∀ v, T.draw = .item v → got v) (hlatch : ∀ l, T.draw = .latch l → Serves got s stroke l)
    (hundo : ∀ run, s.calls? stroke ≠ some (f, run, .thunk (.perform T.undo))) :
    T.Underway f got (s.play stroke) ∨
      ∃ left v, got v ∧ (s.play stroke).moment.activity = .running f left ⟨T.base, .value v⟩ := by
  by_cases hstep : s.stepper? stroke = some f
  · obtain ⟨rfl, left, stand, ha⟩ := Scene.of_stepper? hstep
    have hstands : T.Stands got stand := h.stands_of_running ho ha hlatch
    exact hstands.play ho ha hitem hundo
  · refine Or.inl ?_
    cases h with
    | stands hp hready h =>
      obtain ⟨q, hq⟩ := ho.fits_play hp stroke
      exact .stands hq ((ho.stays hp hq hstep).ready _ hready) h
    | @waits l hdraw h =>
      have hserves := hlatch l hdraw
      refine .waits hdraw (ho.waits_play h stroke hserves.made hstep fun x hpending hdone => ?_)
      obtain ⟨hrunning, hroused⟩ := hserves.rouses x hpending hdone
      exact ⟨hrunning, fun home key => hroused f home T.inner key⟩

end Strokes

end Take

end FiberLoop
