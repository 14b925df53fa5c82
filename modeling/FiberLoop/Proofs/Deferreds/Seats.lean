import FiberLoop.Proofs.Deferreds.Handling
import FiberLoop.Proofs.Runtime.Epochs

/-!
# Seats

A fiber that waits for a deferred has a seat in its line: from the return of its registration until the runtime has
cancelled the wait or the deferred is completed. What a moment shows of a fiber tells its seat.

A request to interrupt a fiber does not take its seat away. Only the completion of the callback with which it waits
does.
-/

namespace FiberLoop

/-- A place in the line of a deferred, and the epoch of the registration that has taken it. -/
structure Seat where
  deferred : DeferredId
  key : Nat
  epoch : Nat

/-- The seat of a fiber that has come so far. -/
def Place.seat? (p : Place) : Option Seat :=
  match p.standing with
  | .returned _ none (.waiter d key) | .parked _ (.waiter d key) => some ⟨d, key, p.epoch⟩
  | .unwinding ended _ (.waiter d key) => some ⟨d, key, ended⟩
  | _ => none

/-- The seat of a fiber that is seen like that. -/
def View.seat? (v : View) : Option Seat :=
  v.record.bind fun r =>
    match v.activity with
    | .idle =>
      match r.phase, v.tokens with
      | .suspended _ (.waiter d key), _ => some ⟨d, key, r.epoch⟩
      | .running, [.unwind _ (.waiter d key) _] => some ⟨d, key, r.epoch - 1⟩
      | _, _ => none
    | .returning _ _ _ (.waiter d key) =>
      match r.phase with
      | .registering none => some ⟨d, key, r.epoch⟩
      | _ => none
    | .canceling _ _ _ (.waiter d key) => some ⟨d, key, r.epoch - 1⟩
    | _ => none

/-- The seat of a fiber at a moment. -/
def Moment.seat? (f : FiberId) (m : Moment) : Option Seat := (m.view f).seat?

/-- Whether a fiber may have a seat while it is in the middle of this. -/
def Activity.sits : Activity → Bool
  | .idle | .returning .. | .canceling .. => true
  | .running .. | .registering .. | .exiting .. => false

/-- A fiber that runs, joins a line or exits has no seat. -/
theorem Moment.seat?_of_activity {f : FiberId} {w : World} {a : Activity} (hf : a.fiber? = some f)
    (ha : a.sits = false) : Moment.seat? f ⟨w, a⟩ = none := by
  rw [Moment.seat?, Moment.view_self hf, View.seat?]
  cases a with
  | idle | returning | canceling => cases ha
  | running | registering | exiting => cases (w.view f _).record <;> rfl

/-- A fiber that does not wait for a deferred has no seat. -/
theorem Moment.seat?_of_canceler {f : FiberId} {w : World} {left : Nat} {run : Run} {canceler : Canceler} {a : Activity}
    (ha : a = .returning f left run canceler ∨ a = .canceling f left run canceler)
    (hcanceler : canceler.isWaiter = false) : Moment.seat? f ⟨w, a⟩ = none := by
  rcases ha with rfl | rfl
  · rw [Moment.seat?, Moment.view_self rfl, View.seat?]
    cases canceler with
    | waiter d key => cases hcanceler
    | _ => cases (w.view f _).record <;> rfl
  · rw [Moment.seat?, Moment.view_self rfl, View.seat?]
    cases canceler with
    | waiter d key => cases hcanceler
    | _ => cases (w.view f _).record <;> rfl

section Seats

variable {f : FiberId} {v v' : View} {p q : Place} {e : Event} {es : List Event} {s : Seat}

/-- A moment shows the seat of a fiber. -/
theorem Fits.seat? (h : Fits f v p) : v.seat? = p.seat? := by
  obtain ⟨record, tokens, activity⟩ := v
  obtain ⟨standing, epoch, requested, hook⟩ := p
  obtain ⟨⟨home, hrecord⟩, hheld⟩ := h
  cases hrecord
  cases hheld with
  | fresh root => rfl
  | queued s => rfl
  | running s left => rfl
  | registering run early left r => rfl
  | exiting x => rfl
  | done x => rfl
  | returned run early canceler left => cases early <;> cases canceler <;> rfl
  | parked run canceler => cases canceler <;> rfl
  | unwinding hended run canceler => cases canceler <;> cases hended <;> rfl
  | canceling hended run canceler left => cases canceler <;> cases hended <;> rfl

theorem Absent.seat? (h : Absent f v) : v.seat? = none := by
  rw [View.seat?, h.record, Option.bind_none]

/-- A seat was taken in the epoch of the fiber or in the one before it. -/
theorem Place.seat_epoch {v : View} (h : Fits f v p) (hs : p.seat? = some s) :
    s.epoch = p.epoch ∧ p.standing.phase ≠ .running ∨ s.epoch + 1 = p.epoch ∧ p.standing.phase = .running := by
  obtain ⟨record, tokens, activity⟩ := v
  obtain ⟨standing, epoch, requested, hook⟩ := p
  obtain ⟨-, hheld⟩ := h
  cases hheld with
  | fresh root | queued s | running s left | registering run early left r | exiting x | done x => cases hs
  | returned run early canceler left =>
    cases early <;> cases canceler <;> cases hs
    exact Or.inl ⟨rfl, nofun⟩
  | parked run canceler =>
    cases canceler <;> cases hs
    exact Or.inl ⟨rfl, nofun⟩
  | unwinding hended run canceler =>
    cases canceler <;> cases hs
    exact Or.inr ⟨hended.symm, rfl⟩
  | canceling hended run canceler left =>
    cases canceler <;> cases hs
    exact Or.inr ⟨hended.symm, rfl⟩

/-! ## What happens to a fiber -/

/-- A request to interrupt a fiber does not take its seat away. -/
theorem Move.seat?_of_request (h : Move p e q) (he : e.isRequest = true) : q.seat? = p.seat? := by
  obtain ⟨standing, epoch, requested, hook⟩ := p
  cases h with
  | request h => rfl
  | interruptReturned h hopen hrequested =>
    cases h
    rename_i run canceler
    cases canceler <;> rfl
  | interruptParked h hopen hrequested =>
    cases h
    rename_i run canceler
    cases canceler <;> rfl
  | _ => cases he

theorem Moves.seat?_of_requests (h : Moves p es q) (hes : ∀ e ∈ es, e.isRequest = true) : q.seat? = p.seat? := by
  induction h with
  | refl p => rfl
  | step first _ ih =>
    obtain ⟨hfirst, hrest⟩ := List.forall_mem_cons.1 hes
    exact (ih hrest).trans (first.seat?_of_request hfirst)

/-- A request to interrupt a fiber in the middle of a registration lets it be. -/
theorem Moves.registering_of_requests (h : Moves p es q) (hes : ∀ e ∈ es, e.isRequest = true) {run : Run}
    {early : Option (Exit Value Value)} (hp : p.standing = .registering run early) :
    q.standing = .registering run early := by
  induction h with
  | refl p => exact hp
  | step first _ ih =>
    obtain ⟨hfirst, hrest⟩ := List.forall_mem_cons.1 hes
    refine ih hrest ?_
    cases first with
    | request => exact hp
    | interruptReturned h | interruptParked h => cases h.symm.trans hp
    | _ => cases hfirst

/-- What the completion of a callback makes happen. -/
def Event.isAnswer : Event → Bool
  | .kept .. | .ended _ (.answered _) | .continued .. => true
  | _ => false

/-- A fiber that was given a result has no seat. -/
theorem Move.seat?_of_answer (h : Move p e q) (he : e.isAnswer = true) : q.seat? = none := by
  cases h with
  | keepRegistering h x => rfl
  | keepReturned h x => rfl
  | answer h x => rfl
  | «continue» h => rfl
  | _ => cases he

theorem Moves.seat?_of_answers (h : Moves p es q) (hes : ∀ e ∈ es, e.isAnswer = true) (hne : es ≠ []) :
    q.seat? = none := by
  induction h with
  | refl p => exact absurd rfl hne
  | @step p p' q e rest first h ih =>
    obtain ⟨hfirst, hrest⟩ := List.forall_mem_cons.1 hes
    by_cases hrest' : rest = []
    · subst hrest'
      cases h
      exact first.seat?_of_answer hfirst
    · exact ih hrest hrest'

end Seats

/-! ## Fibers that are there, and fibers that are not -/

/-- A fiber has its place, or it was not launched yet. -/
def Placed (f : FiberId) (v : View) : Prop := ∃ es, Accounted f v es

namespace Placed

variable {f : FiberId} {v : View} {w w' : World} {a : Activity} {es : Chronicle}

theorem cases (h : Placed f v) : Absent f v ∨ ∃ p, Fits f v p := by
  obtain ⟨es, haccounted⟩ := h
  rcases haccounted.cases with ⟨-, habsent⟩ | ⟨p, -, hfits⟩
  · exact Or.inl habsent
  · exact Or.inr ⟨p, hfits⟩

theorem requests (h : Placed f (w.view f a)) (hrequests : Requests w es w') : Placed f (w'.view f a) := by
  obtain ⟨before, haccounted⟩ := h
  exact ⟨_, hrequests.accounted haccounted⟩

theorem requested (h : Placed f (w.view f a)) (hrequested : Requested w w') : Placed f (w'.view f a) := by
  obtain ⟨es, hrequests⟩ := hrequested
  exact h.requests hrequests

theorem alike {v' : View} (h : Placed f v) (halike : v.Alike v') : Placed f v' := by
  obtain ⟨es, haccounted⟩ := h
  exact ⟨es, haccounted.alike halike⟩

/-- The order in which tokens are listed makes no difference. -/
theorem seat?_alike {v' : View} (h : Placed f v) (halike : v.Alike v') : v'.seat? = v.seat? := by
  rcases h.cases with habsent | ⟨p, hfits⟩
  · rw [habsent.seat?, View.seat?, halike.record, habsent.record, Option.bind_none]
  · rw [(hfits.alike halike).seat?, hfits.seat?]

/-- A fiber with a seat is there. -/
theorem fits (h : Placed f v) {s : Seat} (hs : v.seat? = some s) : ∃ p, Fits f v p ∧ p.seat? = some s := by
  rcases h.cases with habsent | ⟨p, hfits⟩
  · rw [habsent.seat?] at hs
    cases hs
  · exact ⟨p, hfits, hfits.seat?.symm.trans hs⟩

/-- A request that only asks for interruptions leaves the seat of a fiber alone. -/
theorem seat?_of_requests (h : Placed f (w.view f a)) (hrequests : Requests w es w')
    (hes : ∀ e ∈ history f es, e.isRequest = true) : (w'.view f a).seat? = (w.view f a).seat? := by
  obtain ⟨before, haccounted⟩ := h
  rcases haccounted.cases with ⟨rfl, habsent⟩ | ⟨p, -, hfits⟩
  · rcases (hrequests.accounted haccounted).cases with ⟨-, habsent'⟩ | ⟨q, ⟨root, hook, rest, hcourse, -⟩, -⟩
    · rw [habsent.seat?, habsent'.seat?]
    · have hlaunched := hes (.launched root hook) (by
        rw [List.nil_append] at hcourse
        rw [hcourse]
        exact List.mem_cons_self)
      cases hlaunched
  · obtain ⟨q, hmoves, hq⟩ := hrequests.fits hfits
    rw [hq.seat?, hfits.seat?, hmoves.seat?_of_requests hes]

end Placed

/-! ## Completions -/

namespace World

variable {w : World} {a : Activity} {p : Place} {callback : Callback} {s : Seat}

theorem isAnswer_settleEvents {x : Exit Value Value} :
    ∀ e ∈ history callback.fiber (w.settleEvents callback x), e.isAnswer = true := by
  unfold settleEvents
  split
  · exact List.forall_mem_nil _
  · split
    · exact List.forall_mem_nil _
    · split
      · rw [history_cons_self]
        exact List.forall_mem_singleton.2 rfl
      · rw [history_cons_self, history_cons_self]
        exact List.forall_mem_cons.2 ⟨rfl, List.forall_mem_singleton.2 rfl⟩
      · exact List.forall_mem_nil _

end World

namespace Placed

variable {f : FiberId} {w : World} {a : Activity} {callback : Callback} {s : Seat}

/-- A completion of another fiber's callback leaves the seat of a fiber alone. -/
theorem seat?_settle_of_other (h : callback.fiber ≠ f) (x : Exit Value Value) :
    ((w.settle callback x).view f a).seat? = (w.view f a).seat? := by
  rw [World.view, World.view, World.record_settle_of_ne h, World.tokens_settle_of_ne h]

/-- A completion takes a seat away or leaves it alone. -/
theorem seat?_settle (h : Placed f (w.view f a)) (callback : Callback) (x : Exit Value Value) :
    ((w.settle callback x).view f a).seat? = (w.view f a).seat? ∨ ((w.settle callback x).view f a).seat? = none := by
  by_cases hf : callback.fiber = f
  · subst hf
    rcases h.cases with habsent | ⟨p, hfits⟩
    · rw [(World.settle_of_absent habsent.record x).1]
      exact Or.inl rfl
    · obtain ⟨q, hmoves, hq⟩ := hfits.settle x
      rw [hq.seat?, hfits.seat?]
      by_cases hes : history callback.fiber (w.settleEvents callback x) = []
      · rw [hes] at hmoves
        cases hmoves
        exact Or.inl rfl
      · exact Or.inr (hmoves.seat?_of_answers World.isAnswer_settleEvents hes)
  · exact Or.inl (seat?_settle_of_other hf x)

/-- The completion of a callback does not take away a seat that belongs to another epoch. -/
theorem seat?_settle_of_ne (h : Placed callback.fiber (w.view callback.fiber a))
    (hs : (w.view callback.fiber a).seat? = some s) (hne : s.epoch ≠ callback.epoch) (x : Exit Value Value) :
    ((w.settle callback x).view callback.fiber a).seat? = some s := by
  obtain ⟨p, hfits, hp⟩ := h.fits hs
  obtain ⟨home, hrecord⟩ := hfits.record
  suffices hsame : w.settle callback x = w by rw [hsame, hs]
  by_cases hepoch : p.epoch = callback.epoch
  · rcases Place.seat_epoch hfits hp with ⟨hcurrent, -⟩ | ⟨-, hphase⟩
    · exact absurd (hcurrent.trans hepoch) hne
    · refine (World.settle_of_phase hrecord (fun early hearly => ?_) (fun run canceler hsuspended => ?_) x).1
      · rw [Place.phase_record, hphase] at hearly
        cases hearly
      · rw [Place.phase_record, hphase] at hsuspended
        cases hsuspended
  · exact (World.settle_of_record_epoch hrecord (by rw [Place.epoch_record]; exact hepoch) x).1

/-- The completion of the callback with which a fiber waits takes its seat away, unless the wait has ended already. -/
theorem seat?_settle_self (h : Placed callback.fiber (w.view callback.fiber a))
    (hs : (w.view callback.fiber a).seat? = some s) (hepoch : s.epoch = callback.epoch) (x : Exit Value Value) :
    ((w.settle callback x).view callback.fiber a).seat? = none ∨ s.epoch < w.epoch callback.fiber := by
  obtain ⟨p, hfits, hp⟩ := h.fits hs
  obtain ⟨home, hrecord⟩ := hfits.record
  rcases Place.seat_epoch hfits hp with ⟨hcurrent, hphase⟩ | ⟨hstale, -⟩
  · refine Or.inl ?_
    obtain ⟨q, hmoves, hq⟩ := hfits.settle x
    rw [hq.seat?]
    refine hmoves.seat?_of_answers World.isAnswer_settleEvents ?_
    have hrecordEpoch : (p.record home).epoch = callback.epoch := hcurrent.symm.trans hepoch
    obtain ⟨standing, epoch, requested, hook⟩ := p
    cases standing with
    | returned run early canceler =>
      cases early with
      | none =>
        rw [(World.settle_of_registering hrecord hrecordEpoch rfl x).2]
        simp
      | some y => cases hp
    | parked run canceler =>
      rw [(World.settle_of_suspended hrecord hrecordEpoch rfl x).2]
      simp
    | unwinding ended run canceler => exact absurd rfl hphase
    | _ => cases hp
  · refine Or.inr ?_
    rw [World.epoch_of_record hrecord, Place.epoch_record, ← hstale]
    exact Nat.lt_succ_self _

end Placed

end FiberLoop
