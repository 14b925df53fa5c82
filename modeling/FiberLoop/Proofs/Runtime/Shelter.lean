import FiberLoop.Proofs.Runtime.Accounting

/-!
# Fibers under a shield

A fiber whose whole effect is uninterruptible enters a region with its first step and leaves it with its last one.
Everything in between lies on top of the run inside that region, the `shield`, so it is masked.

The main result of this module is `Sealed.move`: whatever happens to such a fiber, it stays under the shield until
its effect has ended.
-/

namespace FiberLoop

/-- The run inside the outermost region of a fiber whose effect is uninterruptible. -/
def Run.shield : Run := ({} : Run).enter .uninterruptible

/-- A fiber whose effect is the uninterruptible `body`, as far as it has come. -/
inductive Sealed (body : Effect) : Standing → Prop where
  | fresh : Sealed body (.fresh body.uninterruptible)
  | entering : Sealed body (.ready ⟨{}, .eval body.uninterruptible⟩)
  | inside {s : Stand} (h : s.Above .shield) : Sealed body (.ready s)
  | leavingShield {s : Stand} {x : Exit Value Value} (h : s.Feeds .shield x) : Sealed body (.ready s)
  | ended (x : Exit Value Value) : Sealed body (.ready ⟨{}, .ofExit x⟩)
  | registering {run : Run} (h : Run.shield.Within run) (early : Option (Exit Value Value)) :
    Sealed body (.registering run early)
  | returned {run : Run} (h : Run.shield.Within run) (early : Option (Exit Value Value)) (canceler : Canceler) :
    Sealed body (.returned run early canceler)
  | parked {run : Run} (h : Run.shield.Within run) (canceler : Canceler) : Sealed body (.parked run canceler)
  | leaving {run : Run} (h : Run.shield.Within run) (epoch : Nat) (ending : Ending) :
    Sealed body (.leaving epoch run ending)
  | exiting (x : Exit Value Value) : Sealed body (.exiting x)
  | done (x : Exit Value Value) : Sealed body (.done x)

section Sealed

variable {body : Effect} {s s' : Stand} {run : Run}

/-- Above the shield nothing is interruptible. -/
theorem Run.Within.masked (h : Run.shield.Within run) : run.masks.isInterruptible = false :=
  h.not_interruptible (Masks.isInterruptible_push_uninterruptible _)

/-- A stand on a run above the shield is under the shield or about to leave it. -/
theorem Sealed.ready_within (h : Run.shield.Within run) (next : Next) : Sealed body (.ready ⟨run, next⟩) := by
  rcases Stand.above_or_feeds h next with habove | ⟨x, hfeeds⟩
  · exact .inside habove
  · exact .leavingShield hfeeds

/-- The deed of a stand that has come to the shield is to leave the region. -/
theorem Stand.Feeds.deed_shield {x : Exit Value Value} (h : s.Feeds .shield x) :
    s.deed = .move ⟨{}, .ofExit x⟩ := by
  subst h
  cases x <;> rfl

theorem Stand.deed_ended (x : Exit Value Value) : Stand.deed ⟨{}, .ofExit x⟩ = .exit x := by
  cases x <;> rfl

theorem Leads.eq_of_move {way : Way} (h : Leads s way s') {t : Stand} (hdeed : s.deed = .move t) : s' = t := by
  cases h with
  | move hdeed' =>
    rw [hdeed] at hdeed'
    exact (Deed.move.inj hdeed').symm
  | call hdeed' | cut hdeed' | cutWait hdeed' | ended hdeed' =>
    rw [hdeed] at hdeed'
    cases hdeed'

theorem Leads.not_ended {way : Way} {x : Exit Value Value} : ¬ Leads ⟨{}, .ofExit x⟩ way s' := by
  intro h
  cases h with
  | move hdeed | call hdeed | cut hdeed | cutWait hdeed | ended hdeed =>
    rw [Stand.deed_ended] at hdeed
    cases hdeed

theorem Sealed.leads {way : Way} (h : Sealed body (.ready s)) (hleads : Leads s way s') :
    Sealed body (.ready s') := by
  cases h with
  | inside habove =>
    rcases hleads.stays habove with habove' | ⟨x, hfeeds⟩
    · exact .inside habove'
    · exact .leavingShield hfeeds
  | entering =>
    rw [hleads.eq_of_move rfl]
    exact .ready_within .refl _
  | leavingShield hfeeds =>
    rw [hleads.eq_of_move hfeeds.deed_shield]
    exact .ended _
  | ended x => exact absurd hleads Leads.not_ended

/-- Only a fiber on a run above the shield registers anything. -/
theorem Sealed.within_of_register {r : Registration} (h : Sealed body (.ready s)) (hdeed : s.deed = .register r) :
    Run.shield.Within s.run := by
  cases h with
  | inside habove => exact habove.1
  | entering => cases hdeed
  | leavingShield hfeeds =>
    rw [hfeeds.deed_shield] at hdeed
    cases hdeed
  | ended x =>
    rw [Stand.deed_ended] at hdeed
    cases hdeed

/-- Only a fiber above the shield calls anything. -/
theorem Sealed.within_of_call {c : Call} (h : Sealed body (.ready s)) (hdeed : s.deed = .call c run) :
    Run.shield.Within run := by
  cases h with
  | inside habove => exact habove.call hdeed
  | entering => cases hdeed
  | leavingShield hfeeds =>
    rw [hfeeds.deed_shield] at hdeed
    cases hdeed
  | ended x =>
    rw [Stand.deed_ended] at hdeed
    cases hdeed

theorem Sealed.within_of_returned {early : Option (Exit Value Value)} {canceler : Canceler}
    (h : Sealed body (.returned run early canceler)) : Run.shield.Within run := by
  cases h with
  | returned h => exact h

theorem Sealed.within_of_parked {canceler : Canceler} (h : Sealed body (.parked run canceler)) :
    Run.shield.Within run := by
  cases h with
  | parked h => exact h

/-- **A fiber under the shield stays there until its effect has ended.** -/
theorem Sealed.move {p q : Place} {e : Event} (h : Sealed body p.standing) (hmove : Move p e q) :
    Sealed body q.standing := by
  cases hmove with
  | begin hp =>
    rw [hp] at h
    cases h
    exact .entering
  | step hp hleads =>
    rw [hp] at h
    exact h.leads hleads
  | register hp hdeed =>
    rw [hp] at h
    exact .registering (h.within_of_register hdeed) none
  | «return» hp canceler =>
    rw [hp] at h
    cases h with
    | registering h => exact .returned h _ canceler
  | keepRegistering hp x =>
    rw [hp] at h
    cases h with
    | registering h => exact .registering h _
  | keepReturned hp x =>
    rw [hp] at h
    exact .returned h.within_of_returned _ _
  | park hp hopen =>
    rw [hp] at h
    exact .parked h.within_of_returned _
  | request => exact h
  | throw hp d =>
    rw [hp] at h
    cases h with
    | registering h => exact .leaving h _ _
  | early hp =>
    rw [hp] at h
    exact .leaving h.within_of_returned _ _
  | answer hp x =>
    rw [hp] at h
    exact .leaving h.within_of_parked _ _
  | interruptReturned hp hopen =>
    rw [hp] at h
    rw [h.within_of_returned.masked] at hopen
    cases hopen
  | interruptParked hp hopen =>
    rw [hp] at h
    rw [h.within_of_parked.masked] at hopen
    cases hopen
  | cancel hp =>
    rw [hp] at h
    cases h
  | «continue» hp =>
    rw [hp] at h
    cases h with
    | leaving h => exact .ready_within h _
  | exit hp hdeed => exact .exiting _
  | tell hp => exact .done _

theorem Sealed.moves {p q : Place} {es : List Event} (h : Sealed body p.standing) (hmoves : Moves p es q) :
    Sealed body q.standing := by
  induction hmoves with
  | refl p => exact h
  | step first _ ih => exact ih (h.move first)

end Sealed

end FiberLoop
