import FiberLoop.Proofs.Deferreds.Lines
import FiberLoop.Proofs.Runtime.Growing
import FiberLoop.Proofs.Runtime.Steadiness
import FiberLoop.Proofs.Runtime.Scenes
import Mathlib.Data.List.Nodup

/-!
# Lines and seats agree in every run

A moment is tidy if lines and seats agree and nobody but the lines holds a callback of a fiber that has a seat. Each
small thing that the loop does keeps a moment tidy. Only a fiber that waits joins a line, at the end of it, and only
its own canceler takes it out of the line again.

The main result of this module is `Scene.Occurs.tidy`: every moment of every run is tidy.
-/

namespace FiberLoop

open World

/-- Whether a line is joined or left next. -/
def Activity.lines : Activity → Bool
  | .registering _ _ _ r _ => r.isWait
  | .canceling _ _ _ canceler => canceler.isWaiter
  | _ => false

/-- Lines and seats agree, and the hidden callbacks are held by nobody but the lines. Deferreds that were there in a
world before are as they were, or were completed. -/
structure Moment.Tidy (hidden : Callback → Prop) (before : World) (m : Moment) : Prop where
  people : m.Peopled
  quiet : m.world.TimersQuiet
  lined : m.Lined
  confined : m.world.Confined (.hiding hidden)
  hides : ∀ callback, m.Hides callback → hidden callback
  advances : before.Advances m.world

section Tidying

variable {hidden : Callback → Prop} {before : World} {m m' : Moment} {w w' : World} {a a' : Activity} {f : FiberId} {left : Nat}
  {run : Run} {s : Stand} {r : Registration} {epoch : Nat} {canceler : Canceler} {d : DeferredId} {x : Exit Value Value} {hook : ExitHook}

theorem Moment.Peopled.leads (h : m.Peopled) (hleads : LeadsTo m m') : m'.Peopled := fun f => by
  obtain ⟨es, htransitions⟩ := hleads
  obtain ⟨before, haccounted⟩ := h f
  exact ⟨_, htransitions.accounted haccounted⟩

/-- The task of a fiber waits for it. -/
theorem Moment.Peopled.fits_of_inbox (h : Moment.Peopled ⟨w, .idle⟩) {task : Task} {rest : List Message}
    (hinbox : w.loop.inbox = .task task :: rest) (ht : task.fiber? = some f) : ∃ p, Fits f (w.view f .idle) p := by
  rcases (h f).cases with habsent | ⟨p, hp⟩
  · have htokens : w.tokens f = [] := habsent.tokens
    rw [tokens_of_inbox_self hinbox ht] at htokens
    cases htokens
  · exact ⟨p, Moment.view_idle ▸ hp⟩

theorem World.epoch_le_modifyFiber (f : FiberId) {change : Fiber → Fiber} (h : ∀ r : Fiber, r.epoch ≤ (change r).epoch)
    (w : World) (g : FiberId) : w.epoch g ≤ (w.modifyFiber f change).epoch g := by
  by_cases hg : f = g
  · subst hg
    rw [epoch, epoch, fiber?_modifyFiber_self]
    cases w.fiber? f with
    | none => exact Nat.le_refl _
    | some r => exact h r
  · exact Nat.le_of_eq (by rw [epoch, epoch, fiber?_modifyFiber_of_ne hg])

namespace World

theorem Confined.announce {V : Scope} (hw : w.Confined V) (f : FiberId) {x : Exit Value Value} (hx : Value.ExitIn V x) :
    (w.announce f x hook).Confined V := by
  unfold World.announce
  split
  · exact hw.setNotice hx
  · exact hw

theorem stores_announce (w : World) (f : FiberId) (x : Exit Value Value) (hook : ExitHook) :
    (w.announce f x hook).stores = w.stores := by
  unfold World.announce
  split <;> rfl

theorem epoch_le_announce (w : World) (f : FiberId) (x : Exit Value Value) (hook : ExitHook) (g : FiberId) :
    w.epoch g ≤ (w.announce f x hook).epoch g := by
  unfold World.announce
  split
  · refine epoch_le_modifyFiber f ?_ w g
    exact fun r => Nat.le_refl r.epoch
  · exact Nat.le_refl _

end World

/-- A fiber whose exit is told is done, and the others are where they were. -/
theorem Moment.Peopled.announce (h : Moment.Peopled ⟨w, .exiting f x hook⟩) :
    Moment.Peopled ⟨w.announce f x hook, .idle⟩ := fun g => by
  have hbefore := h g
  rw [Moment.view_idle]
  by_cases hg : f = g
  · subst hg
    obtain ⟨es, haccounted⟩ := hbefore
    rw [Moment.view_self rfl] at haccounted
    rcases haccounted.cases with ⟨-, habsent⟩ | ⟨q, hcourse, hq⟩
    · cases habsent.activity
    · obtain ⟨rfl, hstanding, hdone⟩ := hq.announce
      exact ⟨_, .course (hcourse.append (.one (.tell hstanding))) hdone⟩
  · rwa [Moment.view_of_ne rfl hg, ← view_announce_of_ne hg w x hook .idle] at hbefore

/-- Fibers other than the one that acts show the same, so only the seat of that one has to be looked at. -/
theorem Moment.seat?_of_own (ha : a.fiber? = some f ∨ a = .idle) (ha' : a'.fiber? = some f ∨ a' = .idle)
    (hother : ∀ g, f ≠ g → w'.view g .idle = w.view g .idle)
    (hself : Moment.seat? f ⟨w', a'⟩ = Moment.seat? f ⟨w, a⟩) (g : FiberId) :
    Moment.seat? g ⟨w', a'⟩ = Moment.seat? g ⟨w, a⟩ := by
  by_cases hg : f = g
  · exact hg ▸ hself
  · have hview (v : World) {c : Activity} (hc : c.fiber? = some f ∨ c = .idle) :
        Moment.view g ⟨v, c⟩ = v.view g .idle := by
      rcases hc with hc | rfl
      · exact Moment.view_of_ne hc hg
      · exact Moment.view_idle
    rw [Moment.seat?, Moment.seat?, hview w' ha', hview w ha, hother g hg]

/-- An exit is told when it is in the notice of its fiber already, by a computation of the judgement. -/
theorem ExitHook.run_eq_announce {V : Scope} {J : Judgement} [Tracks V J] (hw : w.Confined V) (f : FiberId)
    {x : Exit Value Value} (hx : Value.ExitIn V x) (hook : ExitHook) (hjoint : ∀ j, hook.joint? = some j → V.joint j) :
    ∃ act : Act Unit, J Unit act (fun _ => True) ∧ (hook.run f x).attempt w = act.attempt (w.announce f x hook) := by
  by_cases hpublish : hook = .publish
  · subst hpublish
    by_cases hpending : ∃ listeners key, w.notice? f = some (.pending listeners key)
    · obtain ⟨listeners, key, hnotice⟩ := hpending
      have hlisteners : ∀ l ∈ listeners, l.2.In V := hw.notices f _ hnotice
      refine ⟨listeners.forM fun l => l.2.notify x, Tracks.forM listeners fun l hl => Tracks.notify (hlisteners l hl) hx, ?_⟩
      rw [attempt_publish hnotice, announce_of_pending hnotice]
    · have hnotice := fun listeners key hnotice => hpending ⟨listeners, key, hnotice⟩
      refine ⟨pure (), Tracks.pure trivial, ?_⟩
      rw [attempt_publish_of_not_pending hnotice, announce_of_not_pending hnotice]
      rfl
  · have hsame : w.announce f x hook = w := by
      cases hook <;> first | rfl | exact absurd rfl hpublish
    refine ⟨hook.run f x, Tracks.exitHook f hx hjoint fun he => absurd he hpublish, ?_⟩
    rw [hsame]

namespace Moment.Tidy

/-! ## What keeps a moment tidy -/

theorem rebase (h : m.Tidy hidden before) : m.Tidy hidden m.world := { h with advances := .refl _ }

/-- Nothing happens to the deferreds, and no seat is taken or lost. -/
theorem shift (h : m.Tidy hidden before) (hpeople : m'.Peopled) (hquiet : m'.world.TimersQuiet)
    (hconfined : m'.world.Confined (.hiding hidden))
    (hdeferreds : m'.world.stores.deferreds = m.world.stores.deferreds) (hseat : ∀ f, m'.seat? f = m.seat? f)
    (hepoch : ∀ f, m.world.epoch f ≤ m'.world.epoch f)
    (hjoining : ∀ f left run d epoch, m'.activity = .registering f left run (.deferred d) epoch →
      m'.world.phase? f = some (.registering none) ∧ hidden ⟨f, epoch⟩) : m'.Tidy hidden before := by
  refine ⟨hpeople, hquiet, h.lined.shift hdeferreds hseat hepoch fun f left run d epoch hm =>
    (hjoining f left run d epoch hm).1, hconfined, fun callback hhides => ?_, h.advances.trans (.of_eq hdeferreds)⟩
  cases hhides with
  | seated hs hs' => exact h.hides _ (.seated (hseat _ ▸ hs) hs')
  | joining hm => exact (hjoining _ _ _ _ _ hm).2
  | future hlt => exact h.hides _ (.future (Nat.lt_of_le_of_lt (hepoch _) hlt))

/-- A step after which nobody is about to join a line. -/
theorem leads (h : m.Tidy hidden before) (hleads : LeadsTo m m') (hconfined : m'.world.Confined (.hiding hidden))
    (hdeferreds : m'.world.stores.deferreds = m.world.stores.deferreds) (hseat : ∀ f, m'.seat? f = m.seat? f)
    (hepoch : ∀ f, m.world.epoch f ≤ m'.world.epoch f)
    (hjoining : ∀ f left run d epoch, m'.activity ≠ .registering f left run (.deferred d) epoch) : m'.Tidy hidden before :=
  h.shift (h.people.leads hleads) (hleads.timersQuiet h.quiet) hconfined hdeferreds hseat hepoch
    fun f left run d epoch hm => absurd hm (hjoining f left run d epoch)

/-- Something is done by somebody who does not know the hidden callbacks. -/
theorem handles (h : Moment.Tidy hidden before ⟨w, a⟩) (hconfined : w'.Confined (.hiding hidden))
    (hhandles : w.Handles hidden w') : Moment.Tidy hidden before ⟨w', a⟩ := by
  have hrequested := hhandles.requested
  obtain ⟨hlined, hvacates⟩ := hhandles.lined h.people h.hides h.lined
  obtain ⟨es, hrequests⟩ := hrequested
  exact ⟨h.people.requested ⟨es, hrequests⟩, h.quiet.requests hrequests, hlined, hconfined,
    fun callback hhides => h.hides callback (hvacates.hides (epoch_le_of_requested ⟨es, hrequests⟩) hhides),
    h.advances.trans hhandles.advances⟩

theorem caught (h : Moment.Tidy hidden before ⟨w, a⟩) {α : Type} {act : Act α} {Q : α → Prop}
    (hact : Handling hidden α act Q) :
    Moment.Tidy hidden before ⟨(act.caught w).2, a⟩ ∧ ∀ x, (act.caught w).1 = .ok x → Q x := by
  obtain ⟨⟨hconfined, hhandles⟩, hresult⟩ := hact.caught h.confined
  exact ⟨h.handles hconfined hhandles, hresult⟩

theorem attempt (h : Moment.Tidy hidden before ⟨w, a⟩) {α : Type} {act : Act α} {Q : α → Prop}
    (hact : Handling hidden α act Q) : Moment.Tidy hidden before ⟨act.attempt w, a⟩ := (h.caught hact).1

/-- A fiber goes on in the same world. -/
theorem become (h : Moment.Tidy hidden before ⟨w, a⟩) (ha : a.fiber? = some f) (ha' : a'.fiber? = some f)
    (hpeople : Moment.Peopled ⟨w, a'⟩) (hself : Moment.seat? f ⟨w, a'⟩ = Moment.seat? f ⟨w, a⟩)
    (hjoining : ∀ f left run d epoch, a' ≠ .registering f left run (.deferred d) epoch) :
    Moment.Tidy hidden before ⟨w, a'⟩ :=
  h.shift hpeople h.quiet h.confined rfl
    (Moment.seat?_of_own (Or.inl ha) (Or.inl ha') (fun _ _ => rfl) hself) (fun _ => Nat.le_refl _)
    fun f left run d epoch hm => absurd hm (hjoining f left run d epoch)

/-- The record of a fiber changes, and nothing is queued. -/
theorem modify (h : Moment.Tidy hidden before ⟨w, a⟩) (ha : a.fiber? = some f) (ha' : a'.fiber? = some f ∨ a' = .idle)
    {change : Fiber → Fiber} (hpeople : Moment.Peopled ⟨w.modifyFiber f change, a'⟩)
    (hnotice : ∀ r : Fiber, (change r).notice = r.notice) (hepoch : ∀ r, r.epoch ≤ (change r).epoch)
    (hself : Moment.seat? f ⟨w.modifyFiber f change, a'⟩ = Moment.seat? f ⟨w, a⟩)
    (hjoining : ∀ f' left run d epoch, a' = .registering f' left run (.deferred d) epoch →
      (w.modifyFiber f change).phase? f' = some (.registering none) ∧ hidden ⟨f', epoch⟩) :
    Moment.Tidy hidden before ⟨w.modifyFiber f change, a'⟩ :=
  h.shift hpeople (h.quiet.modifyFiber f change)
    (h.confined.modifyPhase f change (fun _ _ _ _ _ => trivial) hnotice hepoch) rfl
    (Moment.seat?_of_own (Or.inl ha) ha' (fun _ hg => view_modifyFiber_of_ne hg w change .idle) hself)
    (epoch_le_modifyFiber f hepoch w) hjoining

/-! ## A fiber that runs -/

theorem yield (h : Moment.Tidy hidden before ⟨w, .running f 0 s⟩) :
    Moment.Tidy hidden before ⟨w.dispatch (.resume f s.run s.next), .idle⟩ := by
  obtain ⟨p, hp⟩ := h.people.fits rfl
  refine h.leads (.single (.yield w f s)) (h.confined.dispatch fun _ => ⟨fun _ _ => trivial, fun _ _ => trivial⟩) rfl
    (Moment.seat?_of_own (Or.inl rfl) (Or.inr rfl) (fun g hg => ?_) ?_) (fun _ => Nat.le_refl _) nofun
  · have hother : (Task.resume f s.run s.next).fiber? ≠ some g := fun he => hg (Option.some.inj he)
    rw [dispatch_eq_dispatchTo, World.view, record_dispatchTo, tokens_dispatchTo_of_ne hother]
    rfl
  · rw [Moment.seat?, Moment.view_idle, hp.yield.seat?, Place.seat?, hp.held.of_running.1]
    exact (Moment.seat?_of_activity rfl rfl).symm

theorem act (h : Moment.Tidy hidden before ⟨w, .running f (left + 1) s⟩) : Moment.Tidy hidden before (w.act f left s) := by
  have hpeople := h.people.leads (.act w f left s)
  have hseat {v : World} {n : Nat} {s' : Stand} :
      Moment.seat? f ⟨v, .running f n s'⟩ = Moment.seat? f ⟨w, .running f (left + 1) s⟩ := by
    rw [Moment.seat?_of_activity rfl rfl, Moment.seat?_of_activity rfl rfl]
  obtain ⟨p, hp⟩ := h.people.fits rfl
  obtain ⟨home, hrecord⟩ := hp.record
  unfold World.act at hpeople ⊢
  cases hdeed : s.deed with
  | move s' =>
    simp only [hdeed] at hpeople ⊢
    exact h.become rfl rfl hpeople hseat nofun
  | call c run =>
    simp only [hdeed] at hpeople ⊢
    split at hpeople
    · rename_i hcuts
      rw [if_pos hcuts]
      exact h.become rfl rfl hpeople hseat nofun
    · rename_i hcuts
      rw [if_neg hcuts]
      exact (h.caught (TracksAll.call c)).1.become rfl rfl hpeople
        (by rw [Moment.seat?_of_activity rfl rfl, Moment.seat?_of_activity rfl rfl]) nofun
  | register registration =>
    simp only [hdeed] at hpeople ⊢
    split at hpeople
    · rename_i hpending
      rw [if_pos hpending]
      exact h.become rfl rfl hpeople hseat nofun
    · rename_i hpending
      rw [if_neg hpending]
      have hrecord' := record_advanceEpoch hrecord (.registering none)
      refine h.modify rfl (Or.inl rfl) hpeople (fun _ => rfl) (fun r => Nat.le_succ r.epoch)
        (by rw [Moment.seat?_of_activity rfl rfl, Moment.seat?_of_activity rfl rfl]) ?_
      rintro f' left' run d epoch hm
      cases hm
      refine ⟨phase?_of_record hrecord', h.hides _ (.future ?_)⟩
      show w.epoch f < (w.advanceEpoch f (.registering none)).epoch f
      rw [epoch_of_record hrecord', epoch_of_record hrecord]
      exact Nat.lt_succ_self _
  | exit x =>
    have hhook : (w.fiber? f).bind (·.hook) = some p.hook := hp.hook_of_running
    simp only [hdeed, hhook] at hpeople ⊢
    exact h.modify rfl (Or.inl rfl) hpeople (fun _ => rfl) (fun r => Nat.le_refl r.epoch)
      (by rw [Moment.seat?_of_activity rfl rfl, Moment.seat?_of_activity rfl rfl]) nofun

/-! ## Registrations -/

/-- A registration that is no wait for a deferred touches no line. -/
theorem beginRegistration_of_other (h : Moment.Tidy hidden before ⟨w, .registering f left run r epoch⟩)
    (hr : r.isWait = false) (hcallback : ¬ hidden ⟨f, epoch⟩) :
    Moment.Tidy hidden before (w.beginRegistration f left run r epoch) := by
  have hpeople := h.people.leads (.beginRegistration w f left run r epoch)
  have hact : Handling hidden Canceler (r.run ⟨f, epoch⟩)
      fun c => c.In (.hiding hidden) ∧ (c.isWaiter = true → (Scope.hiding hidden).lines) :=
    Tracks.registration (fun _ _ => trivial) hcallback (fun hwait => absurd (hwait.symm.trans hr) nofun)
      fun _ => trivial
  obtain ⟨htidy, hresult⟩ := h.caught hact
  unfold World.beginRegistration at hpeople ⊢
  cases hcaught : (r.run ⟨f, epoch⟩).caught w with
  | mk result v =>
    rw [hcaught] at htidy hresult hpeople
    cases result with
    | error d =>
      exact htidy.modify rfl (Or.inl rfl) hpeople (fun _ => rfl) (fun r => Nat.le_succ r.epoch)
        (by rw [Moment.seat?_of_activity rfl rfl, Moment.seat?_of_activity rfl rfl]) nofun
    | ok canceler =>
      refine htidy.become rfl rfl hpeople ?_ nofun
      rw [Moment.seat?_of_activity (a := .registering ..) rfl rfl]
      exact Moment.seat?_of_canceler (Or.inl rfl) (Bool.eq_false_iff.2 fun hwaiter => (hresult canceler rfl).2 hwaiter)

/-- A fiber that is about to join a line takes a seat at its end. -/
theorem seat?_join {key : Nat} {row : Deferred} (h : Moment.Tidy hidden before ⟨w, .registering f left run (.deferred d) epoch⟩) :
    Moment.seat? f ⟨w.setDeferred d row, .returning f left run (.waiter d key)⟩ = some ⟨d, key, epoch⟩ := by
  obtain ⟨p, hp⟩ := h.people.fits rfl
  obtain ⟨home, hrecord⟩ := hp.record
  obtain ⟨⟨early, hstanding⟩, -, rfl⟩ := hp.held.of_registering
  have hphase := h.lined.unanswered f left run d p.epoch rfl
  rw [phase?_of_record hrecord, Place.phase_record] at hphase
  have hrecord' : (w.setDeferred d row).record f = some (p.record home) := hrecord
  rw [Moment.seat?, Moment.view_self rfl, World.view, View.seat?, hrecord', Option.bind_some]
  simp only [Place.phase_record, Option.some.inj hphase]
  rfl

/-- A fiber that waits for a deferred joins its line at the end. -/
theorem join {waiters : List (Nat × Callback)} {key : Nat}
    (h : Moment.Tidy hidden before ⟨w, .registering f left run (.deferred d) epoch⟩)
    (hrow : w.deferred? d = some (.pending waiters key))
    (hpeople : Moment.Peopled ⟨w.setDeferred d (.pending (waiters ++ [(key, ⟨f, epoch⟩)]) (key + 1)),
      .returning f left run (.waiter d key)⟩) :
    Moment.Tidy hidden (w.setDeferred d (.pending (waiters ++ [(key, ⟨f, epoch⟩)]) (key + 1))) ⟨w.setDeferred d (.pending (waiters ++ [(key, ⟨f, epoch⟩)]) (key + 1)),
      .returning f left run (.waiter d key)⟩ := by
  obtain ⟨hordered, hnext⟩ := h.lined.ordered d _ hrow
  have hnone : Moment.seat? f ⟨w, .registering f left run (.deferred d) epoch⟩ = none :=
    Moment.seat?_of_activity rfl rfl
  have hother {g : FiberId} (hg : f ≠ g) :
      Moment.seat? g ⟨w.setDeferred d (.pending (waiters ++ [(key, ⟨f, epoch⟩)]) (key + 1)),
        .returning f left run (.waiter d key)⟩ = Moment.seat? g ⟨w, .registering f left run (.deferred d) epoch⟩ := by
    rw [Moment.seat?, Moment.seat?, Moment.view_of_ne rfl hg, Moment.view_of_ne rfl hg]
    rfl
  have hself : (w.setDeferred d (.pending (waiters ++ [(key, ⟨f, epoch⟩)]) (key + 1))).deferred? d =
      some (.pending (waiters ++ [(key, ⟨f, epoch⟩)]) (key + 1)) := deferred?_setDeferred_self hrow
  have hseated {d' : DeferredId} {e : Nat × Callback} (he : e ∈ w.line d') : f ≠ e.2.fiber := by
    intro hf
    have hs := h.lined.seated d' e he
    rw [← hf, hnone] at hs
    cases hs
  refine ⟨hpeople, ⟨h.quiet.loop, h.quiet.aside⟩, ⟨fun d' row hd' => ?_, fun d' e he => ?_, fun g s hs => ?_, by rintro _ _ _ _ _ ⟨⟩⟩,
    (h.confined.stays_setDeferred trivial (Deferred.in_hiding _) (Or.inl trivial)).confined, fun callback hhides => ?_, .refl _⟩
  · by_cases hd : d' = d
    · subst hd
      cases hself.symm.trans hd'
      refine ⟨?_, fun e he => ?_⟩
      · rw [List.map_append, List.pairwise_append]
        refine ⟨hordered, List.pairwise_singleton _ _, fun k hk k' hk' => ?_⟩
        obtain ⟨e, he, rfl⟩ := List.mem_map.1 hk
        rw [List.mem_singleton.1 hk']
        exact hnext e he
      · rcases List.mem_append.1 he with he | he
        · exact Nat.lt_succ_of_lt (hnext e he)
        · rw [List.mem_singleton.1 he]
          exact Nat.lt_succ_self key
    · exact h.lined.ordered d' row ((deferred?_setDeferred_of_ne hd).symm.trans hd')
  · by_cases hd : d' = d
    · subst hd
      rw [line_of_pending hself] at he
      rcases List.mem_append.1 he with he | he
      · rw [← line_of_pending hrow] at he
        exact (hother (hseated he)).trans (h.lined.seated d' e he)
      · rw [List.mem_singleton.1 he]
        exact h.seat?_join
    · rw [line_congr (deferred?_setDeferred_of_ne hd)] at he
      exact (hother (hseated he)).trans (h.lined.seated d' e he)
  · by_cases hg : f = g
    · subst hg
      cases h.seat?_join.symm.trans hs
      exact Or.inl (by rw [line_of_pending hself]; exact List.mem_append_right _ (List.mem_singleton.2 rfl))
    · have hbefore := h.lined.lined g s ((hother hg).symm.trans hs)
      by_cases hd : s.deferred = d
      · rw [hd, line_of_pending hrow, pollDeferred, hrow] at hbefore
        rw [hd, line_of_pending hself]
        exact Or.inl (List.mem_append_left _ (hbefore.resolve_right (by rintro ⟨-, ⟨⟩⟩)))
      · rw [line_congr (deferred?_setDeferred_of_ne hd), pollDeferred, deferred?_setDeferred_of_ne hd]
        exact hbefore
  · cases hhides with
    | @seated s hs hepoch =>
      obtain ⟨g, e⟩ := callback
      by_cases hg : f = g
      · subst hg
        cases h.seat?_join.symm.trans hs
        cases hepoch
        exact h.hides _ (.joining rfl)
      · exact h.hides _ (.seated ((hother hg).symm.trans hs) hepoch)
    | joining hm => cases hm
    | future hlt => exact h.hides callback (.future hlt)

/-- A fiber that waits for a deferred joins its line, unless the deferred was completed. -/
theorem beginRegistration_of_wait (h : Moment.Tidy hidden before ⟨w, .registering f left run (.deferred d) epoch⟩) :
    Moment.Tidy hidden (w.beginRegistration f left run (.deferred d) epoch).world
      (w.beginRegistration f left run (.deferred d) epoch) := by
  have hpeople := h.people.leads (.beginRegistration w f left run (.deferred d) epoch)
  have hseat {v : World} : Moment.seat? f ⟨v, .returning f left run .none⟩ =
      Moment.seat? f ⟨w, .registering f left run (.deferred d) epoch⟩ := by
    rw [Moment.seat?_of_canceler (Or.inl rfl) rfl, Moment.seat?_of_activity rfl rfl]
  unfold World.beginRegistration at hpeople ⊢
  cases hrow : w.deferred? d with
  | none =>
    rw [run_deferred_of_none hrow] at hpeople ⊢
    exact (h.become rfl rfl hpeople hseat nofun).rebase
  | some row =>
    cases row with
    | done x =>
      rw [run_deferred_of_done hrow] at hpeople ⊢
      refine (h.shift hpeople (h.quiet.settle _ x) (h.confined.settle _ fun _ _ => trivial)
        (congrArg _ (stores_settle w _ x)) (Moment.seat?_of_own (Or.inl rfl) (Or.inl rfl) (fun g hg => ?_) hseat)
        (Later.settle w _ x).epoch_le nofun).rebase
      rw [World.view, World.view, record_settle_of_ne hg, tokens_settle_of_ne hg]
    | pending waiters key =>
      rw [run_deferred_of_pending hrow] at hpeople ⊢
      exact h.join hrow hpeople

theorem leaveRegistration (h : Moment.Tidy hidden before ⟨w, .returning f left run canceler⟩) :
    Moment.Tidy hidden before (w.leaveRegistration f left run canceler) := by
  have hpeople := h.people.leads (.leaveRegistration w f left run canceler)
  obtain ⟨p, hp⟩ := h.people.fits rfl
  have hbefore : Moment.seat? f ⟨w, .returning f left run canceler⟩ = p.seat? := by
    rw [Moment.seat?, Moment.view_self rfl, hp.seat?]
  unfold World.leaveRegistration at hpeople ⊢
  split at hpeople
  · rename_i x hphase
    obtain ⟨hstanding, -⟩ := hp.returned_of_phase hphase
    refine h.modify rfl (Or.inl rfl) hpeople (fun _ => rfl) (fun r => Nat.le_succ r.epoch) ?_ (by rintro _ _ _ _ _ ⟨⟩)
    rw [hbefore, Moment.seat?_of_activity rfl rfl, Place.seat?, hstanding]
  · rename_i hphase
    split at hpeople
    · rename_i hpending
      obtain ⟨q, hmoves, hq⟩ := hp.leave hphase hpending
      rw [if_pos hpending]
      refine h.modify rfl (Or.inl rfl) hpeople (fun _ => rfl) (fun r => Nat.le_succ r.epoch) ?_ (by rintro _ _ _ _ _ ⟨⟩)
      rw [hbefore, Moment.seat?, Moment.view_self rfl]
      exact hq.seat?.trans (hmoves.seat?_of_requests (List.forall_mem_singleton.2 rfl))
    · rename_i hpending
      obtain ⟨hstanding, -⟩ := hp.returned_of_phase hphase
      obtain ⟨q, hmoves, hq⟩ := hp.park hphase (Bool.eq_false_iff.2 hpending)
      rw [if_neg hpending]
      refine h.modify rfl (Or.inr rfl) hpeople (fun _ => rfl) (fun r => Nat.le_refl r.epoch) ?_ (by rintro _ _ _ _ _ ⟨⟩)
      rw [hbefore, Moment.seat?, Moment.view_idle]
      refine hq.seat?.trans ?_
      rw [hmoves.one_eq.of_parked hstanding, Place.seat?, Place.seat?, hstanding]
      cases canceler <;> rfl
  · rename_i hphase hphase'
    refine (hp.not_unexpected fun early hearly => ?_).elim
    cases early with
    | none => exact hphase' hearly
    | some x => exact hphase x hearly

/-! ## Cancelers -/

/-- A canceler that is not one of a wait touches no line. -/
theorem cancel_of_other (h : Moment.Tidy hidden before ⟨w, .canceling f left run canceler⟩)
    (hcanceler : canceler.isWaiter = false)
    (hpeople : Moment.Peopled ⟨canceler.cancel.attempt w, .running f left s⟩) :
    Moment.Tidy hidden before ⟨canceler.cancel.attempt w, .running f left s⟩ :=
  (h.attempt (Tracks.canceler (J := Handling hidden) (fun _ _ => trivial)
    fun hwaiter => absurd (hwaiter.symm.trans hcanceler) nofun)).become rfl rfl hpeople
    ((Moment.seat?_of_activity rfl rfl).trans (Moment.seat?_of_canceler (Or.inr rfl) hcanceler).symm) nofun

/-- A fiber that cancels its wait has the seat that the canceler gives up. -/
theorem seat?_canceling {key : Nat} (h : Moment.Tidy hidden before ⟨w, .canceling f left run (.waiter d key)⟩) :
    ∃ epoch, Moment.seat? f ⟨w, .canceling f left run (.waiter d key)⟩ = some ⟨d, key, epoch⟩ := by
  obtain ⟨p, hp⟩ := h.people.fits rfl
  obtain ⟨ended, hstanding, -⟩ := hp.held.of_canceling
  refine ⟨ended, ?_⟩
  rw [Moment.seat?, Moment.view_self rfl, hp.seat?, Place.seat?, hstanding]

/-- Who cancels a wait takes its own place out of the line. -/
theorem mem_line_leave {key : Nat} (h : Moment.Tidy hidden before ⟨w, .canceling f left run (.waiter d key)⟩)
    {d' : DeferredId} {e : Nat × Callback} :
    e ∈ (w.leaveDeferred d key).line d' ↔ e ∈ w.line d' ∧ e.2.fiber ≠ f := by
  obtain ⟨epoch, hseat⟩ := h.seat?_canceling
  have hown {d' : DeferredId} {e : Nat × Callback} (he : e ∈ w.line d') (hf : e.2.fiber = f) : d' = d ∧ e.1 = key := by
    have hs := h.lined.seated d' e he
    rw [hf, hseat] at hs
    cases hs
    exact ⟨rfl, rfl⟩
  by_cases hd : d' = d
  · subst hd
    rw [line_leaveDeferred h.lined.ordered, List.mem_filter, bne_iff_ne]
    refine and_congr_right fun he => ⟨fun hkey hf => hkey (hown he hf).2, fun hf hkey => ?_⟩
    obtain ⟨next, hrow⟩ := pending_of_mem_line he
    have hmem := (h.lined.lined f _ hseat).resolve_right fun ⟨_, hdone⟩ => by
      rw [pollDeferred, hrow] at hdone
      cases hdone
    have hnodup := (h.lined.ordered d' _ hrow).1.imp Nat.ne_of_lt
    exact hf (congrArg (·.2.fiber) (List.inj_on_of_nodup_map hnodup he hmem hkey))
  · rw [line_congr (deferred?_leaveDeferred_of_ne hd)]
    exact ⟨fun he => ⟨he, fun hf => hd (hown he hf).1⟩, And.left⟩

/-- The canceler of a wait gives up the seat of its fiber. -/
theorem cancel_of_wait {key : Nat} (h : Moment.Tidy hidden before ⟨w, .canceling f left run (.waiter d key)⟩)
    (hpeople : Moment.Peopled ⟨w.leaveDeferred d key, .running f left s⟩) :
    Moment.Tidy hidden (w.leaveDeferred d key) ⟨w.leaveDeferred d key, .running f left s⟩ := by
  have hrequested := Requested.leaveDeferred w d key
  have hself : Moment.seat? f ⟨w.leaveDeferred d key, .running f left s⟩ = none := Moment.seat?_of_activity rfl rfl
  have hother {g : FiberId} (hg : f ≠ g) : Moment.seat? g ⟨w.leaveDeferred d key, .running f left s⟩ =
      Moment.seat? g ⟨w, .canceling f left run (.waiter d key)⟩ := by
    rw [Moment.seat?, Moment.seat?, Moment.view_of_ne rfl hg, Moment.view_of_ne rfl hg, view_leaveDeferred]
  have hvacates {g : FiberId} {s' : Seat} (hs : Moment.seat? g ⟨w.leaveDeferred d key, .running f left s⟩ = some s') :
      f ≠ g ∧ Moment.seat? g ⟨w, .canceling f left run (.waiter d key)⟩ = some s' := by
    have hg : f ≠ g := by
      rintro rfl
      cases hself.symm.trans hs
    exact ⟨hg, (hother hg).symm.trans hs⟩
  obtain ⟨es, hrequests⟩ := hrequested
  refine ⟨hpeople, h.quiet.requests hrequests,
    ⟨ordered_leaveDeferred h.lined.ordered, fun d' e he => ?_, fun g s' hs => ?_, by rintro _ _ _ _ _ ⟨⟩⟩,
    (h.confined.stays_leaveDeferred trivial key).confined, fun callback hhides => ?_, .refl _⟩
  · obtain ⟨hmem, hne⟩ := h.mem_line_leave.1 he
    exact (hother hne.symm).trans (h.lined.seated d' e hmem)
  · obtain ⟨hg, hs⟩ := hvacates hs
    rw [pollDeferred_leaveDeferred]
    refine (h.lined.lined g s' hs).imp (fun hmem => h.mem_line_leave.2 ⟨hmem, hg.symm⟩) fun hpast => ⟨?_, hpast.2⟩
    exact Nat.lt_of_lt_of_le hpast.1 ((Later.requests hrequests).epoch_le g)
  · cases hhides with
    | seated hs hepoch => exact h.hides callback (.seated (hvacates hs).2 hepoch)
    | joining hm => cases hm
    | future hlt => exact h.hides callback (.future (Nat.lt_of_le_of_lt ((Later.requests hrequests).epoch_le _) hlt))

/-! ## Exits -/

/-- A fiber that has told its exit is done. -/
theorem announce (h : Moment.Tidy hidden before ⟨w, .exiting f x hook⟩) :
    Moment.Tidy hidden before ⟨w.announce f x hook, .idle⟩ := by
  obtain ⟨p, hp⟩ := h.people.fits rfl
  obtain ⟨rfl, hstanding, hdone⟩ := hp.announce
  refine h.shift h.people.announce (h.quiet.announce f x p.hook) (h.confined.announce f fun _ _ => trivial)
    (congrArg _ (stores_announce w f x p.hook))
    (Moment.seat?_of_own (Or.inl rfl) (Or.inr rfl) (fun g hg => view_announce_of_ne hg w x p.hook .idle) ?_)
    (epoch_le_announce w f x p.hook) nofun
  rw [Moment.seat?, Moment.view_idle, hdone.seat?, Moment.seat?_of_activity rfl rfl]
  rfl

theorem tell (h : Moment.Tidy hidden before ⟨w, .exiting f x hook⟩) :
    Moment.Tidy hidden before ⟨(hook.run f x).attempt w, .idle⟩ := by
  obtain ⟨act, hact, hrun⟩ := ExitHook.run_eq_announce (J := Handling hidden) h.confined f
    (fun _ _ => trivial : Value.ExitIn _ x) hook fun _ _ => trivial
  rw [hrun]
  exact h.announce.attempt hact

/-! ## Between two tasks -/

/-- The loops go on with no fiber. -/
theorem tend (h : Moment.Tidy hidden before ⟨w, .idle⟩) {loop aside : EventLoop} (here : LoopName) (clock : Nat)
    (hloop : loop.In (.hiding hidden)) (haside : aside.In (.hiding hidden)) (hquiet : loop.TimersQuiet)
    (hquiet' : aside.TimersQuiet) (htokens : ∀ g, (loop.tokens g ++ aside.tokens g).Perm (w.tokens g)) :
    Moment.Tidy hidden before ⟨{ w with loop := loop, here := here, aside := aside, clock := clock }, .idle⟩ := by
  have halike (g : FiberId) : (Moment.view g ⟨w, .idle⟩).Alike
      (Moment.view g ⟨{ w with loop := loop, here := here, aside := aside, clock := clock }, .idle⟩) :=
    ⟨rfl, htokens g, rfl⟩
  exact h.shift (fun g => (h.people g).alike (halike g)) ⟨hquiet, hquiet'⟩
    (h.confined.besides hloop haside h.confined.stores h.confined.session here clock w.caughtThrows) rfl
    (fun g => (h.people g).seat?_alike (halike g)) (fun _ => Nat.le_refl _) nofun

theorem errand (h : Moment.Tidy hidden before ⟨w, .idle⟩) {task : Task} (htask : task.In (.hiding hidden))
    (herrand : task.isErrand = true) : Moment.Tidy hidden before ⟨w.runTask task, .idle⟩ := by
  cases task with
  | succeed callback v => exact h.handles (h.confined.settle callback htask.2) (.settle w htask.1 (.value v))
  | actions list env => exact h.attempt (Tracks.actions (J := Handling hidden) htask Scope.noCallback list)
  | _ => cases herrand

theorem steady : World.Steady (.hiding hidden) fun w => Moment.Tidy hidden before ⟨w, .idle⟩ where
  confined h := h.confined
  quiet h := h.quiet
  tend here clock h := h.tend here clock
  errand h := h.errand

/-! ## The next message -/

/-- A fiber is taken up where it is. -/
theorem takeUp (h : Moment.Tidy hidden before ⟨w, .idle⟩) {task : Task} {rest : List Message}
    (hinbox : w.loop.inbox = .task task :: rest) (ht : task.fiber? = some f) (ha : a.fiber? = some f) {p : Place}
    (hp : Fits f (w.view f .idle) p) (hp' : Fits f (w.dropMessage.view f a) p)
    (hpeople : Moment.Peopled ⟨w.dropMessage, a⟩)
    (hjoining : ∀ f left run d epoch, a ≠ .registering f left run (.deferred d) epoch) :
    Moment.Tidy hidden before ⟨w.dropMessage, a⟩ := by
  refine h.shift hpeople h.quiet.drop (Steady.confined_dropMessage h.confined) rfl
    (Moment.seat?_of_own (Or.inr rfl) (Or.inl ha) (fun g hg => ?_) ?_) (fun _ => Nat.le_refl _)
    fun f left run d epoch hm => absurd hm (hjoining f left run d epoch)
  · exact view_dropMessage_of_ne hinbox (fun he => hg (Option.some.inj (ht.symm.trans he))) .idle
  · rw [Moment.seat?, Moment.seat?, Moment.view_self ha, Moment.view_idle, hp'.seat?, hp.seat?]

theorem takeStart (h : Moment.Tidy hidden before ⟨w, .idle⟩) {rest : List Message}
    (hinbox : w.loop.inbox = .task (.start f) :: rest)
    (hpeople : Moment.Peopled (w.dropMessage.takeUp (.task (.start f)))) :
    Moment.Tidy hidden before (w.dropMessage.takeUp (.task (.start f))) := by
  obtain ⟨p, hp⟩ := h.people.fits_of_inbox hinbox rfl
  have hheld : Held f p.epoch p.hook p.standing (w.tokens f) .idle := hp.held
  rw [tokens_of_inbox_self hinbox rfl] at hheld
  obtain ⟨⟨root, hstanding⟩, -⟩ := hheld.of_start
  have hphase : (w.dropMessage.fiber? f).map Fiber.phase = some (.created root) :=
    hp.phase?_eq.trans (congrArg (fun s => some (Standing.phase s)) hstanding)
  simp only [World.takeUp, hphase] at hpeople ⊢
  refine h.shift hpeople (h.quiet.drop.modifyFiber f _)
    ((Steady.confined_dropMessage h.confined).modifyPhase f _ (fun _ _ _ _ _ => trivial) (fun _ => rfl) fun r => Nat.le_refl r.epoch) rfl
    (Moment.seat?_of_own (Or.inr rfl) (Or.inl rfl) (fun g hg => ?_) ?_)
    (epoch_le_modifyFiber f ?_ w.dropMessage) (by rintro _ _ _ _ _ ⟨⟩)
  · exact (view_modifyFiber_of_ne hg _ _ .idle).trans
      (view_dropMessage_of_ne hinbox (fun he => hg (Option.some.inj he)) .idle)
  · rw [Moment.seat?_of_activity rfl rfl, Moment.seat?, Moment.view_idle, hp.seat?, Place.seat?, hstanding]
  · exact fun r => Nat.le_refl r.epoch

theorem takeNext (h : Moment.Tidy hidden before ⟨w, .idle⟩) : Moment.Tidy hidden before w.takeNext := by
  have hpeople := h.people.leads (.takeNext h.quiet)
  unfold World.takeNext at hpeople ⊢
  cases hinbox : w.loop.inbox with
  | nil => exact h
  | cons message rest =>
    rw [hinbox] at hpeople
    cases message with
    | timer deadline timer task =>
      exact steady.takeQuiet h hinbox (h.quiet.loop.inbox deadline timer task (hinbox ▸ List.mem_cons_self))
    | shutdown => exact steady.takeQuiet h hinbox rfl
    | task task =>
      cases task with
      | start f => exact h.takeStart hinbox hpeople
      | resume f run next =>
        obtain ⟨p, hp⟩ := h.people.fits_of_inbox hinbox rfl
        exact h.takeUp hinbox rfl rfl hp (hp.resume hinbox) hpeople nofun
      | unwind f canceler run =>
        obtain ⟨p, hp⟩ := h.people.fits_of_inbox hinbox rfl
        exact h.takeUp hinbox rfl rfl hp (hp.unwind hinbox) hpeople nofun
      | succeed callback v => exact steady.takeQuiet h hinbox rfl
      | actions list env => exact steady.takeQuiet h hinbox rfl

/-! ## Strokes -/

/-- What is hidden at a moment is all that has to be hidden in it. -/
theorem rescope (h : m.Tidy hidden before) : m.Tidy m.Hides before :=
  ⟨h.people, h.quiet, h.lined, h.confined.mono
    ⟨fun _ hd => hd, fun _ => id, fun _ => id, fun callback hcallback hhides => hcallback (h.hides callback hhides), fun _ hw => hw, id⟩ h.quiet
    (fun _ _ => Or.inl trivial) (fun _ _ _ _ => Or.inl trivial) (fun _ hf => absurd trivial hf)
    (fun _ _ _ _ hf => absurd trivial hf) fun _ _ => Or.inl trivial, fun _ => id, h.advances⟩

/-- The next moment, unless a line is joined or left. -/
theorem next_of_other (h : m.Tidy m.Hides before) (hmoves : m.activity.lines = false) :
    m.next.Tidy m.Hides before := by
  obtain ⟨w, a⟩ := m
  cases a with
  | idle =>
    unfold Moment.next
    dsimp only
    split
    · exact h
    · exact (steady.fireDue h).takeNext
  | running f left s =>
    cases left with
    | zero => exact h.yield
    | succ left => exact h.act
  | registering f left run r epoch =>
    refine h.beginRegistration_of_other hmoves fun hhides => ?_
    cases hhides with
    | seated hs => exact nomatch (Moment.seat?_of_activity rfl rfl).symm.trans hs
    | joining hm =>
      cases hm
      cases hmoves
    | future hlt =>
      obtain ⟨p, hp⟩ := h.people.fits rfl
      obtain ⟨home, hrecord⟩ := hp.record
      obtain ⟨-, -, rfl⟩ := hp.held.of_registering
      exact absurd hlt (by rw [epoch_of_record hrecord]; exact Nat.lt_irrefl _)
  | returning f left run canceler => exact h.leaveRegistration
  | canceling f left run canceler => exact h.cancel_of_other hmoves (h.people.leads (LeadsTo.next h.quiet))
  | exiting f x hook => exact h.tell

/-- The next moment. -/
theorem next (h : m.Tidy m.Hides before) : m.next.Tidy m.Hides m.next.world := by
  by_cases hmoves : m.activity.lines = true
  · obtain ⟨w, a⟩ := m
    cases a with
    | registering f left run r epoch =>
      cases r with
      | deferred d => exact h.beginRegistration_of_wait
      | _ => cases hmoves
    | canceling f left run canceler =>
      cases canceler with
      | waiter d key => exact h.cancel_of_wait (h.people.leads (LeadsTo.next h.quiet))
      | _ => cases hmoves
    | _ => cases hmoves
  · exact (h.next_of_other (Bool.eq_false_iff.2 hmoves)).rebase

end Moment.Tidy

namespace Scene

variable {s : Scene} {stroke : Stroke}

theorem tidy_play_of_other (h : s.moment.Tidy s.moment.Hides before)
    (hmoves : stroke = .next → s.moment.activity.lines = false) :
    (s.play stroke).moment.Tidy s.moment.Hides before := by
  obtain ⟨⟨w, a⟩, kept⟩ := s
  cases stroke with
  | next => exact h.next_of_other (hmoves rfl)
  | fire =>
    cases a with
    | idle =>
      simp only [Scene.play, Scene.between]
      split
      · exact h
      · exact Moment.Tidy.steady.fireDue h
    | _ => exact h
  | switch =>
    cases a with
    | idle => exact Moment.Tidy.steady.switch h
    | _ => exact h
  | clock time =>
    cases a with
    | idle => exact Moment.Tidy.steady.setClock h time
    | _ => exact h
  | demand d =>
    have hact : Handling (Moment.Hides ⟨w, a⟩) (List Effect) (d.act kept) fun _ => True := TracksAll.demand kept d
    obtain ⟨⟨hconfined, hhandles⟩, -⟩ := hact w h.confined
    have hdemand := h.handles hconfined hhandles
    simp only [Scene.play]
    cases hrun : (d.act kept).run w with
    | mk result v =>
      rw [hrun] at hdemand
      cases result <;> exact hdemand

theorem tidy_play (h : s.moment.Tidy s.moment.Hides before) (stroke : Stroke) :
    (s.play stroke).moment.Tidy (s.play stroke).moment.Hides (s.play stroke).moment.world := by
  by_cases hnext : stroke = .next
  · subst hnext
    exact h.next.rescope
  · exact (tidy_play_of_other h fun he => absurd he hnext).rescope.rebase

theorem tidy_after (h : s.moment.Tidy s.moment.Hides s.moment.world) (strokes : List Stroke) :
    (s.after strokes).moment.Tidy (s.after strokes).moment.Hides (s.after strokes).moment.world := by
  induction strokes generalizing s with
  | nil => exact h
  | cons stroke rest ih => exact ih (tidy_play h stroke)

/-- Nobody waits when a session starts. -/
theorem tidy_initial (config : Config) (definitions : List (Name × Definition)) :
    (initial config definitions).moment.Tidy (initial config definitions).moment.Hides
      (initial config definitions).moment.world where
  people f := ⟨_, (Reachable.initial config definitions).accounted f⟩
  quiet := (Reachable.initial config definitions).timersQuiet
  lined := {
    ordered := fun _ _ hrow => nomatch hrow
    seated := fun _ _ he => nomatch he
    lined := fun _ _ hs => nomatch hs
    unanswered := nofun }
  confined := {
    loop := ⟨nofun, nofun⟩
    aside := ⟨nofun, nofun⟩
    fibers := fun _ _ hr => nomatch hr
    notices := fun _ _ hnotice => nomatch hnotice
    hidden := fun _ hf => absurd trivial hf
    stale := fun _ _ _ _ hf => absurd trivial hf
    stores := ⟨nofun, nofun, nofun, nofun, nofun, fun _ _ => trivial⟩
    session := ⟨nofun, nofun, nofun⟩ }
  hides _ := id
  advances := .refl _

/-- **Lines and seats agree at every moment of every run.** -/
theorem Occurs.tidy (h : s.Occurs) : s.moment.Tidy s.moment.Hides s.moment.world := by
  obtain ⟨config, definitions, strokes, rfl⟩ := h
  exact tidy_after (tidy_initial config definitions) strokes

/-- Unless a line is joined or left next, deferreds stay as they are or are completed. -/
theorem Occurs.advances (h : s.Occurs) (hmoves : stroke = .next → s.moment.activity.lines = false) :
    s.moment.world.Advances (s.play stroke).moment.world := (tidy_play_of_other h.tidy hmoves).advances

end Scene

end Tidying

end FiberLoop
