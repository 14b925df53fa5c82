import FiberLoop.Proofs.Permits.Bystanders

/-!
# Steps between two tasks

A step of a run is an `Advance`: the scene that it leads to is in good order again, each semaphore has made one of
its steps, and an acquire begins or is over only where the course of its fiber says so. Most steps are `Undealt`: they
book nothing and begin no acquire.

This module treats the steps between two tasks: timers run, the loops change places, and a message is taken.
-/

namespace FiberLoop

open Engagement

/-- A step of a run and what comes of it. -/
structure Advance (σ : Engagements) (b : Books) (s : Scene) (σ' : Engagements) (b' : Books) (s' : Scene) : Prop where
  orderly : Orderly σ' b' s'
  deals : ∀ sem row, s.moment.world.semaphore? sem = some row →
    ∃ new row', s'.moment.world.semaphore? sem = some row' ∧ b'.of sem = b.of sem ++ new ∧
      (new = [] ∧ row' = row ∨ Semaphore.Deal (b.of sem) row new row')
  /-- Nothing is booked for a semaphore that is not there. -/
  absent : ∀ sem, s.moment.world.semaphore? sem = none → b'.of sem = b.of sem
  began : ∀ f E, σ f = none → σ' f = some E → E.start = b.entries.length ∧
    ∃ left, s.moment.activity = .running f (left + 1) ⟨E.base, .eval (.acquirePermit E.semaphore)⟩
  ended : ∀ f E, σ f = some E → σ' f = some E ∨ σ' f = none ∧ b' = b ∧ ∃ left t v,
    s'.moment.activity = .running f left ⟨E.base, .ofExit v.exit⟩ ∧ Lawful (b.delivered E.semaphore) t v ∧
      b.since f E.start = ((Ask.settled t v).bookings f).map (E.semaphore, ·)

/-- A step that books nothing and begins or ends no acquire. -/
structure Undealt (σ : Engagements) (b : Books) (s s' : Scene) : Prop where
  orderly : Orderly σ b s'
  semaphores : ∀ sem row, s.moment.world.semaphore? sem = some row → s'.moment.world.semaphore? sem = some row

section Idle

variable {σ : Engagements} {b : Books} {s s' s'' : Scene} {w w' : World} {a a' : Activity} {kept kept' : List Effect}
  {f : FiberId} {E : Engagement} {X : FiberId → Prop}

theorem Engagement.At.fits_idle {ask : Ask} {ws : List (Nat × Callback)} {p : Place}
    (h : E.At f b ⟨w, .idle⟩ ask ws p) : Fits f (w.view f .idle) p := Moment.view_idle ▸ h.fits

theorem Engagement.At.fits_self {ask : Ask} {ws : List (Nat × Callback)} {p : Place}
    (h : E.At f b ⟨w, a⟩ ask ws p) (ha : a.fiber? = some f) : Fits f (w.view f a) p := Moment.view_self ha ▸ h.fits

theorem Undealt.trans (h : Undealt σ b s s') (h' : Undealt σ b s' s'') : Undealt σ b s s'' :=
  ⟨h'.orderly, fun sem row hrow => h'.semaphores sem row (h.semaphores sem row hrow)⟩

theorem Undealt.advance (h : Undealt σ b s s') : Advance σ b s σ b s' where
  orderly := h.orderly
  deals sem row hrow := ⟨[], row, h.semaphores sem row hrow, (List.append_nil _).symm, Or.inl ⟨rfl, rfl⟩⟩
  absent _ _ := rfl
  began _ _ hnone hsome := nomatch hnone.symm.trans hsome
  ended _ _ hf := Or.inl hf

namespace Orderly

theorem calm (h : Orderly σ b ⟨⟨w, a⟩, kept⟩) : w.Calm σ b := ⟨h.confined, h.quiet, h.books⟩

theorem undealt (h : Orderly σ b ⟨⟨w, a⟩, kept⟩) (hminds : w.Minds σ b (fun _ => False) w')
    (hoccurs : Scene.Occurs ⟨⟨w', a'⟩, kept'⟩) (ha : a'.In (w'.scope σ b))
    (hsame : ∀ g, σ g ≠ none → a'.of g = a.of g) (hkept : ∀ e ∈ kept', e.In (w'.scope σ b)) :
    Undealt σ b ⟨⟨w, a⟩, kept⟩ ⟨⟨w', a'⟩, kept'⟩ :=
  ⟨h.mind hminds hoccurs ha hsame hkept, hminds.semaphores⟩

theorem kept_mono (h : Orderly σ b ⟨⟨w, a⟩, kept⟩) (hminds : w.Minds σ b X w') :
    ∀ e ∈ kept, e.In (w'.scope σ b) := fun e he d hd => hminds.grows.mentions d (h.kept e he d hd)

/-- A fiber in an acquire makes a step of its own. -/
theorem own (h : Orderly σ b ⟨⟨w, a⟩, kept⟩) (hf : σ f = some E) (hminds : w.Minds σ b (· = f) w')
    (hoccurs : Scene.Occurs ⟨⟨w', a'⟩, kept⟩) (ha : a.fiber? = some f ∨ a = .idle)
    (ha' : a'.fiber? = some f ∨ a' = .idle) (hat : ∃ ask ws p, E.At f b ⟨w', a'⟩ ask ws p) :
    Undealt σ b ⟨⟨w, a⟩, kept⟩ ⟨⟨w', a'⟩, kept⟩ := by
  have hhidden : ¬ (w'.scope σ b).fiber f := fun hnone => nomatch hf.symm.trans hnone
  have hother (c : Activity) (hc : c.fiber? = some f ∨ c = .idle) (g : FiberId) (hg : g ≠ f) : c.of g = .idle := by
    rcases hc with hc | rfl
    · exact Activity.of_other fun he => hg (Option.some.inj (he.symm.trans hc))
    · exact Activity.of_other nofun
  refine ⟨{
    occurs := hoccurs
    confined := hminds.confined
    activity := ?_
    kept := h.kept_mono hminds
    books := hminds.kept h.books
    base := fun g G hg d hd => hminds.grows.mentions d (h.base g G hg d hd)
    engaged := fun g G hg => ?_ }, hminds.semaphores⟩
  · rcases ha' with ha' | rfl
    · exact Activity.in_of_hidden ha' hhidden
    · exact trivial
  · by_cases hgf : g = f
    · subst hgf
      cases hf.symm.trans hg
      exact hat
    · obtain ⟨ask, ws, p, hG⟩ := h.engaged g G hg
      obtain ⟨q, hq⟩ := hG.mind hg hminds hgf ((hother a' ha' g hgf).trans (hother a ha g hgf).symm)
      exact ⟨ask, ws, q, hq⟩

/-! ## Fibers in an acquire -/

/-- A fiber in an acquire has begun long ago. -/
theorem not_fresh (h : Orderly σ b ⟨⟨w, .idle⟩, kept⟩) {rest : List Message}
    (hinbox : w.loop.inbox = .task (.start f) :: rest) : σ f = none := by
  cases hf : σ f with
  | none => rfl
  | some E =>
    obtain ⟨ask, ws, p, hat⟩ := h.engaged f E hf
    have hheld : Held f p.epoch p.hook p.standing (w.tokens f) .idle := hat.fits_idle.held
    rw [World.tokens_of_inbox_self hinbox rfl] at hheld
    obtain ⟨⟨root, hstanding⟩, -⟩ := hheld.of_start
    cases hat.acquiring with
    | ready hp | registering hp | answered _ hp | returned hp | parked hp | unwinding _ _ hp =>
      cases hp.symm.trans hstanding

/-- A fiber in an acquire is in the same place of it elsewhere. -/
theorem elsewhere {ask : Ask} {ws : List (Nat × Callback)} {p : Place} (hat : E.At f b ⟨w, a⟩ ask ws p)
    (hminds : w.Minds σ b (· = f) w') (hclaims : ∀ l, w'.deferred? l = w.deferred? l)
    (hawaits : a'.Awaits ask) (hfits : Fits f (Moment.view f ⟨w', a'⟩) p) : E.At f b ⟨w', a'⟩ ask ws p := by
  refine ⟨hfits, hat.acquiring, hat.claim, hat.start, hat.booked, hminds.there hat.there, fun l hl => ?_, hat.woken,
    hawaits.of f⟩
  rcases hat.latched l hl with ⟨hdelivered, hdone⟩ | ⟨row, key, hrow, hmem, hpending⟩
  · exact Or.inl ⟨hdelivered, (hclaims l).trans hdone⟩
  · exact Or.inr ⟨row, key, hminds.semaphores _ _ hrow, hmem, (hclaims l).trans hpending⟩

/-! ## The next message -/

theorem takeStart (h : Orderly σ b ⟨⟨w, .idle⟩, kept⟩) {rest : List Message}
    (hinbox : w.loop.inbox = .task (.start f) :: rest)
    (hoccurs : Scene.Occurs ⟨w.dropMessage.takeUp (.task (.start f)), kept⟩) :
    Undealt σ b ⟨⟨w, .idle⟩, kept⟩ ⟨w.dropMessage.takeUp (.task (.start f)), kept⟩ := by
  have hfree := h.not_fresh hinbox
  have hdrop : w.Minds σ b (fun _ => False) w.dropMessage := h.calm.dropMessage hinbox fun g hg _ =>
    World.token?_task_of_ne fun he => hg ((Option.some.inj he) ▸ hfree)
  have hcalm := hdrop.calm h.calm
  simp only [World.takeUp] at hoccurs ⊢
  split
  · rename_i root hphase
    obtain ⟨r, hr, hcreated⟩ := Option.map_eq_some_iff.1 hphase
    have hroot := hcalm.confined.fibers f r hr hfree
    rw [hcreated] at hroot
    rw [hphase] at hoccurs
    have hbegin : w.dropMessage.Minds σ b (fun _ => False)
        (w.dropMessage.modifyFiber f fun r => { r with phase := .running }) :=
      hcalm.modifyFiber hfree _ (fun _ _ => Scope.nothing) (fun _ _ hr => hcalm.notice_in hr)
        (fun r => Nat.le_refl r.epoch) fun r' hr' => by
          cases hr.symm.trans hr'
          refine Or.inr ⟨rfl, fun hlistens => ?_⟩
          rw [hcreated] at hlistens
          cases hlistens
    refine h.undealt (hdrop.trans hbegin) hoccurs ?_ (fun g hg => ?_) (h.kept_mono (hdrop.trans hbegin))
    · exact fun _ => ⟨Scope.nothing, fun d hd => hbegin.grows.mentions d (hroot d hd)⟩
    · exact Activity.of_other fun he => hg ((Option.some.inj he) ▸ hfree)
  · rename_i hphase
    refine h.undealt hdrop ?_ trivial (fun _ _ => rfl) (h.kept_mono hdrop)
    split at hoccurs
    · rename_i root hroot
      exact absurd hroot (hphase root)
    · exact hoccurs

theorem takeResume (h : Orderly σ b ⟨⟨w, .idle⟩, kept⟩) {rest : List Message} {run : Run} {next : Next}
    (hinbox : w.loop.inbox = .task (.resume f run next) :: rest)
    (hoccurs : Scene.Occurs ⟨⟨w.dropMessage, .running f w.dropMessage.budget ⟨run, next⟩⟩, kept⟩) :
    Undealt σ b ⟨⟨w, .idle⟩, kept⟩ ⟨⟨w.dropMessage, .running f w.dropMessage.budget ⟨run, next⟩⟩, kept⟩ := by
  cases hf : σ f with
  | none =>
    have hdrop : w.Minds σ b (fun _ => False) w.dropMessage := h.calm.dropMessage hinbox fun g hg _ =>
      World.token?_task_of_ne fun he => hg ((Option.some.inj he) ▸ hf)
    have htask : (Task.resume f run next).In (w.scope σ b) :=
      h.confined.loop.inbox (.task (.resume f run next)) (hinbox ▸ List.mem_cons_self)
    refine h.undealt hdrop hoccurs (fun _ => ?_) (fun g hg => ?_) (h.kept_mono hdrop)
    · obtain ⟨hrun, hnext⟩ := htask hf
      exact ⟨fun d hd => hdrop.grows.mentions d (hrun d hd), fun d hd => hdrop.grows.mentions d (hnext d hd)⟩
    · exact Activity.of_other fun he => hg ((Option.some.inj he) ▸ hf)
  | some E =>
    have hdrop : w.Minds σ b (· = f) w.dropMessage := h.calm.dropMessage hinbox fun g _ hg =>
      World.token?_task_of_ne fun he => hg (Option.some.inj he).symm
    obtain ⟨ask, ws, p, hat⟩ := h.engaged f E hf
    refine h.own hf hdrop hoccurs (Or.inr rfl) (Or.inl rfl) ⟨ask, ws, p, elsewhere hat hdrop (fun _ => rfl) trivial ?_⟩
    rw [Moment.view_self rfl]
    exact hat.fits_idle.resume hinbox

theorem takeUnwind (h : Orderly σ b ⟨⟨w, .idle⟩, kept⟩) {rest : List Message} {run : Run} {canceler : Canceler}
    (hinbox : w.loop.inbox = .task (.unwind f canceler run) :: rest)
    (hoccurs : Scene.Occurs ⟨⟨w.dropMessage, .canceling f w.dropMessage.budget run canceler⟩, kept⟩) :
    Undealt σ b ⟨⟨w, .idle⟩, kept⟩ ⟨⟨w.dropMessage, .canceling f w.dropMessage.budget run canceler⟩, kept⟩ := by
  cases hf : σ f with
  | none =>
    have hdrop : w.Minds σ b (fun _ => False) w.dropMessage := h.calm.dropMessage hinbox fun g hg _ =>
      World.token?_task_of_ne fun he => hg ((Option.some.inj he) ▸ hf)
    have htask : (Task.unwind f canceler run).In (w.scope σ b) :=
      h.confined.loop.inbox (.task (.unwind f canceler run)) (hinbox ▸ List.mem_cons_self)
    refine h.undealt hdrop hoccurs (fun _ => ?_) (fun g hg => ?_) (h.kept_mono hdrop)
    · obtain ⟨hrun, hcanceler⟩ := htask hf
      exact ⟨fun d hd => hdrop.grows.mentions d (hrun d hd), fun d hd => hdrop.grows.mentions d (hcanceler d hd)⟩
    · exact Activity.of_other fun he => hg ((Option.some.inj he) ▸ hf)
  | some E =>
    have hdrop : w.Minds σ b (· = f) w.dropMessage := h.calm.dropMessage hinbox fun g _ hg =>
      World.token?_task_of_ne fun he => hg (Option.some.inj he).symm
    obtain ⟨ask, ws, p, hat⟩ := h.engaged f E hf
    refine h.own hf hdrop hoccurs (Or.inr rfl) (Or.inl rfl) ⟨ask, ws, p, elsewhere hat hdrop (fun _ => rfl) trivial ?_⟩
    rw [Moment.view_self rfl]
    exact hat.fits_idle.unwind hinbox

/-- A message is handled that concerns no fiber. -/
theorem takeQuiet (h : Orderly σ b ⟨⟨w, .idle⟩, kept⟩) {message : Message} {rest : List Message}
    (hinbox : w.loop.inbox = message :: rest) (hquiet : message.isQuiet = true)
    (hoccurs : Scene.Occurs ⟨⟨w.dropMessage.handle message, .idle⟩, kept⟩) :
    Undealt σ b ⟨⟨w, .idle⟩, kept⟩ ⟨⟨w.dropMessage.handle message, .idle⟩, kept⟩ := by
  have hdrop : w.Minds σ b (fun _ => False) w.dropMessage := h.calm.dropMessage hinbox fun g _ _ =>
    Message.token?_of_isQuiet hquiet g
  have hcalm := hdrop.calm h.calm
  have hin : message.In (w.scope σ b) := h.confined.loop.inbox _ (hinbox ▸ List.mem_cons_self)
  have hhandle : w.dropMessage.Minds σ b (fun _ => False) (w.dropMessage.handle message) := by
    cases message with
    | task task => exact hcalm.runErrand (hdrop.errand_in hin hquiet) hquiet
    | timer deadline timer task =>
      refine hcalm.withLoop ⟨hcalm.confined.loop.inbox, fun t ht => ?_⟩ ⟨hcalm.quiet.loop.inbox, fun t ht => ?_⟩
        fun _ _ _ => rfl
      · rcases Timer.mem_insert.1 ht with rfl | ht
        · exact hdrop.errand_in hin hquiet
        · exact hcalm.confined.loop.timers t ht
      · rcases Timer.mem_insert.1 ht with rfl | ht
        · exact hquiet
        · exact hcalm.quiet.loop.timers t ht
    | shutdown =>
      exact hcalm.withLoop ⟨hcalm.confined.loop.inbox, hcalm.confined.loop.timers⟩
        ⟨hcalm.quiet.loop.inbox, hcalm.quiet.loop.timers⟩ fun _ _ _ => rfl
  exact h.undealt (hdrop.trans hhandle) hoccurs trivial (fun _ _ => rfl) (h.kept_mono (hdrop.trans hhandle))

theorem takeNext (h : Orderly σ b ⟨⟨w, .idle⟩, kept⟩) (hoccurs : Scene.Occurs ⟨w.takeNext, kept⟩) :
    Undealt σ b ⟨⟨w, .idle⟩, kept⟩ ⟨w.takeNext, kept⟩ := by
  unfold World.takeNext at hoccurs ⊢
  cases hinbox : w.loop.inbox with
  | nil => exact ⟨h, fun _ _ hrow => hrow⟩
  | cons message rest =>
    rw [hinbox] at hoccurs
    cases message with
    | timer deadline timer task =>
      exact h.takeQuiet hinbox (h.quiet.loop.inbox deadline timer task (hinbox ▸ List.mem_cons_self)) hoccurs
    | shutdown => exact h.takeQuiet hinbox rfl hoccurs
    | task task =>
      cases task with
      | start f => exact h.takeStart hinbox hoccurs
      | resume f run next => exact h.takeResume hinbox hoccurs
      | unwind f canceler run => exact h.takeUnwind hinbox hoccurs
      | succeed callback v => exact h.takeQuiet hinbox rfl hoccurs
      | actions list env => exact h.takeQuiet hinbox rfl hoccurs

end Orderly

/-! ## Strokes that are no moment of the loop -/

namespace Orderly

theorem fire (h : Orderly σ b s) : Undealt σ b s (s.play .fire) := by
  have hoccurs := h.occurs.after [.fire]
  obtain ⟨⟨w, a⟩, kept⟩ := s
  cases a with
  | idle =>
    simp only [Scene.after_cons, Scene.after_nil, Scene.play, Scene.between] at hoccurs ⊢
    split
    · exact ⟨h, fun _ _ hrow => hrow⟩
    · rename_i hrunning
      rw [if_neg hrunning] at hoccurs
      have hfire := h.calm.fireDue (X := fun _ => False)
      exact h.undealt hfire hoccurs trivial (fun _ _ => rfl) (h.kept_mono hfire)
  | _ => exact ⟨h, fun _ _ hrow => hrow⟩

theorem switch (h : Orderly σ b s) : Undealt σ b s (s.play .switch) := by
  have hoccurs := h.occurs.after [.switch]
  obtain ⟨⟨w, a⟩, kept⟩ := s
  cases a with
  | idle =>
    have hswitch := h.calm.switch (X := fun _ => False)
    exact h.undealt hswitch hoccurs trivial (fun _ _ => rfl) (h.kept_mono hswitch)
  | _ => exact ⟨h, fun _ _ hrow => hrow⟩

theorem clock (h : Orderly σ b s) (time : Nat) : Undealt σ b s (s.play (.clock time)) := by
  have hoccurs := h.occurs.after [.clock time]
  obtain ⟨⟨w, a⟩, kept⟩ := s
  cases a with
  | idle =>
    have hset := h.calm.setClock (X := fun _ => False) time
    exact h.undealt hset hoccurs trivial (fun _ _ => rfl) (h.kept_mono hset)
  | _ => exact ⟨h, fun _ _ hrow => hrow⟩

theorem demand (h : Orderly σ b s) (d : Demand) : Undealt σ b s (s.play (.demand d)) := by
  have hoccurs := h.occurs.after [.demand d]
  obtain ⟨⟨w, a⟩, kept⟩ := s
  obtain ⟨hminds, hresult⟩ := h.calm.demand (X := fun _ => False) h.kept d
  have ha : a.In (((d.act kept).run w).2.scope σ b) := h.activity.mono hminds.grows fun f _ hf => hf
  simp only [Scene.after_cons, Scene.after_nil, Scene.play] at hoccurs ⊢
  cases hrun : (d.act kept).run w with
  | mk result v =>
    rw [hrun] at hoccurs hminds hresult ha
    cases result with
    | ok more =>
      refine h.undealt hminds hoccurs ha (fun _ _ => rfl) (List.forall_mem_append.2 ⟨h.kept_mono hminds, ?_⟩)
      exact hresult more rfl
    | error defect => exact h.undealt hminds hoccurs ha (fun _ _ => rfl) (h.kept_mono hminds)

end Orderly

end Idle

end FiberLoop
