import FiberLoop.Proofs.Evaluation.BigStep
import FiberLoop.Proofs.Permits.Conservation
import FiberLoop.Proofs.Runtime.Waking

/-!
# Fairness

Requests for permits are served in the order in which they were made. The order of grants is that of the books
(`Semaphore.Dealt.granted_before`), and a request is given up only if its fiber was interrupted
(`Recorded.flagged_of_undone`). Of two fibers that are parked in the line of a semaphore the earlier one also goes
on first: it is roused first, and then both wait in the queue of the same loop (`Recorded.goesOn_first`).
-/

namespace FiberLoop

open Engagement Semaphore

variable {b : Books} {s : Scene} {sem : SemaphoreId} {σ : Engagements} {w : World} {f g : FiberId} {l l' : DeferredId}
  {E G : Engagement} {home : LoopName} {canceler canceler' : Canceler} {r : Fiber} {x : Exit Value Value} {left : Nat}
  {kept : List Effect} {a : Activity} {c : Call} {strokes : List Stroke}

/-! ## Whoever gives up was interrupted -/

namespace Books

/-- Whoever gives up a place holds no ticket any more. -/
theorem record_abandon_ne : Books.record f (.thunk (.perform (.abandonPermit sem l))) w
    { claims := [{ fiber := f, semaphore := sem, latch? := none }] } ≠
      { claims := [{ fiber := f, semaphore := sem, latch? := none }] } := by
  intro h
  have hdrop : (Books.drop f { claims := [{ fiber := f, semaphore := sem, latch? := none }] }).claims = [] := by
    simp [drop]
  have hclaims := congrArg Books.claims h
  unfold record at hclaims
  dsimp only at hclaims
  repeat' split at hclaims
  all_goals cases hdrop.symm.trans hclaims

end Books

/-- A fiber whose place says that its interruption was requested is flagged. -/
theorem Fits.flagged {p : Place} (h : Fits f (w.view f a) p) (hrequested : p.requested = true) : w.flagged f = true := by
  obtain ⟨home, hrecord⟩ := h.record
  obtain ⟨r, hr, hcore⟩ := World.fiber?_of_record hrecord
  have hflag : r.interruptRequested = true := (congrArg Fiber.interruptRequested hcore).trans hrequested
  rw [World.flagged, hr]
  exact hflag

/-- The right to give up a place in line is with those who are in an acquire. -/
theorem Orderly.engaged_of_abandon {stand : Stand} {run : Run} (h : Orderly σ b ⟨⟨w, .running f left stand⟩, kept⟩)
    (hdeed : stand.deed = .call (.thunk (.perform (.abandonPermit sem l))) run) : σ f ≠ none := by
  intro hf
  obtain ⟨hrun, hnext⟩ := h.activity hf
  exact (Stand.in_of_call hrun hnext hdeed).1 (.place l) (List.mem_cons_of_mem _ List.mem_cons_self)

/-- A fiber that is about to give up its place in line was interrupted. -/
theorem Orderly.flagged_of_abandon {stand : Stand} {run : Run} (h : Orderly σ b ⟨⟨w, .running f left stand⟩, kept⟩)
    (hdeed : stand.deed = .call (.thunk (.perform (.abandonPermit sem l))) run) : w.flagged f = true := by
  obtain ⟨E, hE⟩ := Option.ne_none_iff_exists'.1 (h.engaged_of_abandon hdeed)
  obtain ⟨ask, ws, p, hat⟩ := h.engaged f E hE
  have hrequested : p.requested = true := by
    cases hat.stands.2.next with
    | giveUp hask hheeds => exact requested_of_heeds hheeds
    | move hd | leave _ _ hd | request _ hd | wait _ _ hd | tell _ _ hd | release _ _ hd => cases hd.symm.trans hdeed
    | call hd hact hrecord =>
      cases hd.symm.trans hdeed
      exact absurd (hrecord f w { claims := [{ fiber := f, semaphore := sem, latch? := none }] }) Books.record_abandon_ne
  exact (hat.fits_self rfl).flagged hrequested

/-- A fiber stays flagged. -/
theorem Scene.Occurs.flagged_play (h : s.Occurs) (hf : s.moment.world.flagged f = true) (stroke : Stroke) :
    (s.play stroke).moment.world.flagged f = true := by
  obtain ⟨es, hreachable⟩ := h.reachable
  obtain ⟨es', htransitions⟩ := leadsTo_play hreachable.timersQuiet stroke
  cases hr : s.moment.world.fiber? f with
  | none =>
    rw [World.flagged, hr] at hf
    cases hf
  | some r =>
    rw [World.flagged, hr] at hf
    obtain ⟨r', hr', hflag⟩ := hreachable.requested_mono hr hf htransitions
    rw [World.flagged, hr']
    exact hflag

/-- A fiber that cleans up after a request was interrupted. -/
theorem Orderly.flagged_of_undoing {claim : Claim} (h : Orderly σ b s) (hclaim : b.claim? f = some claim)
    (hundoing : claim.undoing = true) : s.moment.world.flagged f = true := by
  have hfree : σ f ≠ none := fun hf => nomatch (h.books.claim?_of_free hf).symm.trans hclaim
  obtain ⟨E, hE⟩ := Option.ne_none_iff_exists'.1 hfree
  obtain ⟨ask, ws, p, hat⟩ := h.engaged f E hE
  have hask : ask.claim? f E.semaphore = some claim := hat.claim.symm.trans hclaim
  have hrequested : p.requested = true := by
    cases ask with
    | asking | settled => cases hask
    | holding =>
      cases hask
      cases hundoing
    | undoing t =>
      have hacquiring := hat.acquiring
      cases hacquiring with
      | ready hp hstands =>
        cases hstands with
        | closing h | shut h | cleaning h =>
          cases h with
          | undo _ hheeds => exact requested_of_heeds hheeds
        | releasing hheeds => exact requested_of_heeds hheeds
  exact hat.fits.flagged hrequested

/-- **Whoever has undone a request was interrupted.** -/
theorem Recorded.flagged_of_undone (h : Recorded b s) {e : Booking} (he : e ∈ b.of sem)
    (hundoes : e = .undone f ∨ ∃ l, e = .abandoned f l) : s.moment.world.flagged f = true := by
  induction h with
  | initial config definitions => cases he
  | @play b s hrecorded stroke ih =>
    obtain ⟨σ, hσ⟩ := hrecorded.orderly
    suffices hflagged : s.moment.world.flagged f = true from hσ.occurs.flagged_play hflagged stroke
    cases hstep : s.stepper? stroke with
    | none =>
      rw [Scene.book_of_quiet hstep] at he
      exact ih he
    | some g =>
      obtain ⟨rfl, left, stand, hstand⟩ := Scene.of_stepper? hstep
      obtain ⟨sem', new, hadds, hcaused⟩ := Scene.book_adds hstand b
      by_cases hsem : sem = sem'
      · subst hsem
        rw [hadds.of_self] at he
        rcases List.mem_append.1 he with hold | hnew
        · exact ih hold
        · obtain ⟨c, run, hdeed, hcaused⟩ := hcaused e hnew
          have habandon (l : DeferredId) (hc : c = .thunk (.perform (.abandonPermit sem l))) :
              s.moment.world.flagged g = true := by
            obtain ⟨⟨w, a⟩, kept⟩ := s
            cases hstand
            exact hσ.flagged_of_abandon (hc ▸ hdeed)
          rcases hundoes with rfl | ⟨l, rfl⟩
          · cases hcaused with
            | undone hcause =>
              rcases hcause with ⟨claim, hclaim, hundoing⟩ | ⟨l, hc⟩
              · exact hσ.flagged_of_undoing hclaim hundoing
              · exact habandon l hc
          · cases hcaused with
            | abandoned hc => exact habandon l hc
      · exact ih (hadds.of_ne hsem ▸ he)

/-! ## Fibers in line -/

namespace Engagement

variable {t : Option DeferredId} {requested : Bool} {done : DeferredId → Prop} {ask : Ask}

theorem inner_inj (h : G.inner t = E.inner (some l)) : G.semaphore = E.semaphore ∧ t = some l := by
  have hframes := congrArg Run.frames h
  cases t with
  | none => cases hframes
  | some l' =>
    simp only [inner, Engagement.guarded, Run.push, ticket, undo, Effect.perform, List.cons.injEq, Frame.chain.injEq,
      Continuation.releaseResource.injEq, Value.ticket.injEq, Effect.suspend.injEq, Thunk.perform.injEq,
      Operation.abandonPermit.injEq] at hframes
    obtain ⟨-, ⟨-, -, hsem, hl⟩, -⟩ := hframes
    exact ⟨hsem, congrArg some hl⟩

/-- Whoever waits for a latch holds the right to give up its place. -/
theorem inner_hidden : ¬ (E.inner (some l)).In (w.scope σ b) := by
  intro h
  exact h (.place l) (by simp [inner, Engagement.guarded, ticket, undo, Run.mentions, Run.push, Effect.perform])

/-- Where the wait for a latch has ended. -/
theorem Stands.ends (h : G.Stands requested done ask ⟨E.inner (some l), .ofExit x⟩) :
    G.semaphore = E.semaphore ∧ Ends requested done (some l) x := by
  generalize hs : (⟨E.inner (some l), .ofExit x⟩ : Stand) = s at h
  have hhead := congrArg (fun s : Stand => s.run.frames.head?) hs
  have hnext := congrArg Stand.next hs
  cases h with
  | @ended t y h =>
    obtain ⟨hsem, rfl⟩ := inner_inj (congrArg Stand.run hs).symm
    have hy : x = y := by cases x <;> cases y <;> cases hnext <;> rfl
    exact ⟨hsem, hy ▸ h⟩
  | given | brought | told | released | cleaned | leaving => cases hhead
  | _ => cases x <;> cases hnext

end Engagement

namespace Orderly

/-- A fiber that is parked on its latch in an acquire is in it. -/
theorem engaged_of_asleep (h : Orderly σ b s) (hasleep : s.moment.world.Asleep f home (E.inner (some l)) canceler) :
    σ f ≠ none := by
  intro hf
  obtain ⟨r, hr, -, hphase⟩ := hasleep
  obtain ⟨fiber, hfiber, hcore⟩ := World.fiber?_of_record hr
  have hin := h.confined.fibers f fiber hfiber hf
  rw [show fiber.phase = _ from (congrArg Fiber.phase hcore).trans hphase] at hin
  exact inner_hidden fun d hd => hin d (List.mem_append_left _ hd)

/-- A fiber that is parked on its latch is in line. -/
theorem waits_of_asleep (h : Orderly σ b s) (hasleep : s.moment.world.Asleep f home (E.inner (some l)) canceler) :
    ∃ row, s.moment.world.semaphore? E.semaphore = some row ∧ l ∈ row.waiters := by
  obtain ⟨G, hG⟩ := Option.ne_none_iff_exists'.1 (h.engaged_of_asleep hasleep)
  obtain ⟨ask, ws, p, hat⟩ := h.engaged f G hG
  have hstanding := hasleep.standing hat.fits
  cases hat.acquiring with
  | @parked l' key _ hp =>
    obtain ⟨hrun, -⟩ := Standing.parked.inj (hp.symm.trans hstanding)
    obtain ⟨hsem, hl⟩ := inner_inj hrun
    cases hl
    rcases hat.latched l rfl with ⟨hdelivered, -⟩ | ⟨row, key', hrow, hmem, -⟩
    · exact absurd (hat.woken l rfl hdelivered _ List.mem_cons_self) (Nat.lt_irrefl _)
    · exact ⟨row, hsem ▸ hrow, hmem⟩
  | ready hp | registering hp | answered _ hp | returned hp | unwinding _ _ hp => cases hp.symm.trans hstanding

/-- A fiber that runs in the middle of its wait is in its acquire. -/
theorem engaged_of_running {next : Next} (h : Orderly σ b s)
    (hstand : s.moment.activity = .running f left ⟨E.inner (some l), next⟩) : σ f ≠ none := by
  intro hf
  have hin := h.activity
  rw [hstand] at hin
  exact inner_hidden (hin hf).1

theorem engaged_of_canceling (h : Orderly σ b s)
    (hstand : s.moment.activity = .canceling f left (E.inner (some l)) canceler) : σ f ≠ none := by
  intro hf
  have hin := h.activity
  rw [hstand] at hin
  exact inner_hidden (hin hf).1

/-- Whoever goes on after a wait does so with a permit, or was interrupted. -/
theorem ends_of_running (h : Orderly σ b s)
    (hstand : s.moment.activity = .running f left ⟨E.inner (some l), .ofExit x⟩) :
    x = .value .null ∧ b.delivered E.semaphore l ∨ x = .interrupted ∧ s.moment.world.flagged f = true := by
  obtain ⟨G, hG⟩ := Option.ne_none_iff_exists'.1 (h.engaged_of_running hstand)
  obtain ⟨ask, ws, p, hat⟩ := h.engaged f G hG
  obtain ⟨⟨w, a⟩, kept⟩ := s
  cases hstand
  obtain ⟨hsem, hends⟩ := hat.stands.2.ends
  cases hends with
  | value hdone => exact Or.inl ⟨rfl, hsem ▸ hdone l rfl⟩
  | interrupted hheeds => exact Or.inr ⟨rfl, (hat.fits_self rfl).flagged (requested_of_heeds hheeds)⟩

/-- Whoever cancels its wait was interrupted. -/
theorem flagged_of_canceling (h : Orderly σ b s)
    (hstand : s.moment.activity = .canceling f left (E.inner (some l)) canceler) : s.moment.world.flagged f = true := by
  obtain ⟨G, hG⟩ := Option.ne_none_iff_exists'.1 (h.engaged_of_canceling hstand)
  obtain ⟨ask, ws, p, hat⟩ := h.engaged f G hG
  obtain ⟨⟨w, a⟩, kept⟩ := s
  cases hstand
  obtain ⟨ended, hstanding, -, -⟩ := (hat.fits_self rfl).held.of_canceling
  cases hat.acquiring with
  | unwinding _ hheeds hp => exact (hat.fits_self rfl).flagged (requested_of_heeds hheeds)
  | ready hp | registering hp | answered _ hp | returned hp | parked hp => cases hp.symm.trans hstanding

/-- Whoever is to go on with a permit was granted it. -/
theorem delivered_of_task (h : Orderly σ b s)
    (htask : .task (.resume f (E.inner (some l)) (.value .null)) ∈ (s.moment.world.loopAt home).inbox) :
    b.delivered E.semaphore l := by
  have hengaged : σ f ≠ none := by
    intro hf
    have hin : (Task.resume f (E.inner (some l)) (.value .null)).In (s.moment.world.scope σ b) := by
      unfold World.loopAt at htask
      split at htask
      · exact h.confined.loop.inbox _ htask
      · exact h.confined.aside.inbox _ htask
    exact inner_hidden (hin hf).1
  obtain ⟨G, hG⟩ := Option.ne_none_iff_exists'.1 hengaged
  obtain ⟨ask, ws, p, hat⟩ := h.engaged f G hG
  have htoken := World.mem_tokens_of_loopAt htask rfl
  have hheld : Held f p.epoch p.hook p.standing (s.moment.world.tokens f) (s.moment.activity.of f) := hat.fits.held
  rcases hheld.tokens_cases with hnil | ⟨t, hone⟩
  · rw [hnil] at htoken
    cases htoken
  · rw [hone] at htoken hheld
    cases List.mem_singleton.1 htoken
    obtain ⟨hstanding, -⟩ := hheld.of_resume
    cases hat.acquiring with
    | ready hp hstands =>
      cases hp.symm.trans hstanding
      obtain ⟨hsem, hends⟩ := Stands.ends (x := .value .null) hstands
      cases hends with
      | value hdone => exact hsem ▸ hdone l rfl
    | registering hp | answered _ hp | returned hp | parked hp | unwinding _ _ hp => cases hp.symm.trans hstanding

end Orderly

/-! ## Who came first goes on first -/

/-- While a fiber is parked in line, nobody who has joined the line after it is granted a permit by the next stroke. -/
theorem Recorded.not_delivered (h : Recorded b s)
    (hasleep : s.moment.world.Asleep f home (E.inner (some l)) canceler)
    (hbefore : [l, l'].Sublist (joined (b.of E.semaphore))) (stroke : Stroke) :
    ¬ (s.book stroke b).delivered E.semaphore l' := by
  intro hdelivered
  obtain ⟨σ, hσ⟩ := h.orderly
  obtain ⟨σ', hadvance⟩ := hσ.play stroke
  obtain ⟨row, hrow, hl⟩ := hσ.waits_of_asleep hasleep
  obtain ⟨n, hdealt⟩ := hσ.books.dealt _ _ hrow
  obtain ⟨-, hstays⟩ := hdealt.line.mem_iff.1 hl
  obtain ⟨new, row', -, hof, ⟨rfl, -⟩ | hdeal⟩ := hadvance.deals _ _ hrow
  · rw [Books.delivered, hof, List.append_nil] at hdelivered
    exact hstays (hdealt.left_before hbefore hdelivered)
  · rw [Books.delivered, hof] at hdelivered
    exact hstays (hdeal.left_before hdealt hbefore hdelivered)

/-- The line is joined at its end. -/
theorem Recorded.joined_play (h : Recorded b s) (hbefore : [l, l'].Sublist (joined (b.of sem))) (stroke : Stroke) :
    [l, l'].Sublist (joined ((s.book stroke b).of sem)) := by
  obtain ⟨σ, hσ⟩ := h.orderly
  obtain ⟨σ', hadvance⟩ := hσ.play stroke
  cases hrow : s.moment.world.semaphore? sem with
  | none => rwa [hadvance.absent sem hrow]
  | some row =>
    obtain ⟨new, -, -, hof, -⟩ := hadvance.deals sem row hrow
    rw [hof, joined_append]
    exact hbefore.trans (List.sublist_append_left _ _)

section Order

variable (h : Recorded b s) (hsem : G.semaphore = E.semaphore) (hbefore : [l, l'].Sublist (joined (b.of E.semaphore)))
  (hasleep : s.moment.world.Asleep f home (E.inner (some l)) canceler)
include h hsem hbefore hasleep

theorem Recorded.not_resumed {stroke : Stroke} :
    (s.play stroke).moment.activity ≠ .running g left ⟨G.inner (some l'), .ofExit (.value .null)⟩ := by
  intro hgoes
  obtain ⟨σ', hσ'⟩ := (h.play stroke).orderly
  rcases hσ'.ends_of_running hgoes with ⟨-, hdelivered⟩ | ⟨hx, -⟩
  · exact h.not_delivered hasleep hbefore stroke (hsem ▸ hdelivered)
  · cases hx

/-- Of two fibers that are parked in line the one that came first is roused first. -/
theorem Recorded.roused_first {home' : LoopName}
    (hresumes : s.Resumes g home' (G.inner (some l')) canceler' (.value .null) strokes) :
    s.Before (fun later => ¬ later.moment.world.Asleep f home (E.inner (some l)) canceler) strokes := by
  induction hresumes generalizing b with
  | goes hrests hgoes => exact absurd hgoes (h.not_resumed hsem hbefore hasleep)
  | @waits s stroke rest hrests hlater ih =>
    by_cases hstill : (s.play stroke).moment.world.Asleep f home (E.inner (some l)) canceler
    · exact (ih (h.play stroke) (h.joined_play hbefore stroke) hstill).cons
    · exact .first hlater.ne_nil hstill

/-- **Of two fibers that are parked in line the one that came first goes on first**, if they live on one loop. -/
theorem Recorded.goesOn_first (hfg : f ≠ g)
    (hresumes : s.Resumes g home (G.inner (some l')) canceler' (.value .null) strokes) :
    s.Before (·.moment.activity.GoesOn f (E.inner (some l)) canceler) strokes := by
  induction hresumes generalizing b with
  | goes hrests hgoes => exact absurd hgoes (h.not_resumed hsem hbefore hasleep)
  | @waits s stroke rest hrests hlater ih =>
    obtain ⟨σ, hσ⟩ := h.orderly
    obtain ⟨p, hfits⟩ := hσ.occurs.fits (.asleep hasleep)
    rcases (hσ.occurs.turn stroke).rests (.asleep hasleep) hfits with hrests' | hgoes
    · cases hrests' with
      | asleep hstill => exact (ih (h.play stroke) (h.joined_play hbefore stroke) hstill).cons
      | @roused t ht htask =>
        have hother : .task (.resume g (G.inner (some l')) (.value .null)) ∉
            ((s.play stroke).moment.world.loopAt home).inbox := by
          intro hmem
          obtain ⟨σ', hσ'⟩ := (h.play stroke).orderly
          exact h.not_delivered hasleep hbefore stroke (hsem ▸ hσ'.delivered_of_task hmem)
        obtain ⟨before, after, hinbox⟩ := List.append_of_mem htask
        have hahead : (s.play stroke).moment.world.Ahead home t (.resume g (G.inner (some l')) (.ofExit (.value .null))) :=
          ⟨before, after, hinbox, fun hmem => hother (hinbox ▸ List.mem_append_left _ hmem)⟩
        exact (hlater.of_ahead (hσ.occurs.after [stroke]) hfg ht hahead).cons
    · exact .first hlater.ne_nil hgoes

end Order

/-! ## All together -/

/-- How a semaphore treats those who want a permit. -/
structure Fair (sem : SemaphoreId) (b : Books) (s : Scene) : Prop where
  /-- Of two requests the one that came first is granted first, unless it was given up; only who was interrupted gives
  up. -/
  inOrder : ∀ pre post a t, b.of sem = pre ++ t.grant :: post → a.isTicket = true → t.isTicket = true →
    [a, t].Sublist (pre ++ [t.grant]) →
      a.grant ∈ pre ∨ ∃ f l, a = .queued f l ∧ .abandoned f l ∈ pre ∧ s.moment.world.flagged f = true
  /-- Nobody takes a permit at once before everybody who has joined the line has left it. -/
  immediate : ∀ pre e post, b.of sem = pre ++ e :: post → e.isImmediate = true →
    joined pre ⊆ Semaphore.left pre
  /-- Those who have joined the line and have not left it are in it, and nobody else takes a permit meanwhile. -/
  refused : ∀ row, s.moment.world.semaphore? sem = some row →
    row.waiters = (joined (b.of sem)).filter (· ∉ Semaphore.left (b.of sem)) ∧
      (row.waiters ≠ [] → (s.moment.world.tryAcquire sem).1 = false)
  /-- Of two fibers that are parked in line the one that came first is roused first. -/
  roused : ∀ f g (E G : Engagement) l l' home home' canceler canceler' strokes, E.semaphore = sem → G.semaphore = sem →
    [l, l'].Sublist (joined (b.of sem)) → s.moment.world.Asleep f home (E.inner (some l)) canceler →
      s.Resumes g home' (G.inner (some l')) canceler' (.value .null) strokes →
        s.Before (fun later => ¬ later.moment.world.Asleep f home (E.inner (some l)) canceler) strokes
  /-- If both live on one loop, it goes on first. -/
  first : ∀ f g (E G : Engagement) l l' home canceler canceler' strokes, E.semaphore = sem → G.semaphore = sem → f ≠ g →
    [l, l'].Sublist (joined (b.of sem)) → s.moment.world.Asleep f home (E.inner (some l)) canceler →
      s.Resumes g home (G.inner (some l')) canceler' (.value .null) strokes →
        s.Before (·.moment.activity.GoesOn f (E.inner (some l)) canceler) strokes
  /-- Whoever goes on after having been parked in line has a permit, or was interrupted. -/
  served : ∀ f (E : Engagement) l canceler, E.semaphore = sem →
    s.moment.activity.GoesOn f (E.inner (some l)) canceler →
      (∃ left, s.moment.activity = .running f left ⟨E.inner (some l), .value .null⟩) ∧ .delivered l ∈ b.of sem ∨
        s.moment.world.flagged f = true

/-- **Permits are given in the order in which they were asked for**, in every run. -/
theorem Recorded.fair (h : Recorded b s) (sem : SemaphoreId) : Fair sem b s := by
  obtain ⟨σ, hσ⟩ := h.orderly
  have hdealt : ∃ n row, Dealt n (b.of sem) row ∧ ∀ row', s.moment.world.semaphore? sem = some row' → row' = row := by
    cases hrow : s.moment.world.semaphore? sem with
    | none =>
      rw [hσ.books.unknown sem hrow]
      exact ⟨0, _, .made, nofun⟩
    | some row =>
      obtain ⟨n, hdealt⟩ := hσ.books.dealt sem row hrow
      exact ⟨n, row, hdealt, fun row' hrow' => (Option.some.inj hrow').symm⟩
  obtain ⟨n, row, hdealt, hrow⟩ := hdealt
  refine {
    inOrder := fun pre post a t hof ha ht hbefore => ?_
    immediate := fun pre e post hof => (hdealt.inTurn pre e post hof).1
    refused := fun row' hrow' => ⟨hrow row' hrow' ▸ hdealt.line.eq, fun hwaits => ?_⟩
    roused := ?_
    first := ?_
    served := ?_ }
  · refine (hdealt.granted_before hof hbefore ha ht).imp id ?_
    rintro ⟨f, l, rfl, hgone⟩
    exact ⟨f, l, rfl, hgone, h.flagged_of_undone (hof ▸ List.mem_append_left _ hgone) (Or.inr ⟨l, rfl⟩)⟩
  · rw [World.tryAcquire_of_taken hrow' fun hfree => hwaits hfree.2]
  · rintro f g E G l l' home home' canceler canceler' strokes rfl hsem hbefore hasleep hresumes
    exact h.roused_first hsem hbefore hasleep hresumes
  · rintro f g E G l l' home canceler canceler' strokes rfl hsem hfg hbefore hasleep hresumes
    exact h.goesOn_first hsem hbefore hasleep hfg hresumes
  · rintro f E l canceler rfl hgoes
    generalize ha : s.moment.activity = a at hgoes
    cases hgoes with
    | resume left x =>
      rcases hσ.ends_of_running ha with ⟨rfl, hdelivered⟩ | ⟨-, hflagged⟩
      · exact Or.inl ⟨⟨left, rfl⟩, hdelivered⟩
      · exact Or.inr hflagged
    | unwind left => exact Or.inr (hσ.flagged_of_canceling ha)

/-- After the rivals have asked, a third fiber releases a permit. -/
def relieved : List Stroke :=
  rivals ++ .demand (.scenario (.run "c" (.semaphore (.release (.var "s"))) false)) :: List.replicate 40 .next

/-- The one that waits is served. -/
theorem Recorded.fair_of_relieved : (contested.books relieved {}).of ⟨0⟩ =
      [.granted ⟨0⟩, .kept ⟨0⟩, .queued ⟨1⟩ ⟨0⟩, .returned ⟨2⟩, .delivered ⟨0⟩, .kept ⟨1⟩] ∧
    Fair ⟨0⟩ (contested.books relieved {}) (contested.after relieved) := by
  have hrecorded : Recorded {} contested :=
    .play (.initial {} []) (.demand (.scenario (.newSemaphore "s" 1)))
  exact ⟨by decide +kernel, Recorded.fair (hrecorded.after relieved) ⟨0⟩⟩

end FiberLoop
