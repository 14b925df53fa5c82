import FiberLoop.Proofs.Permits.Running

/-!
# Conservation of permits

What the books say about a semaphore is one step of the semaphore after the other, from the time on at which it was
made (`Made.steps`). So its permits can be counted: those that are free and those that were granted are as many as
those that it was made with and those that were released, and an acquire that is over owns one permit or none
(`Acquires.owned_of_exit`).
-/

namespace FiberLoop

open Engagement Semaphore

variable {b : Books} {s : Scene} {sem : SemaphoreId} {n n' : Nat} {row row' : Semaphore} {es new : List Booking}
  {σ : Engagements} {w : World} {f : FiberId} {l : DeferredId} {base : Run} {start : Nat}

/-! ## The semaphore and its books -/

namespace Semaphore

theorem Deal.booked (h : Deal es row new row') : new ≠ [] := by
  cases h with
  | _ => exact List.cons_ne_nil _ _

/-- Nothing is booked for a semaphore that was only made. -/
theorem Dealt.of_nil (h : Dealt n [] row) : row = ⟨n, []⟩ := by
  generalize hes : ([] : List Booking) = es at h
  cases h with
  | made => rfl
  | deal _ hdeal => exact absurd (List.append_eq_nil_iff.1 hes.symm).2 hdeal.booked

theorem countP_comesBack (es : List Booking) :
    es.countP Booking.comesBack = es.countP Booking.isRelease + es.countP Booking.isUndone := by
  induction es with
  | nil => rfl
  | cons e rest ih =>
    cases e with
    | _ =>
      simp only [List.countP_cons, Booking.comesBack, Booking.isRelease, Booking.isUndone, if_true, Bool.false_eq_true,
        if_false]
      omega

end Semaphore

/-- Whoever waits in a line holds a ticket. -/
theorem Books.Kept.length_waiters_le (h : b.Kept σ w) (hrow : w.semaphore? sem = some row) (hnodup : row.waiters.Nodup) :
    row.waiters.length ≤ b.claims.countP (·.semaphore = sem) := by
  have hsubset : row.waiters ⊆ (b.claims.filter (·.semaphore = sem)).filterMap Claim.latch? := by
    intro l hl
    obtain ⟨c, hc, hsem, hlatch⟩ := h.owned sem row hrow l hl
    exact List.mem_filterMap.2 ⟨c, List.mem_filter.2 ⟨hc, by simpa using hsem⟩, hlatch⟩
  calc row.waiters.length
      ≤ ((b.claims.filter (·.semaphore = sem)).filterMap Claim.latch?).length := hnodup.length_le_of_subset hsubset
    _ ≤ (b.claims.filter (·.semaphore = sem)).length := List.length_filterMap_le _ _
    _ = b.claims.countP (·.semaphore = sem) := (List.countP_eq_length_filter).symm

/-- The grants that were not undone are the permits that somebody has for good and the tickets that do not wait. -/
theorem Books.Kept.grants_eq (h : b.Kept σ w) (hdealt : Dealt n (b.of sem) row) :
    (b.of sem).countP Booking.isGrant + row.waiters.length =
      (b.of sem).countP Booking.isUndone + (b.of sem).countP Booking.isTaken +
        b.claims.countP (·.semaphore = sem) := by
  have hcounts := countP_grants (b.of sem)
  have htickets := h.count sem
  have hline := hdealt.line.length_eq
  omega

theorem Books.Kept.undone_le (h : b.Kept σ w) (hrow : w.semaphore? sem = some row) (hdealt : Dealt n (b.of sem) row) :
    (b.of sem).countP Booking.isUndone ≤ (b.of sem).countP Booking.isGrant := by
  have hgrants := h.grants_eq hdealt
  have hwaiters := h.length_waiters_le hrow hdealt.line.line_nodup
  omega

/-- What a stroke does to a semaphore, in a run from the time on at which it was made. -/
theorem Made.steps (h : Made sem n b s) : ∃ row, s.moment.world.semaphore? sem = some row ∧ Dealt n (b.of sem) row ∧
    (n + b.releases sem < wordLimit → Balanced n (b.of sem) row) := by
  induction h with
  | @make b s hrecorded stroke hnone hmade =>
    obtain ⟨σ, hσ⟩ := hrecorded.orderly
    obtain ⟨σ', hadvance⟩ := hσ.play stroke
    obtain ⟨row, hrow, hpermits⟩ := Option.map_eq_some_iff.1 hmade
    have hempty : (s.book stroke b).of sem = [] := (hadvance.absent sem hnone).trans (hσ.books.unknown sem hnone)
    obtain ⟨n', hdealt⟩ := hadvance.orderly.books.dealt sem row hrow
    rw [hempty] at hdealt ⊢
    cases hdealt.of_nil
    cases hpermits
    exact ⟨_, hrow, .made, fun _ => rfl⟩
  | @play b s hmade stroke ih =>
    obtain ⟨row, hrow, hdealt, hbalanced⟩ := ih
    obtain ⟨σ, hσ⟩ := hmade.recorded.orderly
    obtain ⟨σ', hadvance⟩ := hσ.play stroke
    obtain ⟨new, row', hrow', hof, ⟨rfl, rfl⟩ | hdeal⟩ := hadvance.deals sem row hrow
    · rw [Books.releases, hof, List.append_nil]
      exact ⟨row', hrow', hdealt, hbalanced⟩
    · have hdealt' := hdealt.deal hdeal
      refine ⟨row', hrow', hof ▸ hdealt', fun hfits => ?_⟩
      have hundone := hadvance.orderly.books.undone_le hrow' (hof ▸ hdealt')
      have hbacks := countP_comesBack (b.of sem ++ new)
      rw [Books.releases, hof] at hfits
      rw [hof] at hundone ⊢
      refine hdeal.balanced (hbalanced ?_) (by omega)
      rw [List.countP_append] at hfits
      unfold Books.releases
      omega

/-! ## Acquires -/

namespace Engagement

variable {E : Engagement} {requested : Bool} {done : DeferredId → Prop} {ask : Ask} {next : Next} {e : Effect}
  {x : Exit Value Value}

/-- On the run on which it began, an acquire only begins its parts. -/
theorem Stands.eval_of_base (h : E.Stands requested done ask ⟨E.base, next⟩) : ∃ e, next = .eval e := by
  generalize hs : (⟨E.base, next⟩ : Stand) = s at h
  have hrun : s.run.frames.length = E.base.frames.length := hs ▸ rfl
  cases h with
  | bracketed | closing => exact ⟨_, (Stand.mk.inj hs).2⟩
  | _ =>
    simp only [outer, asked, Engagement.guarded, inner, Engagement.closing, Engagement.shut, Run.push, Run.enter,
      List.length_cons] at hrun
    omega

/-- An acquire does not begin another one. -/
theorem Stands.not_begins {s : Stand} (h : E.Stands requested done ask s) : ¬ s.Begins sem := by
  intro hbegins
  cases h with
  | waiting t => cases t <;> cases hbegins
  | ended h => cases h <;> cases hbegins
  | leaving h => cases ‹Verdict› <;> cases hbegins
  | cleaning h =>
    cases h with
    | kept => cases hbegins
    | undo t => cases t <;> cases hbegins
  | _ => cases hbegins

end Engagement

/-- A fiber has begun an acquire on top of a run, at some place of the books, and has not come out of it before. -/
inductive Acquires (f : FiberId) (sem : SemaphoreId) (base : Run) (start : Nat) : Books → Scene → Prop where
  | begin {b : Books} {s : Scene} {left : Nat} (h : Recorded b s) (hstart : b.entries.length = start)
    (hstand : s.moment.activity = .running f (left + 1) ⟨base, .eval (.acquirePermit sem)⟩) :
    Acquires f sem base start (s.book .next b) (s.play .next)
  | play {b : Books} {s : Scene} (h : Acquires f sem base start b s)
    (hin : ∀ left x, s.moment.activity ≠ .running f left ⟨base, .ofExit x⟩) (stroke : Stroke) :
    Acquires f sem base start (s.book stroke b) (s.play stroke)

/-- An acquire that has come to its end, as the books have it. -/
def Settles (f : FiberId) (sem : SemaphoreId) (base : Run) (start : Nat) (b : Books) (s : Scene) : Prop :=
  ∃ left t v, s.moment.activity = .running f left ⟨base, .ofExit (Verdict.exit v)⟩ ∧ Lawful (b.delivered sem) t v ∧
    b.since f start = ((Ask.settled t v).bookings f).map (sem, ·)

theorem Acquires.recorded (h : Acquires f sem base start b s) : Recorded b s := by
  induction h with
  | begin h => exact h.play .next
  | play _ _ stroke ih => exact ih.play stroke

/-- A fiber in an acquire has not come out of it. -/
theorem Orderly.not_exit {E : Engagement} (h : Orderly σ b s) (hf : σ f = some E) (left : Nat) (x : Exit Value Value) :
    s.moment.activity ≠ .running f left ⟨E.base, .ofExit x⟩ := by
  intro hexit
  obtain ⟨⟨w, a⟩, kept⟩ := s
  cases hexit
  obtain ⟨ask, ws, p, hat⟩ := h.engaged f E hf
  obtain ⟨e, he⟩ := hat.stands.2.eval_of_base
  cases x <;> cases he

/-- Nobody in no acquire can be about to request a permit. -/
theorem Orderly.engaged_of_asking {left : Nat} {run : Run} (h : Orderly σ b s)
    (hstand : s.moment.activity = .running f left
      ⟨run, .eval (Effect.perform (.requestPermit sem)).uninterruptible⟩) : σ f ≠ none := by
  intro hf
  have hin := h.activity
  rw [hstand] at hin
  exact (hin hf).2 .request (by simp [Next.mentions, Effect.perform, Effect.uninterruptible])

/-- **A fiber that has begun an acquire is in it until it comes to its end.** -/
theorem Acquires.engaged (h : Acquires f sem base start b s) :
    ∃ σ, Orderly σ b s ∧ (σ f = some ⟨base, sem, start⟩ ∨ Settles f sem base start b s) := by
  induction h with
  | @begin b s left hrecorded hstart hstand =>
    obtain ⟨σ, hσ⟩ := hrecorded.orderly
    obtain ⟨σ', hadvance⟩ := hσ.play .next
    refine ⟨σ', hadvance.orderly, Or.inl ?_⟩
    have hasking : (s.play .next).moment.activity =
        .running f left ⟨outer ⟨base, sem, start⟩, .eval (Effect.perform (.requestPermit sem)).uninterruptible⟩ := by
      obtain ⟨⟨w, a⟩, kept⟩ := s
      cases hstand
      rfl
    obtain ⟨E, hE⟩ := Option.ne_none_iff_exists'.1 (hadvance.orderly.engaged_of_asking hasking)
    cases hf : σ f with
    | none =>
      obtain ⟨hE', left', hbegan⟩ := hadvance.began f E hf hE
      rw [hstand] at hbegan
      obtain ⟨base', sem', start'⟩ := E
      cases hbegan
      cases hE'
      rw [hE, hstart]
    | some G =>
      obtain ⟨⟨w, a⟩, kept⟩ := s
      cases hstand
      obtain ⟨ask, ws, p, hat⟩ := hσ.engaged f G hf
      exact absurd rfl hat.stands.2.not_begins
  | @play b s hacquires hin stroke ih =>
    obtain ⟨σ, hσ, hf | ⟨left, t, v, hstand, -⟩⟩ := ih
    · obtain ⟨σ', hadvance⟩ := hσ.play stroke
      rcases hadvance.ended f _ hf with hf' | ⟨-, hbooks, left, t, v, hstand, hlawful, hsince⟩
      · exact ⟨σ', hadvance.orderly, Or.inl hf'⟩
      · refine ⟨σ', hadvance.orderly, Or.inr ⟨left, t, v, hstand, ?_, ?_⟩⟩
        · rwa [hbooks]
        · rwa [hbooks]
    · exact absurd hstand (hin left _)

/-- A latch leaves the line once. -/
theorem Semaphore.not_delivered_of_abandoned (hleft : (Semaphore.left es).Nodup) (h : .abandoned f l ∈ es) :
    .delivered l ∉ es := by
  intro hdelivered
  cases eq_of_nodup_filterMap hleft h hdelivered rfl rfl

theorem Books.Kept.left_nodup (h : b.Kept σ w) (sem : SemaphoreId) : (Semaphore.left (b.of sem)).Nodup := by
  cases hrow : w.semaphore? sem with
  | none =>
    rw [h.unknown sem hrow]
    exact List.nodup_nil
  | some row =>
    obtain ⟨n, hdealt⟩ := h.dealt sem row hrow
    exact hdealt.line.left_nodup

/-- The permits that a ticket leaves its fiber with that has served its purpose. -/
def Verdict.worth : Verdict → Nat
  | .kept => 1
  | .undone | .abandoned => 0

/-- A ticket that has served its purpose was granted unless it was abandoned, and it was kept unless it was undone. -/
theorem Books.worth_of_settled {t : Option DeferredId} {v : Verdict} (hlawful : Lawful (b.delivered sem) t v)
    (hbooked : ∀ e ∈ (Ask.settled t v).bookings f, e ∈ b.of sem) (hleft : (Semaphore.left (b.of sem)).Nodup) :
    (((Ask.settled t v).bookings f).map (sem, ·)).countP (fun e => b.isGranted e.1 e.2) =
      (((Ask.settled t v).bookings f).map (sem, ·)).countP (·.2.isUndone) + v.worth := by
  cases v with
  | kept | undone =>
    cases t with
    | none => rfl
    | some l =>
      have hdelivered : .delivered l ∈ b.of sem := hlawful l rfl
      simp [Ask.bookings, Ask.ticket, Ask.verdict, Books.isGranted, Booking.isUndone, hdelivered, Verdict.worth]
  | abandoned =>
    cases t with
    | none => cases hlawful
    | some l =>
      have hgone : .delivered l ∉ b.of sem :=
        not_delivered_of_abandoned hleft (hbooked (.abandoned f l) (by simp [Ask.bookings, Ask.verdict]))
      simp [Ask.bookings, Ask.ticket, Ask.verdict, Books.isGranted, Booking.isUndone, hgone, Verdict.worth]

/-- **Whoever comes out of an acquire with a value owns one permit, and whoever is interrupted owns none.** -/
theorem Acquires.owned_of_exit (h : Acquires f sem base start b s) {left : Nat} {x : Exit Value Value}
    (hexit : s.moment.activity = .running f left ⟨base, .ofExit x⟩) :
    x = .value .null ∧ b.owned f start = 1 ∨ x = .interrupted ∧ b.owned f start = 0 := by
  obtain ⟨σ, hσ, hf | ⟨left', t, v, hstand, hlawful, hsince⟩⟩ := h.engaged
  · exact absurd hexit (hσ.not_exit hf left x)
  · rw [hexit] at hstand
    have hx : x = v.exit := by
      cases x <;> cases v <;> cases hstand <;> rfl
    have hbooked : ∀ e ∈ (Ask.settled t v).bookings f, e ∈ b.of sem := fun e he =>
      Books.mem_of_mem_since (e := (sem, e)) (hsince ▸ List.mem_map_of_mem he)
    have hworth := Books.worth_of_settled hlawful hbooked (hσ.books.left_nodup sem)
    have howned : b.owned f start = v.worth := by
      rw [Books.owned, hsince]
      omega
    rw [hx, howned]
    cases v with
    | kept => exact Or.inl ⟨rfl, rfl⟩
    | undone | abandoned => exact Or.inr ⟨rfl, rfl⟩

/-- **Whoever is engaged has begun an acquire and is in it.** -/
theorem Recorded.engaged (h : Recorded b s) :
    ∃ σ, Orderly σ b s ∧ ∀ f E, σ f = some E → Acquires f E.semaphore E.base E.start b s := by
  induction h with
  | initial config definitions => exact ⟨_, .initial config definitions, nofun⟩
  | @play b s hrecorded stroke ih =>
    obtain ⟨σ, hσ, hacquires⟩ := ih
    have hinside (f : FiberId) (E : Engagement) (hf : σ f = some E) :
        Acquires f E.semaphore E.base E.start (s.book stroke b) (s.play stroke) :=
      (hacquires f E hf).play (hσ.not_exit hf) stroke
    cases stroke with
    | next =>
      obtain ⟨σ', hadvance⟩ := hσ.play .next
      refine ⟨σ', hadvance.orderly, fun f E hE => ?_⟩
      cases hf : σ f with
      | none =>
        obtain ⟨hstart, left, hstand⟩ := hadvance.began f E hf hE
        exact .begin hrecorded hstart.symm hstand
      | some G =>
        rcases hadvance.ended f G hf with hsame | ⟨hnone, -⟩
        · cases hE.symm.trans hsame
          exact hinside f E hf
        · cases hE.symm.trans hnone
    | fire => exact ⟨σ, hσ.fire.orderly, hinside⟩
    | switch => exact ⟨σ, hσ.switch.orderly, hinside⟩
    | clock time => exact ⟨σ, (hσ.clock time).orderly, hinside⟩
    | demand d => exact ⟨σ, (hσ.demand d).orderly, hinside⟩

/-! ## Latches in line -/

/-- A fiber in line that has nothing else to do waits for its latch. -/
theorem Engagement.At.parked {E : Engagement} {ask : Ask} {ws : List (Nat × Callback)} {p : Place}
    (hat : E.At f b ⟨w, .idle⟩ ask ws p) (hl : ask.latch? = some l) (htokens : w.tokens f = []) :
    ∃ key, w.phase? f = some (.suspended (E.inner (some l)) (.waiter l key)) := by
  obtain ⟨home, hrecord⟩ := hat.fits_idle.record
  have hheld : Held f p.epoch p.hook p.standing [] .idle := htokens ▸ hat.fits_idle.held
  cases hat.acquiring with
  | @parked l' key _ hp =>
    cases hl
    have hphase : (p.record home).phase = .suspended (E.inner (some l)) (.waiter l key) := congrArg Standing.phase hp
    exact ⟨key, by rw [World.phase?_of_record hrecord, hphase]⟩
  | ready hp | registering hp | answered _ hp | returned hp | unwinding _ _ hp =>
    rw [hp] at hheld
    cases hheld

/-! ## All together -/

/-- What the books and the row of a semaphore that was made with some permits have to do with each other. -/
structure Conserved (sem : SemaphoreId) (n : Nat) (b : Books) (s : Scene) (row : Semaphore) : Prop where
  /-- Free permits and grants are as many as those that it was made with and those that were released. -/
  count : row.permits + b.grants sem = n + b.releases sem
  /-- Nobody waits while a permit is free. -/
  free : 0 < row.permits → row.waiters = []
  distinct : row.waiters.Nodup
  /-- The latches in line are not completed. -/
  pending : ∀ l ∈ row.waiters, ∃ ws key, s.moment.world.deferred? l = some (.pending ws key)
  /-- When nothing is left to do, the fibers in line are parked on their latches in their acquires. -/
  parked : s.moment.activity = .idle → s.moment.world.loop.inbox = [] → s.moment.world.aside.inbox = [] →
    ∀ l ∈ row.waiters, ∃ (f : FiberId) (E : Engagement) (key : Nat), Acquires f sem E.base E.start b s ∧
      s.moment.world.phase? f = some (.suspended (E.inner (some l)) (.waiter l key))
  /-- An acquire that yields a value owns one permit, and one that was interrupted owns none. -/
  owned : ∀ f base start left x, Acquires f sem base start b s →
    s.moment.activity = .running f left ⟨base, .ofExit x⟩ →
      x = .value .null ∧ b.owned f start = 1 ∨ x = .interrupted ∧ b.owned f start = 0

/-- **The permits of a semaphore are conserved**, in every run from the time on at which it was made. -/
theorem Made.conserved (h : Made sem n b s) (hfits : n + b.releases sem < wordLimit) :
    ∃ row, s.moment.world.semaphore? sem = some row ∧ Conserved sem n b s row := by
  obtain ⟨row, hrow, hdealt, hbalanced⟩ := h.steps
  obtain ⟨σ, hσ, hengaged⟩ := h.recorded.engaged
  refine ⟨row, hrow, {
    count := ?_
    free := fun hfree => hdealt.idle.resolve_left (Nat.ne_of_gt hfree)
    distinct := hdealt.line.line_nodup
    pending := fun l hl => ?_
    parked := fun hidle hloop haside l hl => ?_
    owned := fun f base start left x hacquires => hacquires.owned_of_exit }⟩
  · have hcount : row.permits + (b.of sem).countP Booking.isGrant = n + (b.of sem).countP Booking.comesBack :=
      hbalanced hfits
    have hbacks := countP_comesBack (b.of sem)
    unfold Books.grants Books.releases
    omega
  · obtain ⟨-, -, -, ws, -, key, -, -, -, -, -, -, hpending⟩ := hσ.owner hrow hl
    exact ⟨ws, key, hpending⟩
  · obtain ⟨⟨w, a⟩, kept⟩ := s
    cases hidle
    obtain ⟨c, E, ask, ws, p, -, -, -, hE, hat, hlatch, rfl, -⟩ := hσ.owner hrow hl
    obtain ⟨key, hphase⟩ := hat.parked hlatch (World.tokens_of_empty hloop haside c.fiber)
    exact ⟨c.fiber, E, key, hengaged c.fiber E hE, hphase⟩

theorem Made.after (h : Made sem n b s) (strokes : List Stroke) : Made sem n (s.books strokes b) (s.after strokes) := by
  induction strokes generalizing b s with
  | nil => exact h
  | cons stroke rest ih => exact ih (h.play stroke)

/-- Two fibers ask for the only permit of a semaphore. -/
def rivals : List Stroke :=
  [.demand (.scenario (.run "a" (.semaphore (.acquire (.var "s"))) false)),
    .demand (.scenario (.run "b" (.semaphore (.acquire (.var "s"))) false))] ++ List.replicate 36 .next

/-- The scene at which the semaphore of the rivals was just made. -/
def contested : Scene := (Scene.initial {} []).play (.demand (.scenario (.newSemaphore "s" 1)))

/-- One of them owns the permit, and the other one is in line. -/
theorem Made.conserved_of_rivals : (contested.after rivals).moment.world.semaphore? ⟨0⟩ = some ⟨0, [⟨0⟩]⟩ ∧
    Conserved ⟨0⟩ 1 (contested.books rivals {}) (contested.after rivals) ⟨0, [⟨0⟩]⟩ := by
  have hmade : Made ⟨0⟩ 1 {} contested :=
    .make (.initial {} []) (.demand (.scenario (.newSemaphore "s" 1))) rfl rfl
  have hrow : (contested.after rivals).moment.world.semaphore? ⟨0⟩ = some ⟨0, [⟨0⟩]⟩ := rfl
  have hfits : 1 + (contested.books rivals {}).releases ⟨0⟩ < wordLimit := by decide
  obtain ⟨row, hrow', hconserved⟩ := Made.conserved (hmade.after rivals) hfits
  cases hrow.symm.trans hrow'
  exact ⟨hrow, hconserved⟩

end FiberLoop
