import FiberLoop.Proofs.Permits.Trading

/-!
# The order is kept when permits change hands

`Orderly.trade` is the step of a fiber that deals with the permits of one semaphore: the books and the row change
together, and the other fibers in an acquire go on with theirs. `Orderly.putBack` are those fibers when a permit comes
back.
-/

namespace FiberLoop

open Engagement

variable {E : Engagement} {f g : FiberId} {σ : Engagements} {b b' : Books} {w w' : World} {a a' : Activity}
  {kept : List Effect} {ask : Ask} {ws : List (Nat × Callback)} {p : Place} {l : DeferredId} {sem : SemaphoreId}
  {row row' : Semaphore} {new : List Booking}

/-- One step of a semaphore, or none. -/
def Semaphore.Step (es : List Booking) (row : Semaphore) (new : List Booking) (row' : Semaphore) : Prop :=
  new = [] ∧ row' = row ∨ Semaphore.Deal es row new row'

theorem Semaphore.Step.stays {es : List Booking} (h : Semaphore.Step es row new row') (hl : l ∈ row.waiters)
    (hstays : l ∉ Semaphore.left new) : l ∈ row'.waiters := by
  rcases h with ⟨rfl, rfl⟩ | hdeal
  · exact hl
  · exact hdeal.stays hl hstays

theorem Semaphore.Step.dealt {es : List Booking} {n : Nat} (h : Semaphore.Step es row new row')
    (hdealt : Semaphore.Dealt n es row) : Semaphore.Dealt n (es ++ new) row' := by
  rcases h with ⟨rfl, rfl⟩ | hdeal
  · rwa [List.append_nil]
  · exact hdealt.deal hdeal

/-- A latch that does not leave the line. -/
theorem World.Latched.carry {s : SemaphoreId} (h : w.Latched b s l ws) (hadds : b.Adds f sem new b')
    (htrades : w.Trades σ b b' sem row' w') (hrow : w.semaphore? sem = some row)
    (hstep : Semaphore.Step (b.of sem) row new row') (hl : w'.deferred? l = w.deferred? l)
    (hstays : l ∉ Semaphore.left new) : w'.Latched b' s l ws := by
  rcases h with ⟨hdelivered, hdone⟩ | ⟨row₀, key, hrow₀, hmem, hpending⟩
  · exact Or.inl ⟨hadds.delivered hdelivered, hl.trans hdone⟩
  · refine Or.inr ?_
    by_cases hs : s = sem
    · subst hs
      cases hrow.symm.trans hrow₀
      exact ⟨row', key, htrades.row, hstep.stays hmem hstays, hl.trans hpending⟩
    · exact ⟨row₀, key, (htrades.rows s hs).trans hrow₀, hmem, hl.trans hpending⟩

theorem World.Trades.there {s : SemaphoreId} (h : w.Trades σ b b' sem row' w')
    (hs : (w.semaphore? s).isSome = true) : (w'.semaphore? s).isSome = true := by
  by_cases he : s = sem
  · rw [he, h.row]
    rfl
  · rwa [h.rows s he]

/-- The acquire of another fiber that nobody has woken goes on. -/
theorem Engagement.At.carry (hat : E.At g b ⟨w, a⟩ ask ws p) (hg : g ≠ f) (hadds : b.Adds f sem new b')
    (htrades : w.Trades σ b b' sem row' w') (hrow : w.semaphore? sem = some row)
    (hstep : Semaphore.Step (b.of sem) row new row') (ha : a.of g = .idle) (ha' : a'.of g = .idle)
    (hview : w'.view g .idle = w.view g .idle)
    (hlatch : ∀ l, ask.latch? = some l → w'.deferred? l = w.deferred? l ∧ l ∉ Semaphore.left new) :
    E.At g b' ⟨w', a'⟩ ask ws p where
  fits := by
    have hfits := hat.fits
    rw [Moment.view, ha] at hfits
    rw [Moment.view, ha', hview]
    exact hfits
  acquiring := hat.acquiring.mono fun _ => hadds.delivered
  claim := (hadds.others g hg).trans hat.claim
  start := Nat.le_trans hat.start hadds.length_le
  booked := (hadds.since_of_ne hg hat.start).trans hat.booked
  there := htrades.there hat.there
  latched l hl := (hat.latched l hl).carry hadds htrades hrow hstep (hlatch l hl).1 (hlatch l hl).2
  woken l hl hdelivered := hat.woken l hl (hadds.delivered_old hdelivered (hlatch l hl).2)
  awaits := (congrArg (Activity.Awaits ask) ha').mpr trivial

namespace Books

/-- The books and the row of a semaphore change together. -/
theorem Kept.trade (h : b.Kept σ w) (hadds : b.Adds f sem new b') (htrades : w.Trades σ b b' sem row' w')
    (hrow : w.semaphore? sem = some row) (hstep : Semaphore.Step (b.of sem) row new row')
    (hticketed : b'.Ticketed σ) (hjoined : ∀ l ∈ Semaphore.joined new, l.index < w'.stores.deferreds.size)
    (howned : ∀ l ∈ row'.waiters, ∃ c ∈ b'.claims, c.semaphore = sem ∧ c.latch? = some l)
    (hrest : ∀ c ∈ b.claims, c.semaphore ≠ sem →
      ∃ c' ∈ b'.claims, c'.semaphore = c.semaphore ∧ c'.latch? = c.latch?) : b'.Kept σ w' where
  toTicketed := hticketed
  dealt s row₀ hrow₀ := by
    by_cases hs : s = sem
    · subst hs
      cases htrades.row.symm.trans hrow₀
      obtain ⟨n, hdealt⟩ := h.dealt s row hrow
      rw [hadds.of_self]
      exact ⟨n, hstep.dealt hdealt⟩
    · rw [hadds.of_ne hs]
      exact h.dealt s row₀ ((htrades.rows s hs).symm.trans hrow₀)
  unknown s hnone := by
    by_cases hs : s = sem
    · subst hs
      cases htrades.row.symm.trans hnone
    · rw [hadds.of_ne hs]
      exact h.unknown s ((htrades.rows s hs).symm.trans hnone)
  latches l hl := by
    rcases List.mem_append.1 (hadds.latches ▸ hl) with hold | hnew
    · exact Nat.lt_of_lt_of_le (h.latches l hold) htrades.deferreds
    · exact hjoined l hnew
  owned s row₀ hrow₀ l hl := by
    by_cases hs : s = sem
    · subst hs
      cases htrades.row.symm.trans hrow₀
      exact howned l hl
    · obtain ⟨c, hc, hsemaphore, hlatch⟩ := h.owned s row₀ ((htrades.rows s hs).symm.trans hrow₀) l hl
      obtain ⟨c', hc', hsame, hlatch'⟩ := hrest c hc (hsemaphore ▸ hs)
      exact ⟨c', hc', hsame.trans hsemaphore, hlatch'.trans hlatch⟩

end Books

namespace Orderly

/-- **A fiber deals with the permits of a semaphore.** -/
theorem trade (h : Orderly σ b ⟨⟨w, a⟩, kept⟩) (ha' : a'.fiber? = some f) (hoccurs : Scene.Occurs ⟨⟨w', a'⟩, kept⟩)
    (hadds : b.Adds f sem new b') (htrades : w.Trades σ b b' sem row' w') (hrow : w.semaphore? sem = some row)
    (hstep : Semaphore.Step (b.of sem) row new row') (hbooks : b'.Kept σ w')
    (hin : σ f = none → a'.In (w'.scope σ b'))
    (hothers : ∀ g E, g ≠ f → σ g = some E → ∃ ask ws p, E.At g b' ⟨w', a'⟩ ask ws p)
    (hself : ∀ E, σ f = some E → ∃ ask ws p, E.At f b' ⟨w', a'⟩ ask ws p) :
    Advance σ b ⟨⟨w, a⟩, kept⟩ σ b' ⟨⟨w', a'⟩, kept⟩ where
  orderly := {
    occurs := hoccurs
    confined := htrades.confined
    activity := by
      cases hf : σ f with
      | none => exact hin hf
      | some E => exact Activity.in_of_hidden ha' fun hnone => nomatch hf.symm.trans hnone
    kept := fun e he d hd => htrades.grows.mentions d (h.kept e he d hd)
    books := hbooks
    base := fun g E hg d hd => htrades.grows.mentions d (h.base g E hg d hd)
    engaged := fun g E hg => by
      by_cases hgf : g = f
      · subst hgf
        exact hself E hg
      · exact hothers g E hgf hg }
  deals s row₀ hrow₀ := by
    by_cases hs : s = sem
    · subst hs
      cases hrow.symm.trans hrow₀
      exact ⟨new, row', htrades.row, hadds.of_self, hstep⟩
    · exact ⟨[], row₀, (htrades.rows s hs).trans hrow₀, (hadds.of_ne hs).trans (List.append_nil _).symm,
        Or.inl ⟨rfl, rfl⟩⟩
  absent s hnone := hadds.of_ne fun hs => nomatch (hs ▸ hnone).symm.trans hrow
  began _ _ hnone hsome := nomatch hnone.symm.trans hsome
  ended _ _ hf := Or.inl hf

/-! ## Who is first in line -/

/-- Who is in line is in an acquire, and waits on that latch. -/
theorem owner (h : Orderly σ b ⟨⟨w, a⟩, kept⟩) (hrow : w.semaphore? sem = some row) (hl : l ∈ row.waiters) :
    ∃ c E ask ws p key, c ∈ b.claims ∧ c.latch? = some l ∧ σ c.fiber = some E ∧ E.At c.fiber b ⟨w, a⟩ ask ws p ∧
      ask.latch? = some l ∧ E.semaphore = sem ∧ w.deferred? l = some (.pending ws key) := by
  obtain ⟨c, hc, hsemaphore, hlatch⟩ := h.books.owned sem row hrow l hl
  obtain ⟨E, hE⟩ := Option.ne_none_iff_exists'.1 (h.books.engaged c hc)
  obtain ⟨ask, ws, p, hat⟩ := h.engaged c.fiber E hE
  have hclaim := (h.books.claim?_of_mem hc).symm.trans hat.claim
  have hask : ask.latch? = some l ∧ E.semaphore = sem := by
    cases ask with
    | holding t | undoing t =>
      rw [Option.some.inj hclaim] at hlatch hsemaphore
      exact ⟨hlatch, hsemaphore⟩
    | asking | settled t v => cases hclaim
  refine ⟨c, E, ask, ws, p, ?_⟩
  rcases hat.latched l hask.1 with ⟨hdelivered, -⟩ | ⟨row₀, key, -, -, hpending⟩
  · rw [hask.2] at hdelivered
    exact absurd hdelivered (h.books.not_delivered_of_mem hrow hl)
  · exact ⟨key, hc, hlatch, hE, hat, hask.1, hask.2, hpending⟩

/-! ## The other fibers -/

theorem of_other (ha : a.fiber? = some f) (hg : g ≠ f) : a.of g = .idle :=
  Activity.of_other fun he => hg (Option.some.inj (he.symm.trans ha))

/-- Nobody is woken. -/
theorem bystand (h : Orderly σ b ⟨⟨w, a⟩, kept⟩) (ha : a.fiber? = some f) (ha' : a'.fiber? = some f)
    (hadds : b.Adds f sem new b') (htrades : w.Trades σ b b' sem row' w') (hrow : w.semaphore? sem = some row)
    (hstep : Semaphore.Step (b.of sem) row new row') (hview : ∀ g, w'.view g .idle = w.view g .idle)
    (hlatch : ∀ c ∈ b.claims, c.fiber ≠ f → ∀ l, c.latch? = some l →
      w'.deferred? l = w.deferred? l ∧ l ∉ Semaphore.left new) :
    ∀ g E, g ≠ f → σ g = some E → ∃ ask ws p, E.At g b' ⟨w', a'⟩ ask ws p := by
  intro g E hg hE
  obtain ⟨ask, ws, p, hat⟩ := h.engaged g E hE
  refine ⟨ask, ws, p, hat.carry hg hadds htrades hrow hstep (of_other ha hg) (of_other ha' hg) (hview g) ?_⟩
  intro l hl
  obtain ⟨c, hc, rfl, -, hc'⟩ := hat.mem_claims hl
  exact hlatch c hc hg l hc'

/-- What comes of a permit that comes back. -/
structure PutBack (σ : Engagements) (b b' : Books) (f : FiberId) (sem : SemaphoreId) (row : Semaphore)
    (new : List Booking) (w : World) (a' : Activity) (row' : Semaphore) : Prop where
  step : Semaphore.Step (b.of sem) row new row'
  trades : w.Trades σ b b' sem row' (w.releasePermit sem)
  waiters : row'.waiters ⊆ row.waiters
  view : ∀ a, (w.releasePermit sem).view f a = w.view f a
  others : ∀ g E, g ≠ f → σ g = some E → ∃ ask ws p, E.At g b' ⟨w.releasePermit sem, a'⟩ ask ws p

/-- **A permit that comes back goes to the first in line.** -/
theorem putBack (h : Orderly σ b ⟨⟨w, a⟩, kept⟩) (a' : Activity) (ha : a.fiber? = some f) (ha' : a'.fiber? = some f)
    (hrow : w.semaphore? sem = some row) {e : Booking} (he : e.comesBack = true)
    (hnew : new = e :: (w.nextInLine? sem).toList.map .delivered) (hadds : b.Adds f sem new b')
    (hmine : ∀ c ∈ b.claims, c.fiber = f → ∀ l, c.latch? = some l → l ∉ row.waiters) :
    ∃ row', PutBack σ b b' f sem row new w a' row' := by
  obtain ⟨permits, waiters⟩ := row
  cases waiters with
  | nil =>
    rw [World.nextInLine?_of_idle hrow, Option.toList_none, List.map_nil] at hnew
    subst hnew
    have hline := Semaphore.line_of_comesBack he []
    have hlatches : b'.latches = b.latches := by
      rw [hadds.latches, hline.1]
      exact List.append_nil _
    have htrades := h.calm.trades_setSemaphore hrow ⟨(permits + 1) % wordLimit, []⟩ hlatches
    have hstep : Semaphore.Step (b.of sem) ⟨permits, []⟩ [e] ⟨(permits + 1) % wordLimit, []⟩ :=
      Or.inr (.free he permits)
    rw [← World.releasePermit_of_idle hrow] at htrades
    refine ⟨_, hstep, htrades, List.Subset.refl _, fun a => ?_, ?_⟩
    · rw [World.releasePermit_of_idle hrow]
      rfl
    · refine h.bystand ha ha' hadds htrades hrow hstep (fun g => ?_) fun c _ _ l _ => ⟨?_, ?_⟩
      · rw [World.releasePermit_of_idle hrow]
        rfl
      · rw [World.releasePermit_of_idle hrow]
        rfl
      · rw [hline.2]
        exact List.not_mem_nil
  | cons l rest =>
    obtain ⟨c, E, ask, ws, p, key, hc, hlatch, hE, hat, hask, hsemaphore, hpending⟩ := h.owner hrow List.mem_cons_self
    have hc' : c.fiber ≠ f := fun he => hmine c hc he l hlatch List.mem_cons_self
    rw [World.nextInLine?_of_pending hrow hpending, Option.toList_some, List.map_singleton] at hnew
    subst hnew
    have hline := Semaphore.line_of_comesBack he [.delivered l]
    have hlatches : b'.latches = b.latches := by
      rw [hadds.latches, hline.1]
      exact List.append_nil _
    have htrades := h.calm.trades_wake hrow hpending hlatches
    have hstep : Semaphore.Step (b.of sem) ⟨permits, l :: rest⟩ [e, .delivered l] ⟨permits, rest⟩ :=
      Or.inr (.pass he permits l rest)
    have hview (g : FiberId) (hg : c.fiber ≠ g) (a : Activity) : (w.releasePermit sem).view g a = w.view g a := by
      rw [World.releasePermit_of_pending hrow hpending]
      refine (World.view_wake_of_ne (fun waiter hwaiter => ?_) _ a).trans rfl
      rw [hat.acquiring.waits waiter hwaiter]
      exact hg
    refine ⟨_, hstep, htrades, fun _ hl' => List.mem_cons_of_mem _ hl', hview f hc', fun g G hg hG => ?_⟩
    by_cases hgc : g = c.fiber
    · subst hgc
      cases hE.symm.trans hG
      have hfits : Fits c.fiber ((w.setDeferred l (.done (.value .null))).view c.fiber .idle) p := by
        have hfits := hat.fits
        rw [Moment.view, of_other ha hg] at hfits
        exact hfits
      have hnew : b'.delivered E.semaphore l := by
        rw [hsemaphore, Books.delivered, hadds.of_self]
        exact List.mem_append_right _ (List.mem_cons_of_mem _ List.mem_cons_self)
      obtain ⟨ws', q, hq, hacquiring, hwoken⟩ := hat.acquiring.woken hfits hask (fun _ => hadds.delivered) hnew
      refine ⟨ask, ws', q, ?_, hacquiring, (hadds.others _ hg).trans hat.claim,
        Nat.le_trans hat.start hadds.length_le, (hadds.since_of_ne hg hat.start).trans hat.booked,
        htrades.there hat.there, fun l' hl' => ?_, fun _ _ _ => hwoken,
        (congrArg (Activity.Awaits ask) (of_other ha' hg)).mpr trivial⟩
      · rw [Moment.view, of_other ha' hg, World.releasePermit_of_pending hrow hpending]
        exact hq
      · cases hask.symm.trans hl'
        exact Or.inl ⟨hnew, World.deferred?_releasePermit_self hrow hpending⟩
    · obtain ⟨ask', ws', p', hat'⟩ := h.engaged g G hG
      refine ⟨ask', ws', p', hat'.carry hg hadds htrades hrow hstep (of_other ha hg) (of_other ha' hg)
        (hview g (Ne.symm hgc) .idle) fun l' hl' => ?_⟩
      obtain ⟨c', hc', hfiber, -, hlatch'⟩ := hat'.mem_claims hl'
      have hne : l' ≠ l := by
        rintro rfl
        exact hgc (hfiber.symm.trans (congrArg Claim.fiber (h.books.unique hc' hc hlatch' hlatch)))
      refine ⟨World.deferred?_releasePermit_of_ne hrow hpending hne, ?_⟩
      rw [hline.2]
      exact fun hmem => hne (List.mem_singleton.1 hmem)

end Orderly

end FiberLoop
