import FiberLoop.Proofs.Permits.Waits

/-!
# What an acquire does to the permits

A fiber in an acquire requests a permit, and keeps it or, if it was interrupted, gives it back or gives up its place
in line; then the acquire is over. With the steps inside an acquire this makes `Orderly.serve`: whatever the fiber
does next, the order is kept.
-/

namespace FiberLoop

open Engagement

variable {E : Engagement} {σ : Engagements} {b b' : Books} {w w' : World} {kept : List Effect} {f : FiberId}
  {ask ask' : Ask} {ws : List (Nat × Callback)} {p : Place} {s s' : Stand} {left left' : Nat} {run : Run}
  {l : DeferredId} {new : List Booking} {row row' : Semaphore} {t : Option DeferredId} {v : Verdict}

/-- A fiber in an acquire deals with its permit. -/
theorem Engagement.At.deal (hat : E.At f b ⟨w, .running f left s⟩ ask ws p) (hadds : b.Adds f E.semaphore new b')
    (htrades : w.Trades σ b b' E.semaphore row' w') (hview : ∀ a, w'.view f a = w.view f a)
    (hstands : E.Stands (E.heeds p) (b'.delivered E.semaphore) ask' s')
    (hclaim : b'.claim? f = ask'.claim? f E.semaphore)
    (hbookings : ask'.bookings f = ask.bookings f ++ new.filter (·.fiber? = some f))
    (hlatched : ∀ l, ask'.latch? = some l → w'.Latched b' E.semaphore l []) :
    E.At f b' ⟨w', .running f left' s'⟩ ask' [] (p.moveTo (.ready s')) where
  fits := by
    rw [Moment.view_self rfl, hview]
    exact (hat.fits_self rfl).stand left' s'
  acquiring := .ready rfl hstands
  claim := hclaim
  start := Nat.le_trans hat.start hadds.length_le
  booked := by rw [hadds.since f hat.start, hat.booked, hbookings, List.map_append]
  there := htrades.there hat.there
  latched := hlatched
  woken _ _ _ := List.forall_mem_nil _
  awaits := Activity.Awaits.of (a := .running f left' s') trivial f

/-- Where regions are not interruptible nothing is cut. -/
theorem World.cuts_of_masked (hmasks : run.masks.isInterruptible = false) (w : World) (f : FiberId) (c : Call) :
    w.cuts f c run = false := by
  rw [World.cuts, World.interruptPending, hmasks, Bool.false_and, Bool.and_false]

namespace Books

/-- Who is still in line holds a ticket when another ticket has served its purpose. -/
theorem owned_drop {c : Claim} {sem : SemaphoreId} (h : b.Kept σ w) (hc : b.claim? f = some c)
    (hrow : w.semaphore? sem = some row) {line : List DeferredId} (hline : line ⊆ row.waiters)
    (hgone : ∀ l, c.latch? = some l → l ∉ line) :
    ∀ l ∈ line, ∃ c' ∈ (b.drop f).claims, c'.semaphore = sem ∧ c'.latch? = some l := by
  intro l hl
  obtain ⟨c', hc', hsemaphore, hlatch⟩ := h.owned sem row hrow l (hline hl)
  refine ⟨c', Ticketed.mem_drop hc hc' ?_, hsemaphore, hlatch⟩
  rintro rfl
  exact hgone l hlatch hl

/-- The tickets of other semaphores are held as before. -/
theorem rest_drop {c : Claim} (hc : b.claim? f = some c) :
    ∀ c' ∈ b.claims, c'.semaphore ≠ c.semaphore →
      ∃ c'' ∈ (b.drop f).claims, c''.semaphore = c'.semaphore ∧ c''.latch? = c'.latch? := by
  intro c' hc' hne
  refine ⟨c', Ticketed.mem_drop hc hc' ?_, rfl, rfl⟩
  rintro rfl
  exact hne rfl

end Books

namespace Orderly

/-! ## A permit is requested -/

/-- The latch of somebody who joins a line is new. -/
theorem new_latch (h : Orderly σ b ⟨⟨w, .running f left s⟩, kept⟩) : (⟨w.stores.deferreds.size⟩ : DeferredId) ∉ b.latches :=
  fun hl => Nat.lt_irrefl _ (h.books.latches _ hl)

/-- A request is granted at once. -/
theorem grant (h : Orderly σ b ⟨⟨w, .running f (left + 1) s⟩, kept⟩) (hf : σ f = some E)
    (hat : E.At f b ⟨w, .running f (left + 1) s⟩ .asking [] p) {n : Nat}
    (hrow : w.semaphore? E.semaphore = some ⟨n + 1, []⟩)
    (hoccurs : Scene.Occurs ⟨⟨w.setSemaphore E.semaphore ⟨n, []⟩, .running f left ⟨E.asked, .value (E.ticket none)⟩⟩,
      kept⟩) :
    Advance σ b ⟨⟨w, .running f (left + 1) s⟩, kept⟩ σ
      ((b.hold { fiber := f, semaphore := E.semaphore, latch? := none }).write E.semaphore [.granted f])
      ⟨⟨w.setSemaphore E.semaphore ⟨n, []⟩, .running f left ⟨E.asked, .value (E.ticket none)⟩⟩, kept⟩ := by
  have hadds : b.Adds f E.semaphore [.granted f]
      ((b.hold { fiber := f, semaphore := E.semaphore, latch? := none }).write E.semaphore [.granted f]) :=
    Books.adds_hold rfl (Books.mine_singleton rfl)
  have htrades := h.calm.trades_setSemaphore hrow ⟨n, []⟩ (hadds.latches.trans (List.append_nil _))
  have hstep : Semaphore.Step (b.of E.semaphore) ⟨n + 1, []⟩ [.granted f] ⟨n, []⟩ := Or.inr (.take rfl n)
  have hticketed := h.books.hold (c := { fiber := f, semaphore := E.semaphore, latch? := none }) (engaged_ne hf)
    hat.claim nofun
  have hbooks := h.books.trade hadds htrades hrow hstep hticketed (List.forall_mem_nil _) (List.forall_mem_nil _)
    fun c hc _ => ⟨c, List.mem_cons_of_mem _ hc, rfl, rfl⟩
  refine h.trade rfl hoccurs hadds htrades hrow hstep hbooks (fun hnone => absurd hnone (engaged_ne hf)) ?_ ?_
  · exact h.bystand rfl rfl hadds htrades hrow hstep (fun _ => rfl) fun _ _ _ _ _ => ⟨rfl, List.not_mem_nil⟩
  · intro G hG
    cases hf.symm.trans hG
    exact ⟨.holding none, [], _, hat.deal hadds htrades (fun _ => rfl) (.given none) Books.claim?_hold_self
      (by simp [Ask.bookings, Ask.ticket, Booking.fiber?]) nofun⟩

/-- A request joins the line. -/
theorem join (h : Orderly σ b ⟨⟨w, .running f (left + 1) s⟩, kept⟩) (hf : σ f = some E)
    (hat : E.At f b ⟨w, .running f (left + 1) s⟩ .asking [] p) {line : List DeferredId}
    (hrow : w.semaphore? E.semaphore = some ⟨0, line⟩) (hl : l = ⟨w.stores.deferreds.size⟩)
    (hoccurs : Scene.Occurs ⟨⟨w.makeDeferred.2.setSemaphore E.semaphore ⟨0, line ++ [l]⟩,
      .running f left ⟨E.asked, .value (E.ticket (some l))⟩⟩, kept⟩) :
    Advance σ b ⟨⟨w, .running f (left + 1) s⟩, kept⟩ σ
      ((b.hold { fiber := f, semaphore := E.semaphore, latch? := some l }).write E.semaphore [.queued f l])
      ⟨⟨w.makeDeferred.2.setSemaphore E.semaphore ⟨0, line ++ [l]⟩,
        .running f left ⟨E.asked, .value (E.ticket (some l))⟩⟩, kept⟩ := by
  have hadds : b.Adds f E.semaphore [.queued f l]
      ((b.hold { fiber := f, semaphore := E.semaphore, latch? := some l }).write E.semaphore [.queued f l]) :=
    Books.adds_hold rfl (Books.mine_singleton rfl)
  have hnew : l ∉ b.latches := hl ▸ h.new_latch
  have htrades := h.calm.trades_join hrow ⟨0, line ++ [l]⟩ (by rw [hadds.latches, ← hl]; rfl)
  have hunknown : l ∉ Semaphore.joined (b.of E.semaphore) := fun hmem => by
    obtain ⟨e, he, hjoins⟩ := List.mem_filterMap.1 hmem
    obtain ⟨entry, hentry, hof⟩ := List.mem_filterMap.1 he
    split at hof
    · cases hof
      exact hnew (List.mem_filterMap.2 ⟨entry, hentry, hjoins⟩)
    · cases hof
  have hstep : Semaphore.Step (b.of E.semaphore) ⟨0, line⟩ [.queued f l] ⟨0, line ++ [l]⟩ :=
    Or.inr (.join f hunknown line)
  have hticketed := h.books.hold (c := { fiber := f, semaphore := E.semaphore, latch? := some l }) (engaged_ne hf)
    hat.claim (fun l' hl' => Option.some.inj hl' ▸ hnew)
  have hsize : (w.makeDeferred.2.setSemaphore E.semaphore ⟨0, line ++ [l]⟩).stores.deferreds.size =
      w.stores.deferreds.size + 1 := Table.size_push _ _
  have hbooks := h.books.trade hadds htrades hrow hstep hticketed
    (List.forall_mem_singleton.2 (by rw [hsize, hl]; exact Nat.lt_succ_self _)) (fun l' hl' => ?_)
    fun c hc _ => ⟨c, List.mem_cons_of_mem _ hc, rfl, rfl⟩
  · refine h.trade rfl hoccurs hadds htrades hrow hstep hbooks (fun hnone => absurd hnone (engaged_ne hf)) ?_ ?_
    · refine h.bystand rfl rfl hadds htrades hrow hstep (fun _ => rfl) fun c hc _ l' hl' => ⟨?_, List.not_mem_nil⟩
      have hlt := h.books.latches l' (h.books.claimed c hc l' hl')
      exact (Table.get?_push _ _ _).trans (if_neg (Nat.ne_of_lt hlt))
    · intro G hG
      cases hf.symm.trans hG
      refine ⟨.holding (some l), [], _, hat.deal hadds htrades (fun _ => rfl) (.given (some l)) Books.claim?_hold_self
        (by simp [Ask.bookings, Ask.ticket, Booking.fiber?]) fun l' hl' => ?_⟩
      cases hl'
      refine Or.inr ⟨_, 0, htrades.row, List.mem_append_right _ (List.mem_singleton.2 rfl), ?_⟩
      exact (Table.get?_push _ _ _).trans (if_pos (congrArg DeferredId.index hl))
  · rcases List.mem_append.1 hl' with hold | hlast
    · obtain ⟨c, hc, hsemaphore, hlatch⟩ := h.books.owned _ _ hrow l' hold
      exact ⟨c, List.mem_cons_of_mem _ hc, hsemaphore, hlatch⟩
    · exact ⟨_, List.mem_cons_self, rfl, congrArg some (List.mem_singleton.1 hlast).symm⟩

/-- What a request for a permit does. -/
theorem request (h : Orderly σ b ⟨⟨w, .running f (left + 1) s⟩, kept⟩) (hf : σ f = some E)
    (hat : E.At f b ⟨w, .running f (left + 1) s⟩ .asking [] p)
    (hoccurs : Scene.Occurs ⟨⟨(w.requestPermit E.semaphore).2,
      .running f left ⟨E.asked, .value (w.requestPermit E.semaphore).1⟩⟩, kept⟩) :
    Advance σ b ⟨⟨w, .running f (left + 1) s⟩, kept⟩ σ
      (b.record f (.thunk (.perform (.requestPermit E.semaphore))) w)
      ⟨⟨(w.requestPermit E.semaphore).2, .running f left ⟨E.asked, .value (w.requestPermit E.semaphore).1⟩⟩, kept⟩ := by
  obtain ⟨⟨permits, waiters⟩, hrow⟩ := Option.isSome_iff_exists.1 hat.there
  have hrow' : w.semaphore? E.semaphore = some ⟨permits, waiters⟩ := hrow
  by_cases hfree : 0 < permits ∧ waiters = []
  · obtain ⟨hpositive, rfl⟩ := hfree
    obtain ⟨n, rfl⟩ : ∃ n, permits = n + 1 := ⟨permits - 1, (Nat.sub_add_cancel hpositive).symm⟩
    have htry := World.tryAcquire_of_free hrow'
    have hrequest : w.requestPermit E.semaphore = (E.ticket none, w.setSemaphore E.semaphore ⟨n, []⟩) := by
      simp only [World.requestPermit, htry]
      rfl
    have hrecord : b.record f (.thunk (.perform (.requestPermit E.semaphore))) w =
        (b.hold { fiber := f, semaphore := E.semaphore, latch? := none }).write E.semaphore [.granted f] := by
      simp only [Books.record, htry, if_true]
    rw [hrequest] at hoccurs ⊢
    rw [hrecord]
    exact h.grant hf hat hrow' hoccurs
  · have htry := World.tryAcquire_of_taken hrow' hfree
    obtain ⟨made, hdealt⟩ := h.books.dealt _ _ hrow'
    have hnone : permits = 0 := by
      rcases hdealt.idle with hnone | hempty
      · exact hnone
      · exact Classical.byContradiction fun hne => hfree ⟨Nat.pos_of_ne_zero hne, hempty⟩
    subst hnone
    have hrequest : w.requestPermit E.semaphore = (E.ticket (some ⟨w.stores.deferreds.size⟩),
        w.makeDeferred.2.setSemaphore E.semaphore ⟨0, waiters ++ [⟨w.stores.deferreds.size⟩]⟩) := by
      have hsame : w.makeDeferred.2.semaphore? E.semaphore = some ⟨0, waiters⟩ := hrow'
      simp only [World.requestPermit, htry, World.joinLine, hsame]
      rfl
    have hrecord : b.record f (.thunk (.perform (.requestPermit E.semaphore))) w =
        (b.hold { fiber := f, semaphore := E.semaphore, latch? := some ⟨w.stores.deferreds.size⟩ }).write E.semaphore
          [.queued f ⟨w.stores.deferreds.size⟩] := by
      simp only [Books.record, htry, Bool.false_eq_true, if_false]
    rw [hrequest] at hoccurs ⊢
    rw [hrecord]
    exact h.join hf hat hrow' rfl hoccurs

/-! ## The ticket serves its purpose -/

/-- A permit is kept. -/
theorem keep (h : Orderly σ b ⟨⟨w, .running f (left + 1) s⟩, kept⟩) (hf : σ f = some E)
    (hat : E.At f b ⟨w, .running f (left + 1) s⟩ (.holding t) [] p)
    (hdone : ∀ l ∈ t, b.delivered E.semaphore l)
    (hoccurs : Scene.Occurs ⟨⟨w, .running f left
      ⟨E.base, .eval (Effect.unitValue.andThen (.resume (.value .null))).uninterruptible⟩⟩, kept⟩) :
    Advance σ b ⟨⟨w, .running f (left + 1) s⟩, kept⟩ σ ((b.drop f).write E.semaphore [.kept f])
      ⟨⟨w, .running f left ⟨E.base, .eval (Effect.unitValue.andThen (.resume (.value .null))).uninterruptible⟩⟩,
        kept⟩ := by
  obtain ⟨row, hrow⟩ := Option.isSome_iff_exists.1 hat.there
  have hadds : b.Adds f E.semaphore [.kept f] ((b.drop f).write E.semaphore [.kept f]) :=
    Books.adds_drop (Books.mine_singleton rfl)
  have htrades := h.calm.trades_refl hrow (hadds.latches.trans (List.append_nil _))
  have hstep : Semaphore.Step (b.of E.semaphore) row [.kept f] row := Or.inr (.keep f row)
  have hclaim : b.claim? f = some { fiber := f, semaphore := E.semaphore, latch? := t } := hat.claim
  have hticketed := h.books.drop (e := .kept f) hclaim rfl (List.countP_nil (p := Booking.isSettled)) rfl
  have hgone : ∀ l, t = some l → l ∉ row.waiters := fun l hl hmem => by
    obtain ⟨made, hdealt⟩ := h.books.dealt _ _ hrow
    have hleft : l ∈ Semaphore.left (b.of E.semaphore) := List.mem_filterMap.2 ⟨.delivered l, hdone l hl, rfl⟩
    exact (hdealt.line.mem_iff.1 hmem).2 hleft
  have hbooks := h.books.trade hadds htrades hrow hstep hticketed (List.forall_mem_nil _)
    (Books.owned_drop h.books hclaim hrow (List.Subset.refl _) hgone) (Books.rest_drop hclaim)
  refine h.trade rfl hoccurs hadds htrades hrow hstep hbooks (fun hnone => absurd hnone (engaged_ne hf)) ?_ ?_
  · exact h.bystand rfl rfl hadds htrades hrow hstep (fun _ => rfl) fun _ _ _ _ _ => ⟨rfl, List.not_mem_nil⟩
  · intro G hG
    cases hf.symm.trans hG
    exact ⟨.settled t .kept, [], _, hat.deal hadds htrades (fun _ => rfl)
      (.closing (.kept fun l hl => hadds.delivered (hdone l hl))) (h.books.claim?_drop_self hclaim)
      (by simp [Ask.bookings, Ask.verdict, Booking.fiber?]) nofun⟩

/-- A cleanup begins. -/
theorem beginUndo (h : Orderly σ b ⟨⟨w, .running f (left + 1) s⟩, kept⟩) (hf : σ f = some E)
    (hat : E.At f b ⟨w, .running f (left + 1) s⟩ (.holding t) [] p) (hheeds : E.heeds p = true)
    (hoccurs : Scene.Occurs ⟨⟨w, .running f left
      ⟨E.base, .eval ((E.undo t).andThen (.resume .interrupted)).uninterruptible⟩⟩, kept⟩) :
    Advance σ b ⟨⟨w, .running f (left + 1) s⟩, kept⟩ σ (b.beginUndo f)
      ⟨⟨w, .running f left ⟨E.base, .eval ((E.undo t).andThen (.resume .interrupted)).uninterruptible⟩⟩, kept⟩ := by
  obtain ⟨row, hrow⟩ := Option.isSome_iff_exists.1 hat.there
  have hadds : b.Adds f E.semaphore [] (b.beginUndo f) := Books.adds_beginUndo
  have htrades := h.calm.trades_refl hrow (hadds.latches.trans (List.append_nil _))
  have hstep : Semaphore.Step (b.of E.semaphore) row [] row := Or.inl ⟨rfl, rfl⟩
  have hclaim : b.claim? f = some { fiber := f, semaphore := E.semaphore, latch? := t } := hat.claim
  have hstill : ∀ c ∈ b.claims, ∃ c' ∈ (b.beginUndo f).claims, c'.semaphore = c.semaphore ∧ c'.latch? = c.latch? := by
    intro c hc
    refine ⟨_, List.mem_map_of_mem hc, ?_⟩
    split <;> exact ⟨rfl, rfl⟩
  have howned : ∀ l ∈ row.waiters, ∃ c ∈ (b.beginUndo f).claims, c.semaphore = E.semaphore ∧ c.latch? = some l := by
    intro l hl
    obtain ⟨c, hc, hsemaphore, hlatch⟩ := h.books.owned _ _ hrow l hl
    obtain ⟨c', hc', hsame, hlatch'⟩ := hstill c hc
    exact ⟨c', hc', hsame.trans hsemaphore, hlatch'.trans hlatch⟩
  have hbooks := h.books.trade hadds htrades hrow hstep h.books.beginUndo (List.forall_mem_nil _) howned
    fun c hc _ => hstill c hc
  refine h.trade rfl hoccurs hadds htrades hrow hstep hbooks (fun hnone => absurd hnone (engaged_ne hf)) ?_ ?_
  · exact h.bystand rfl rfl hadds htrades hrow hstep (fun _ => rfl) fun _ _ _ _ _ => ⟨rfl, List.not_mem_nil⟩
  · intro G hG
    cases hf.symm.trans hG
    refine ⟨.undoing t, [], _, hat.deal hadds htrades (fun _ => rfl) (.closing (.undo t hheeds)) ?_
      (List.append_nil _).symm fun l hl => (hat.latched l hl).carry hadds htrades hrow hstep rfl List.not_mem_nil⟩
    rw [Books.claim?_beginUndo, hclaim, Option.map_some, if_pos rfl]
    rfl

/-- An interrupted fiber puts its permit back. -/
theorem undo (h : Orderly σ b ⟨⟨w, .running f (left + 1) s⟩, kept⟩) (hf : σ f = some E)
    (hat : E.At f b ⟨w, .running f (left + 1) s⟩ (.undoing t) [] p)
    (hdone : ∀ l ∈ t, b.delivered E.semaphore l)
    (hstands : ∀ done, (∀ l ∈ t, done l) → E.Stands (E.heeds p) done (.settled t .undone) s')
    (hoccurs : Scene.Occurs ⟨⟨w.releasePermit E.semaphore, .running f left s'⟩, kept⟩) :
    Advance σ b ⟨⟨w, .running f (left + 1) s⟩, kept⟩ σ ((b.drop f).putBack E.semaphore (.undone f) w)
      ⟨⟨w.releasePermit E.semaphore, .running f left s'⟩, kept⟩ := by
  obtain ⟨row, hrow⟩ := Option.isSome_iff_exists.1 hat.there
  have hclaim : b.claim? f = some { fiber := f, semaphore := E.semaphore, latch? := t, undoing := true } := hat.claim
  have hgone : ∀ l, t = some l → l ∉ row.waiters := fun l hl hmem => by
    obtain ⟨made, hdealt⟩ := h.books.dealt _ _ hrow
    have hleft : l ∈ Semaphore.left (b.of E.semaphore) := List.mem_filterMap.2 ⟨.delivered l, hdone l hl, rfl⟩
    exact (hdealt.line.mem_iff.1 hmem).2 hleft
  have hmine : ∀ c ∈ b.claims, c.fiber = f → ∀ l, c.latch? = some l → l ∉ row.waiters := by
    rintro c hc rfl l hl
    have hlatch := congrArg Claim.latch? (Option.some.inj ((h.books.claim?_of_mem hc).symm.trans hclaim))
    exact hgone l (hlatch.symm.trans hl)
  have hadds : b.Adds f E.semaphore (.undone f :: (w.nextInLine? E.semaphore).toList.map .delivered)
      ((b.drop f).putBack E.semaphore (.undone f) w) := Books.adds_drop (Books.mine_putBack rfl _)
  obtain ⟨row', hback⟩ := h.putBack (.running f left s') rfl rfl hrow rfl rfl hadds hmine
  have hticketed := h.books.drop (e := .undone f) hclaim rfl
    (Books.countP_delivered (P := Booking.isSettled) (fun _ => rfl) (w.nextInLine? E.semaphore))
    (Books.countP_delivered (P := Booking.isTicket) (fun _ => rfl) (w.nextInLine? E.semaphore))
  have hbooks := h.books.trade hadds hback.trades hrow hback.step hticketed
    (fun l hl => absurd hl (Semaphore.joined_delivered (w.nextInLine? E.semaphore) ▸ List.not_mem_nil))
    (Books.owned_drop h.books hclaim hrow hback.waiters fun l hl hmem => hgone l hl (hback.waiters hmem))
    (Books.rest_drop hclaim)
  refine h.trade rfl hoccurs hadds hback.trades hrow hback.step hbooks (fun hnone => absurd hnone (engaged_ne hf))
    hback.others ?_
  intro G hG
  cases hf.symm.trans hG
  refine ⟨.settled t .undone, [], _, hat.deal hadds hback.trades hback.view
    (hstands _ fun l hl => hadds.delivered (hdone l hl)) (h.books.claim?_drop_self hclaim) ?_ nofun⟩
  have hnone : ((w.nextInLine? E.semaphore).toList.map Booking.delivered).filter (·.fiber? = some f) = [] := by
    cases w.nextInLine? E.semaphore <;> simp [Booking.fiber?]
  rw [List.filter_cons_of_pos (by simp [Booking.fiber?]), hnone]
  rfl

/-- An interrupted fiber gives up its place in line. -/
theorem giveUp (h : Orderly σ b ⟨⟨w, .running f (left + 1) s⟩, kept⟩) (hf : σ f = some E)
    (hat : E.At f b ⟨w, .running f (left + 1) s⟩ (.undoing (some l)) [] p) (hheeds : E.heeds p = true)
    (hrow : w.semaphore? E.semaphore = some row) (hl : l ∈ row.waiters)
    (hoccurs : Scene.Occurs ⟨⟨w.setSemaphore E.semaphore { row with waiters := row.waiters.erase l },
      .running f left ⟨E.closing .interrupted, .value .null⟩⟩, kept⟩) :
    Advance σ b ⟨⟨w, .running f (left + 1) s⟩, kept⟩ σ ((b.drop f).write E.semaphore [.abandoned f l])
      ⟨⟨w.setSemaphore E.semaphore { row with waiters := row.waiters.erase l },
        .running f left ⟨E.closing .interrupted, .value .null⟩⟩, kept⟩ := by
  have hclaim : b.claim? f = some { fiber := f, semaphore := E.semaphore, latch? := some l, undoing := true } :=
    hat.claim
  have hadds : b.Adds f E.semaphore [.abandoned f l] ((b.drop f).write E.semaphore [.abandoned f l]) :=
    Books.adds_drop (Books.mine_singleton rfl)
  have htrades := h.calm.trades_setSemaphore hrow { row with waiters := row.waiters.erase l }
    (hadds.latches.trans (List.append_nil _))
  have hqueued : .queued f l ∈ b.of E.semaphore := hat.mem_of (List.mem_singleton_self _)
  have hstep : Semaphore.Step (b.of E.semaphore) row [.abandoned f l] { row with waiters := row.waiters.erase l } :=
    Or.inr (.giveUp hqueued hl row.permits)
  obtain ⟨made, hdealt⟩ := h.books.dealt _ _ hrow
  have hticketed := h.books.drop (e := .abandoned f l) hclaim rfl (List.countP_nil (p := Booking.isSettled)) rfl
  have hbooks := h.books.trade hadds htrades hrow hstep hticketed (List.forall_mem_nil _)
    (Books.owned_drop h.books hclaim hrow (fun _ hl' => List.mem_of_mem_erase hl') fun l' hl' hmem => by
      cases hl'
      exact hdealt.line.line_nodup.not_mem_erase hmem)
    (Books.rest_drop hclaim)
  refine h.trade rfl hoccurs hadds htrades hrow hstep hbooks (fun hnone => absurd hnone (engaged_ne hf)) ?_ ?_
  · refine h.bystand rfl rfl hadds htrades hrow hstep (fun _ => rfl) fun c hc hne l' hl' => ⟨rfl, fun hmem => ?_⟩
    cases List.mem_singleton.1 hmem
    exact hne (congrArg Claim.fiber (h.books.unique hc (List.mem_of_find?_eq_some hclaim) hl' rfl))
  · intro G hG
    cases hf.symm.trans hG
    exact ⟨.settled (some l) .abandoned, [], _, hat.deal hadds htrades (fun _ => rfl)
      (.cleaned rfl fun _ => hheeds)
      (h.books.claim?_drop_self hclaim) (by simp [Ask.bookings, Ask.verdict, Booking.fiber?]) nofun⟩

/-! ## The acquire is over -/

theorem endAcquire (h : Orderly σ b ⟨⟨w, .running f (left + 1) s⟩, kept⟩) (hf : σ f = some E)
    (hat : E.At f b ⟨w, .running f (left + 1) s⟩ (.settled t v) [] p)
    (hlawful : Lawful (b.delivered E.semaphore) t v)
    (hoccurs : Scene.Occurs ⟨⟨w, .running f left ⟨E.base, .ofExit v.exit⟩⟩, kept⟩) :
    Advance σ b ⟨⟨w, .running f (left + 1) s⟩, kept⟩ (σ.set f none) b
      ⟨⟨w, .running f left ⟨E.base, .ofExit v.exit⟩⟩, kept⟩ := by
  have hother (g : FiberId) (hg : g ≠ f) : σ.set f none g = σ g := Engagements.set_of_ne hg
  have hengaged : ∀ g, σ g = none → σ.set f none g = none ∨ w.listens g = false := fun g hg => Or.inl <| by
    by_cases hgf : g = f
    · rw [hgf]
      exact Engagements.set_self
    · exact (hother g hgf).trans hg
  have hfree : ∀ g, σ.set f none g = none → σ g = none ∨ w.Bare g := fun g hg => by
    by_cases hgf : g = f
    · exact Or.inr (hgf ▸ ⟨fun r hr => h.not_listens hr, (hat.fits_self rfl).held.of_running.2⟩)
    · exact Or.inl ((hother g hgf).symm.trans hg)
  have hmore (g : FiberId) (G : Engagement) (hG : σ.set f none g = some G) : g ≠ f ∧ σ g = some G := by
    have hgf : g ≠ f := by
      rintro rfl
      cases Engagements.set_self.symm.trans hG
    exact ⟨hgf, (hother g hgf).symm.trans hG⟩
  have hthere : ∀ g, σ.set f none g ≠ none → (w.fiber? g).isSome = true := fun g hg => by
    obtain ⟨G, hG⟩ := Option.ne_none_iff_exists'.1 hg
    exact h.calm.there (engaged_ne (hmore g G hG).2)
  have hconfined : w.Confined (w.scope (σ.set f none) b) :=
    h.confined.rescope (.refl w) h.quiet (Nat.le_refl _) (Nat.le_refl _) (fun _ hl => Or.inl hl) (fun _ hl => hl)
      (fun _ _ hx hle => absurd hle (World.absent_of_size_le hx)) hengaged hfree hthere
  have hgrows : (w.scope σ b).Grows (w.scope (σ.set f none) b) :=
    World.scope_grows (.refl w) (Nat.le_refl _) (Nat.le_refl _) (fun _ hl => Or.inl hl) hengaged
  refine ⟨?_, fun _ row hrow => ⟨[], row, hrow, (List.append_nil _).symm, Or.inl ⟨rfl, rfl⟩⟩, fun _ _ => rfl,
    fun g G hg hG => ?_, fun g G hG => ?_⟩
  · exact {
      occurs := hoccurs
      confined := hconfined
      activity := fun _ => ⟨fun d hd => hgrows.mentions d (h.base f E hf d hd), by cases v <;> exact Scope.nothing⟩
      kept := fun e he d hd => hgrows.mentions d (h.kept e he d hd)
      books := { h.books with
        engaged := fun c hc => by
          have hne : c.fiber ≠ f := by
            rintro rfl
            cases (h.books.claim?_of_mem hc).symm.trans hat.claim
          rw [hother _ hne]
          exact h.books.engaged c hc }
      base := fun g G hG d hd => hgrows.mentions d (h.base g G (hmore g G hG).2 d hd)
      engaged := fun g G hG => by
        obtain ⟨hgf, hG'⟩ := hmore g G hG
        obtain ⟨ask, ws, q, hat'⟩ := h.engaged g G hG'
        obtain ⟨q', hq'⟩ := hat'.mind hG' (h.calm.refl (X := fun _ => False)) not_false
          ((of_other (a := .running f left _) rfl hgf).trans (of_other (a := .running f (left + 1) s) rfl hgf).symm)
        exact ⟨ask, ws, q', hq'⟩ }
  · obtain ⟨-, hsome⟩ := hmore g G hG
    cases hg.symm.trans hsome
  · by_cases hgf : g = f
    · subst hgf
      cases hf.symm.trans hG
      exact Or.inr ⟨Engagements.set_self, rfl, left, t, v, rfl, hlawful, hat.booked⟩
    · exact Or.inl ((hother g hgf).trans hG)

/-! ## All steps -/

/-- An interrupted fiber gives back what it has, or its place in line. -/
theorem abandon (h : Orderly σ b ⟨⟨w, .running f (left + 1) s⟩, kept⟩) (hf : σ f = some E)
    (hat : E.At f b ⟨w, .running f (left + 1) s⟩ (.undoing (some l)) [] p) (hheeds : E.heeds p = true)
    (hoccurs : Scene.Occurs ⟨⟨w.abandonPermit E.semaphore l, .running f left ⟨E.closing .interrupted, .value .null⟩⟩,
      kept⟩) :
    Advance σ b ⟨⟨w, .running f (left + 1) s⟩, kept⟩ σ
      (b.record f (.thunk (.perform (.abandonPermit E.semaphore l))) w)
      ⟨⟨w.abandonPermit E.semaphore l, .running f left ⟨E.closing .interrupted, .value .null⟩⟩, kept⟩ := by
  obtain ⟨row, hrow⟩ := Option.isSome_iff_exists.1 hat.there
  have hrow' : w.semaphore? E.semaphore = some row := hrow
  rcases hat.latched l rfl with ⟨hdelivered, hdone⟩ | ⟨row₀, key, hrow₀, hmem, hpending⟩
  · obtain ⟨made, hdealt⟩ := h.books.dealt _ _ hrow
    have hleft : l ∈ Semaphore.left (b.of E.semaphore) := List.mem_filterMap.2 ⟨.delivered l, hdelivered, rfl⟩
    have hgone : l ∉ row.waiters := fun hmem => (hdealt.line.mem_iff.1 hmem).2 hleft
    have hdone' : w.deferred? l = some (.done (.value .null)) := hdone
    have hpoll : (w.pollDeferred l).isSome = true := by
      rw [World.pollDeferred, hdone']
      rfl
    have hworld : w.abandonPermit E.semaphore l = w.releasePermit E.semaphore := by
      simp only [World.abandonPermit, hrow', if_neg hgone, hpoll, if_true]
    have hrecord : b.record f (.thunk (.perform (.abandonPermit E.semaphore l))) w =
        (b.drop f).putBack E.semaphore (.undone f) w := by
      simp only [Books.record, hrow', Option.any_some, decide_eq_true_eq, if_neg hgone, hpoll, if_true]
    rw [hworld] at hoccurs ⊢
    rw [hrecord]
    exact h.undo hf hat (fun l' hl' => by cases hl'; exact hdelivered)
      (fun _ hdone => .cleaned (v := .undone) hdone fun _ => hheeds) hoccurs
  · cases hrow'.symm.trans hrow₀
    have hworld : w.abandonPermit E.semaphore l =
        w.setSemaphore E.semaphore { row with waiters := row.waiters.erase l } := by
      simp only [World.abandonPermit, hrow', if_pos hmem]
    have hrecord : b.record f (.thunk (.perform (.abandonPermit E.semaphore l))) w =
        (b.drop f).write E.semaphore [.abandoned f l] := by
      simp only [Books.record, hrow', Option.any_some, decide_eq_true_eq, if_pos hmem]
    rw [hworld] at hoccurs ⊢
    rw [hrecord]
    exact h.giveUp hf hat hheeds hrow' hmem hoccurs

/-- **A step of a fiber in an acquire.** -/
theorem serve (h : Orderly σ b ⟨⟨w, .running f (left + 1) s⟩, kept⟩) (hf : σ f = some E)
    (hoccurs : Scene.Occurs ⟨w.act f left s, kept⟩) :
    ∃ σ', Advance σ b ⟨⟨w, .running f (left + 1) s⟩, kept⟩ σ'
      (Scene.book ⟨⟨w, .running f (left + 1) s⟩, kept⟩ .next b) ⟨w.act f left s, kept⟩ := by
  obtain ⟨ask, ws, p, hat⟩ := h.engaged f E hf
  obtain ⟨rfl, hstands⟩ := hat.stands
  have hasked : (E.asked).masks.isInterruptible = false := Masks.isInterruptible_push_uninterruptible _
  have hclosing : (E.closing .interrupted).masks.isInterruptible = false :=
    Masks.isInterruptible_push_uninterruptible _
  unfold World.act at hoccurs ⊢
  unfold Scene.book
  dsimp only
  cases hstands.next with
  | move hdeed hs =>
    rw [hdeed] at hoccurs ⊢
    exact ⟨σ, (h.goOn hf hat hs hoccurs).advance⟩
  | leave hask hlawful hdeed =>
    subst hask
    rw [hdeed] at hoccurs ⊢
    exact ⟨_, h.endAcquire hf hat hlawful hoccurs⟩
  | @call c run next hdeed hact hrecord hcut hs =>
    rw [hdeed] at hoccurs ⊢
    dsimp only at hoccurs ⊢
    by_cases hcuts : w.cuts f c run = true
    · obtain ⟨hyields, hpending⟩ := Bool.and_eq_true_iff.1 hcuts
      obtain ⟨hopen, hrequested⟩ := (hat.fits_self rfl).requested_of_pending hpending
      rw [if_pos hcuts] at hoccurs ⊢
      rw [if_pos hcuts]
      obtain ⟨hbase, hstands⟩ := hcut hyields hopen
      exact ⟨σ, (h.goOn hf hat (hstands (heeds_of hrequested hbase)) hoccurs).advance⟩
    · have hcalled : w.called c run = (⟨run, next⟩, w) := by
        rw [World.called, hact]
        rfl
      rw [if_neg hcuts, hcalled] at hoccurs ⊢
      rw [if_neg hcuts, hrecord]
      exact ⟨σ, (h.goOn hf hat hs hoccurs).advance⟩
  | request hask hdeed =>
    subst hask
    rw [hdeed] at hoccurs ⊢
    dsimp only at hoccurs ⊢
    rw [World.cuts_of_masked hasked, if_neg Bool.false_ne_true] at hoccurs ⊢
    rw [if_neg Bool.false_ne_true]
    exact ⟨σ, h.request hf hat hoccurs⟩
  | @wait l hask hrun hdeed =>
    subst hask
    rw [hdeed] at hoccurs ⊢
    dsimp only at hoccurs ⊢
    by_cases hpending : w.interruptPending f s.run.masks = true
    · obtain ⟨hopen, hrequested⟩ := (hat.fits_self rfl).requested_of_pending hpending
      rw [hrun] at hopen
      rw [if_pos hpending] at hoccurs ⊢
      have hends : E.Stands (E.heeds p) (b.delivered E.semaphore) (.holding (some l)) ⟨s.run, .cause .interrupted⟩ := by
        rw [hrun]
        exact .ended (.interrupted (heeds_of hrequested hopen))
      exact ⟨σ, (h.goOn hf hat hends hoccurs).advance⟩
    · rw [if_neg hpending] at hoccurs ⊢
      exact ⟨σ, (h.await hf hat hrun hdeed hoccurs).advance⟩
  | @tell t x hask hends hdeed =>
    subst hask
    rw [hdeed] at hoccurs ⊢
    dsimp only at hoccurs ⊢
    have hcuts : w.cuts f (.bind (.releaseResource .cleanup (E.ticket t)) (.exit x)) E.base = false := rfl
    have hclaim : b.claim? f = some { fiber := f, semaphore := E.semaphore, latch? := t } := hat.claim
    rw [hcuts, if_neg Bool.false_ne_true] at hoccurs ⊢
    rw [if_neg Bool.false_ne_true]
    cases hends with
    | value hdone =>
      have hrecord : b.record f (.bind (.releaseResource .cleanup (E.ticket t)) (.exit (.value .null))) w =
          (b.drop f).write E.semaphore [.kept f] := by
        simp only [Books.record, hclaim]
        rfl
      rw [hrecord]
      exact ⟨σ, h.keep hf hat hdone hoccurs⟩
    | interrupted hheeds =>
      have hrecord : b.record f (.bind (.releaseResource .cleanup (E.ticket t)) (.exit .interrupted)) w =
          b.beginUndo f := by
        simp only [Books.record, hclaim]
        rfl
      rw [hrecord]
      exact ⟨σ, h.beginUndo hf hat hheeds hoccurs⟩
  | release hask hheeds hdeed =>
    subst hask
    have hmasked : ((E.closing .interrupted).enter .uninterruptible).masks.isInterruptible = false :=
      Masks.isInterruptible_push_uninterruptible _
    have hclaim : b.claim? f = some { fiber := f, semaphore := E.semaphore, latch? := none, undoing := true } :=
      hat.claim
    have hrecord : b.record f (.thunk (.perform (.releasePermit E.semaphore))) w =
        (b.drop f).putBack E.semaphore (.undone f) w := by
      simp only [Books.record, hclaim, Option.any_some, if_true]
    rw [hdeed] at hoccurs ⊢
    dsimp only at hoccurs ⊢
    rw [World.cuts_of_masked hmasked, if_neg Bool.false_ne_true] at hoccurs ⊢
    rw [if_neg Bool.false_ne_true, hrecord]
    have hdone (l : DeferredId) (hl : l ∈ (none : Option DeferredId)) : b.delivered E.semaphore l := by cases hl
    exact ⟨σ, h.undo hf hat hdone (fun _ _ => .released hheeds) hoccurs⟩
  | @giveUp l hask hheeds hdeed =>
    subst hask
    rw [hdeed] at hoccurs ⊢
    dsimp only at hoccurs ⊢
    rw [World.cuts_of_masked hclosing, if_neg Bool.false_ne_true] at hoccurs ⊢
    rw [if_neg Bool.false_ne_true]
    exact ⟨σ, h.abandon hf hat hheeds hoccurs⟩

end Orderly

end FiberLoop
