import FiberLoop.Proofs.Permits.Exchange

/-!
# Permits for fibers in no acquire

A fiber in no acquire may try for a permit, release one, or begin an acquire. With its other steps this makes
`Orderly.free`: whatever the fiber does next, the order is kept.
-/

namespace FiberLoop

open Engagement

variable {σ : Engagements} {b : Books} {w : World} {a : Activity} {kept : List Effect} {f : FiberId} {left : Nat}
  {s : Stand} {run : Run} {sem : SemaphoreId}

/-- Those to whom a permit goes count for nothing that a delivery does not count for. -/
theorem Books.countP_delivered {P : Booking → Bool} (h : ∀ l, P (.delivered l) = false) (next : Option DeferredId) :
    (next.toList.map Booking.delivered).countP P = 0 := by
  cases next with
  | none => rfl
  | some l => simp [h]

theorem Semaphore.joined_delivered (next : Option DeferredId) :
    Semaphore.joined (next.toList.map Booking.delivered) = [] := by
  cases next <;> rfl

/-- A closure that deals with permits tries for one or releases one. -/
theorem Call.eq_of_deals {c : Call} (h : c.deals = true) :
    ∃ sem, c = .thunk (.perform (.tryAcquire sem)) ∨ c = .thunk (.perform (.releasePermit sem)) := by
  cases c with
  | thunk t =>
    cases t with
    | perform o =>
      cases o with
      | tryAcquire sem => exact ⟨sem, Or.inl rfl⟩
      | releasePermit sem => exact ⟨sem, Or.inr rfl⟩
      | _ => cases h
    | _ => cases h
  | _ => cases h

namespace Orderly

/-! ## Trying and releasing -/

theorem tryAcquire (h : Orderly σ b ⟨⟨w, .running f (left + 1) s⟩, kept⟩) (hf : σ f = none)
    (hdeed : s.deed = .call (.thunk (.perform (.tryAcquire sem))) run)
    (hoccurs : Scene.Occurs ⟨⟨(w.called (.thunk (.perform (.tryAcquire sem))) run).2,
      .running f left (w.called (.thunk (.perform (.tryAcquire sem))) run).1⟩, kept⟩) :
    Advance σ b ⟨⟨w, .running f (left + 1) s⟩, kept⟩ σ (b.record f (.thunk (.perform (.tryAcquire sem))) w)
      ⟨⟨(w.called (.thunk (.perform (.tryAcquire sem))) run).2,
        .running f left (w.called (.thunk (.perform (.tryAcquire sem))) run).1⟩, kept⟩ := by
  obtain ⟨hrun, hnext⟩ := h.activity hf
  obtain ⟨hin, hrest⟩ := Stand.in_of_call hrun hnext hdeed
  have hsize : sem.index < w.stores.semaphores.size := hin (.semaphore sem) (List.mem_singleton.2 rfl)
  obtain ⟨row, hrow⟩ := Option.isSome_iff_exists.1 ((Table.isSome_get?_iff _ _).2 hsize)
  have hcalled : w.called (.thunk (.perform (.tryAcquire sem))) run =
      (⟨run, .value (.bool (w.tryAcquire sem).1)⟩, (w.tryAcquire sem).2) := rfl
  have hrecord : b.record f (.thunk (.perform (.tryAcquire sem))) w =
      if (w.tryAcquire sem).1 then b.write sem [.tried f] else b := rfl
  rw [hcalled] at hoccurs ⊢
  rw [hrecord]
  by_cases hfree : 0 < row.permits ∧ row.waiters = []
  · obtain ⟨permits, waiters⟩ := row
    obtain ⟨hpositive, rfl⟩ := hfree
    obtain ⟨p, rfl⟩ : ∃ p, permits = p + 1 := ⟨permits - 1, (Nat.sub_add_cancel hpositive).symm⟩
    rw [World.tryAcquire_of_free hrow] at hoccurs ⊢
    have hadds : b.Adds f sem [.tried f] (b.write sem [.tried f]) :=
      Books.adds_write (Books.mine_singleton rfl)
    have htrades := h.calm.trades_setSemaphore hrow ⟨p, []⟩ (hadds.latches.trans (List.append_nil _))
    have hstep : Semaphore.Step (b.of sem) ⟨p + 1, []⟩ [.tried f] ⟨p, []⟩ := Or.inr (.take rfl p)
    have hbooks := h.books.trade hadds htrades hrow hstep (h.books.write rfl rfl) (List.forall_mem_nil _)
      (List.forall_mem_nil _) fun c hc _ => ⟨c, hc, rfl, rfl⟩
    refine h.trade rfl hoccurs hadds htrades hrow hstep hbooks (fun _ _ => ⟨?_, Scope.nothing⟩) ?_ fun E hE => ?_
    · exact fun d hd => htrades.grows.mentions d (hrest d hd)
    · exact h.bystand rfl rfl hadds htrades hrow hstep (fun _ => rfl) fun _ _ _ _ _ => ⟨rfl, List.not_mem_nil⟩
    · cases hf.symm.trans hE
  · rw [World.tryAcquire_of_taken hrow hfree] at hoccurs ⊢
    exact (h.stand hf hoccurs hrest Scope.nothing).advance

theorem releasePermit (h : Orderly σ b ⟨⟨w, .running f (left + 1) s⟩, kept⟩) (hf : σ f = none)
    (hdeed : s.deed = .call (.thunk (.perform (.releasePermit sem))) run)
    (hoccurs : Scene.Occurs ⟨⟨w.releasePermit sem, .running f left ⟨run, .value .null⟩⟩, kept⟩) :
    Advance σ b ⟨⟨w, .running f (left + 1) s⟩, kept⟩ σ (b.record f (.thunk (.perform (.releasePermit sem))) w)
      ⟨⟨w.releasePermit sem, .running f left ⟨run, .value .null⟩⟩, kept⟩ := by
  obtain ⟨hrun, hnext⟩ := h.activity hf
  obtain ⟨hin, hrest⟩ := Stand.in_of_call hrun hnext hdeed
  have hsize : sem.index < w.stores.semaphores.size := hin (.semaphore sem) (List.mem_singleton.2 rfl)
  obtain ⟨row, hrow⟩ := Option.isSome_iff_exists.1 ((Table.isSome_get?_iff _ _).2 hsize)
  have hclaim := h.books.claim?_of_free hf
  have hrecord : b.record f (.thunk (.perform (.releasePermit sem))) w = b.putBack sem (.returned f) w := by
    simp only [Books.record, hclaim, Option.any_none, Bool.false_eq_true, if_false]
  have hadds : b.Adds f sem (.returned f :: (w.nextInLine? sem).toList.map .delivered)
      (b.putBack sem (.returned f) w) := Books.adds_write (Books.mine_putBack rfl _)
  have hmine : ∀ c ∈ b.claims, c.fiber = f → ∀ l, c.latch? = some l → l ∉ row.waiters := fun c hc he =>
    absurd (he ▸ hf) (h.books.engaged c hc)
  obtain ⟨row', hback⟩ := h.putBack (.running f left ⟨run, .value .null⟩) rfl rfl hrow rfl rfl hadds hmine
  have hbooks : (b.putBack sem (.returned f) w).Kept σ (w.releasePermit sem) := by
    refine h.books.trade hadds hback.trades hrow hback.step (h.books.write ?_ ?_) ?_ (fun l hl => ?_)
      fun c hc _ => ⟨c, hc, rfl, rfl⟩
    · exact Books.countP_delivered (fun _ => rfl) _
    · exact Books.countP_delivered (fun _ => rfl) _
    · exact fun l hl => absurd hl (Semaphore.joined_delivered (w.nextInLine? sem) ▸ List.not_mem_nil)
    · exact h.books.owned sem row hrow l (hback.waiters hl)
  rw [hrecord]
  refine h.trade rfl hoccurs hadds hback.trades hrow hback.step hbooks (fun _ _ => ⟨?_, Scope.nothing⟩)
    hback.others fun E hE => ?_
  · exact fun d hd => hback.trades.grows.mentions d (hrest d hd)
  · cases hf.symm.trans hE

end Orderly

/-! ## An acquire begins -/

/-- Say of one fiber which acquire it is in, if any. -/
def Engagements.set (f : FiberId) (engagement : Option Engagement) (σ : Engagements) : Engagements :=
  fun g => if g = f then engagement else σ g

section Set

variable {engagement : Option Engagement} {g : FiberId}

theorem Engagements.set_self : σ.set f engagement f = engagement := if_pos rfl

theorem Engagements.set_of_ne (h : g ≠ f) : σ.set f engagement g = σ g := if_neg h

end Set

/-- A fiber that runs is shown at another stand. -/
theorem Fits.stand {p : Place} (h : Fits f (w.view f (.running f left s)) p) (left' : Nat) (s' : Stand) :
    Fits f (w.view f (.running f left' s')) (p.moveTo (.ready s')) := by
  obtain ⟨home, hrecord⟩ := h.record
  obtain ⟨hstanding, hnil⟩ := h.held.of_running
  refine ⟨⟨home, hrecord.trans ?_⟩, ?_⟩
  · rw [Place.record_of_alive (Place.alive_of_standing hstanding rfl), Place.record_of_alive rfl, hstanding]
    rfl
  · rw [show (w.view f (.running f left' s')).tokens = [] from hnil]
    exact .running s' left'

namespace Orderly

/-- A fiber that runs waits for nothing. -/
theorem listens_eq (h : Orderly σ b ⟨⟨w, .running f left s⟩, kept⟩) : w.listens f = false := by
  rw [World.listens, World.phase?]
  cases hr : w.fiber? f with
  | none => rfl
  | some r =>
    rw [Option.map_some, Option.any_some, h.not_listens hr]
    rfl

theorem beginAcquire (h : Orderly σ b ⟨⟨w, .running f (left + 1) s⟩, kept⟩) (hf : σ f = none) (hbegins : s.Begins sem)
    {E : Engagement} (hE : E = ⟨s.run, sem, b.entries.length⟩)
    (hoccurs : Scene.Occurs ⟨⟨w, .running f left ⟨E.outer, .eval (Effect.perform (.requestPermit sem)).uninterruptible⟩⟩,
      kept⟩) :
    Advance σ b ⟨⟨w, .running f (left + 1) s⟩, kept⟩ (σ.set f (some E)) b
      ⟨⟨w, .running f left ⟨E.outer, .eval (Effect.perform (.requestPermit sem)).uninterruptible⟩⟩, kept⟩ := by
  obtain ⟨hrun, hnext⟩ := h.activity hf
  rw [hbegins] at hnext
  have hsize : sem.index < w.stores.semaphores.size := hnext (.semaphore sem) (List.mem_singleton.2 rfl)
  obtain ⟨p, hp⟩ := h.fits rfl
  have hself : σ.set f (some E) f = some E := Engagements.set_self
  have hother (g : FiberId) (hg : g ≠ f) : σ.set f (some E) g = σ g := Engagements.set_of_ne hg
  have hmore (g : FiberId) (hg : σ g ≠ none) : σ.set f (some E) g ≠ none := by
    rw [hother g fun he => hg (he ▸ hf)]
    exact hg
  have hengaged : ∀ g, σ g = none → σ.set f (some E) g = none ∨ w.listens g = false := fun g hg => by
    by_cases hgf : g = f
    · exact Or.inr (hgf ▸ h.listens_eq)
    · exact Or.inl ((hother g hgf).trans hg)
  have hthere : ∀ g, σ.set f (some E) g ≠ none → (w.fiber? g).isSome = true := fun g hg => by
    by_cases hgf : g = f
    · obtain ⟨home, hrecord⟩ := hp.record
      obtain ⟨r, hr, -⟩ := World.fiber?_of_record hrecord
      rw [hgf, hr]
      rfl
    · exact h.calm.there (hother g hgf ▸ hg)
  have hconfined : w.Confined (w.scope (σ.set f (some E)) b) :=
    h.confined.rescope (.refl w) h.quiet (Nat.le_refl _) (Nat.le_refl _) (fun _ hl => Or.inl hl) (fun _ hl => hl)
      (fun _ _ hx hle => absurd hle (World.absent_of_size_le hx)) hengaged
      (fun g hg => Classical.byContradiction fun hne => hmore g (fun hnone => hne (Or.inl hnone)) hg) hthere
  have hgrows : (w.scope σ b).Grows (w.scope (σ.set f (some E)) b) :=
    World.scope_grows (.refl w) (Nat.le_refl _) (Nat.le_refl _) (fun _ hl => Or.inl hl) hengaged
  refine ⟨?_, fun _ row hrow => ⟨[], row, hrow, (List.append_nil _).symm, Or.inl ⟨rfl, rfl⟩⟩, fun _ _ => rfl,
    fun g G hg hG => ?_, fun g G hg => Or.inl ((hother g fun he => nomatch (he ▸ hg).symm.trans hf).trans hg)⟩
  · exact {
      occurs := hoccurs
      confined := hconfined
      activity := Activity.in_of_hidden rfl fun hnone => nomatch hself.symm.trans hnone
      kept := fun e he d hd => hgrows.mentions d (h.kept e he d hd)
      books := { h.books with engaged := fun c hc => hmore _ (h.books.engaged c hc) }
      base := fun g G hG d hd => by
        by_cases hgf : g = f
        · subst hgf
          cases hself.symm.trans hG
          subst hE
          exact hgrows.mentions d (hrun d hd)
        · exact hgrows.mentions d (h.base g G ((hother g hgf).symm.trans hG) d hd)
      engaged := fun g G hG => by
        by_cases hgf : g = f
        · subst hgf
          cases hself.symm.trans hG
          have hstands : E.Stands (E.heeds p) (b.delivered E.semaphore) .asking
              ⟨E.outer, .eval (Effect.perform (.requestPermit sem)).uninterruptible⟩ := by
            subst hE
            exact .asking
          refine ⟨.asking, [], p.moveTo (.ready _), ?_, .ready rfl hstands, h.books.claim?_of_free hf, ?_, ?_, ?_, nofun, nofun,
            Activity.Awaits.of (a := .running g left _) trivial g⟩
          · exact Moment.view_self (a := .running g left _) rfl ▸ hp.stand left _
          · subst hE
            exact Nat.le_refl _
          · subst hE
            rw [Books.since, List.drop_length]
            rfl
          · subst hE
            exact (Table.isSome_get?_iff _ _).2 hsize
        · obtain ⟨ask, ws, q, hat⟩ := h.engaged g G ((hother g hgf).symm.trans hG)
          obtain ⟨q', hq'⟩ := hat.mind ((hother g hgf).symm.trans hG) (h.calm.refl (X := fun _ => False)) not_false
            ((of_other (a := .running f left _) rfl hgf).trans (of_other (a := .running f (left + 1) s) rfl hgf).symm)
          exact ⟨ask, ws, q', hq'⟩ }
  · have hgf : g = f := Classical.byContradiction fun hne => nomatch (((hother g hne).symm.trans hG).symm.trans hg)
    subst hgf
    cases hself.symm.trans hG
    subst hE
    refine ⟨rfl, left, ?_⟩
    rw [← show s.next = .eval (.acquirePermit sem) from hbegins]

/-! ## All steps -/

/-- **A step of a fiber in no acquire.** -/
theorem free (h : Orderly σ b ⟨⟨w, .running f (left + 1) s⟩, kept⟩) (hf : σ f = none)
    (hoccurs : Scene.Occurs ⟨w.act f left s, kept⟩) :
    ∃ σ', Advance σ b ⟨⟨w, .running f (left + 1) s⟩, kept⟩ σ'
      (Scene.book ⟨⟨w, .running f (left + 1) s⟩, kept⟩ .next b) ⟨w.act f left s, kept⟩ := by
  obtain ⟨hrun, hnext⟩ := h.activity hf
  unfold World.act at hoccurs ⊢
  unfold Scene.book
  dsimp only
  cases hdeed : s.deed with
  | move s' =>
    rw [hdeed] at hoccurs
    by_cases hbegins : ∃ sem, s.Begins sem
    · obtain ⟨sem, hbegins⟩ := hbegins
      obtain ⟨run, next⟩ := s
      cases hbegins
      cases hdeed
      exact ⟨_, h.beginAcquire hf rfl rfl hoccurs⟩
    · obtain ⟨hrun', hnext'⟩ :=
        Stand.in_of_move hrun hnext (fun sem hs => absurd ⟨sem, hs⟩ hbegins) (fun _ _ => trivial)
            (fun _ _ _ hthrough => ⟨hthrough, trivial⟩) hdeed
      exact ⟨σ, (h.stand hf hoccurs hrun' hnext').advance⟩
  | call c run =>
    obtain ⟨hc, hrest⟩ := Stand.in_of_call hrun hnext hdeed
    rw [hdeed] at hoccurs
    dsimp only at hoccurs ⊢
    by_cases hcuts : w.cuts f c run = true
    · rw [if_pos hcuts] at hoccurs ⊢
      rw [if_pos hcuts]
      exact ⟨σ, (h.stand hf hoccurs hrest Scope.nothing).advance⟩
    · rw [if_neg hcuts] at hoccurs ⊢
      rw [if_neg hcuts]
      cases hdeals : c.deals with
      | false =>
        rw [h.record_eq hf hc hdeals]
        exact ⟨σ, (h.call hf hdeed hdeals hoccurs).advance⟩
      | true =>
        obtain ⟨sem, rfl | rfl⟩ := Call.eq_of_deals hdeals
        · exact ⟨σ, h.tryAcquire hf hdeed hoccurs⟩
        · exact ⟨σ, h.releasePermit hf hdeed hoccurs⟩
  | register r =>
    rw [hdeed] at hoccurs
    dsimp only at hoccurs ⊢
    by_cases hpending : w.interruptPending f s.run.masks = true
    · rw [if_pos hpending] at hoccurs ⊢
      exact ⟨σ, (h.stand hf hoccurs hrun Scope.nothing).advance⟩
    · rw [if_neg hpending] at hoccurs ⊢
      exact ⟨σ, (h.register hf hdeed hoccurs).advance⟩
  | exit x =>
    rw [hdeed] at hoccurs
    dsimp only at hoccurs ⊢
    have hdone := h.markDone hf x
    have hx := Stand.in_of_exit hnext hdeed
    split
    · rename_i hook hhook
      rw [hhook] at hoccurs
      exact ⟨σ, (h.visible rfl hf hdone hoccurs (Or.inl rfl) fun _ d hd => hdone.grows.mentions d (hx d hd)).advance⟩
    · rename_i hhook
      rw [hhook] at hoccurs
      exact ⟨σ, (h.visible rfl hf hdone hoccurs (Or.inr rfl) trivial).advance⟩

end Orderly

end FiberLoop
