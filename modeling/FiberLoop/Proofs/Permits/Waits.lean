import FiberLoop.Proofs.Interruption
import FiberLoop.Proofs.Permits.Taking

/-!
# Steps inside an acquire

A fiber in an acquire goes from stand to stand, waits for its latch, and cancels the wait if it is interrupted. These
steps are its own: they book nothing and leave the other acquires alone. What it does to the permits is treated
elsewhere.
-/

namespace FiberLoop

open Engagement

namespace World

variable {σ : Engagements} {b : Books} {w : World} {f : FiberId} {c : Claim} {l : DeferredId}

/-! ## What a fiber does for itself -/

theorem Calm.modifyOwn (h : w.Calm σ b) (hf : σ f ≠ none) (change : Fiber → Fiber)
    (hnotice : ∀ r : Fiber, (change r).notice = r.notice) (hle : ∀ r, r.epoch ≤ (change r).epoch)
    (hepoch : ∀ r, w.fiber? f = some r → r.epoch < (change r).epoch ∨
      (change r).epoch = r.epoch ∧ (r.phase.listens = true → (change r).phase.listens = true)) :
    w.Minds σ b (· = f) (w.modifyFiber f change) :=
  h.modify (fun _ _ hg he => hg he.symm) change (fun _ _ hnone => absurd hnone hf)
    (fun r _ hr hrow => h.notice_in hr ((hnotice r).symm.trans hrow)) hle hepoch

theorem Calm.advanceOwn (h : w.Calm σ b) (hf : σ f ≠ none) (phase : Phase) :
    w.Minds σ b (· = f) (w.advanceEpoch f phase) :=
  h.modifyOwn hf _ (fun _ => rfl) (fun r => Nat.le_succ r.epoch) fun r _ => Or.inl (Nat.lt_succ_self r.epoch)

/-- The row of a latch changes that belongs to one fiber. -/
theorem Calm.setLatch (h : w.Calm σ b) (hc : c ∈ b.claims) (hl : c.latch? = some l) (row : Deferred) :
    w.Minds σ b (· = c.fiber) (w.setDeferred l row) := by
  have hin := h.confined.stores
  have hhidden : (w.scope σ b).mentions (.deferred ⟨l.index⟩) → row.In (w.scope σ b) := fun hmentions =>
    absurd hmentions (h.hidden_latch hc hl)
  refine h.within (h.confined.withStores ⟨hin.cells, Table.forall_set hin.deferreds hhidden, hin.queues, hin.races,
    hin.pairings, hin.gates⟩) ⟨[], .one (.quiet (.stores w _))⟩ (fun g _ _ => .of_view fun _ => rfl) (Table.size_set _ _ _) rfl ?_
  intro c' hc' hne l' hl'
  refine deferred?_setDeferred_of_ne ?_
  rintro rfl
  exact hne (congrArg Claim.fiber (h.books.unique hc' hc hl' hl))

/-- The callback of one fiber is completed. -/
theorem Calm.settleOwn (h : w.Calm σ b) (epoch : Nat) : w.Minds σ b (· = f) (w.settle ⟨f, epoch⟩ (.value .null)) := by
  have hstores := stores_settle w ⟨f, epoch⟩ (.value .null)
  refine h.within (h.confined.settle _ Scope.nothing) (.settle w _ _) (fun g _ hg => .of_view fun a => ?_)
    (congrArg (Table.size ∘ Stores.deferreds) hstores) (congrArg Stores.semaphores hstores) fun _ _ _ l _ =>
      congrArg (fun t : Stores => t.deferreds.get? l.index) hstores
  have hne : (Callback.mk f epoch).fiber ≠ g := fun he => hg he.symm
  rw [view, view, record_settle_of_ne hne, tokens_settle_of_ne hne]

end World

namespace Engagement.At

variable {E : Engagement} {σ : Engagements} {b : Books} {w w' : World} {a a' : Activity} {f : FiberId} {ask : Ask}
  {ws ws' : List (Nat × Callback)} {p q : Place} {s : Stand} {left left' : Nat}

/-- What a fiber in an acquire does by itself leaves its ticket alone. -/
theorem step (hat : E.At f b ⟨w, a⟩ ask ws p) (hminds : w.Minds σ b (· = f) w') (ha' : a'.fiber? = some f ∨ a' = .idle)
    (hfits : Fits f (w'.view f a') q) (hacquiring : E.Acquiring f (b.delivered E.semaphore) ask ws' q)
    (hawaits : a'.Awaits ask) (hlatched : ∀ l, ask.latch? = some l → w'.Latched b E.semaphore l ws')
    (hwoken : ∀ l, ask.latch? = some l → b.delivered E.semaphore l → ∀ waiter ∈ ws', waiter.2.epoch < q.epoch) :
    E.At f b ⟨w', a'⟩ ask ws' q where
  fits := by
    rcases ha' with ha' | rfl
    · rwa [Moment.view_self ha']
    · rwa [Moment.view_idle]
  acquiring := hacquiring
  claim := hat.claim
  start := hat.start
  booked := hat.booked
  there := hminds.there hat.there
  latched := hlatched
  woken := hwoken
  awaits := hawaits.of f

/-- A fiber that runs in an acquire is at one of its stands. -/
theorem stands (hat : E.At f b ⟨w, .running f left s⟩ ask ws p) :
    ws = [] ∧ E.Stands (E.heeds p) (b.delivered E.semaphore) ask s := by
  obtain ⟨hstanding, -⟩ := (hat.fits_self rfl).held.of_running
  cases hat.acquiring with
  | ready hp h =>
    cases hp.symm.trans hstanding
    exact ⟨rfl, h⟩
  | registering hp | answered _ hp | returned hp | parked hp | unwinding _ _ hp => cases hp.symm.trans hstanding

/-- It goes on to another stand. -/
theorem move (hat : E.At f b ⟨w, .running f left s⟩ ask [] p) {s' : Stand}
    (h : E.Stands (E.heeds p) (b.delivered E.semaphore) ask s') (hminds : w.Minds σ b (· = f) w) :
    E.At f b ⟨w, .running f left' s'⟩ ask [] (p.moveTo (.ready s')) :=
  hat.step hminds (Or.inl rfl) ((hat.fits_self rfl).stand left' s') (.ready rfl h) trivial hat.latched
    fun _ _ _ => List.forall_mem_nil _

end Engagement.At

namespace Orderly

variable {E : Engagement} {σ : Engagements} {b : Books} {w : World} {a : Activity} {kept : List Effect} {f : FiberId}
  {ask : Ask} {ws : List (Nat × Callback)} {p : Place} {s s' : Stand} {left : Nat} {run : Run} {l : DeferredId}
  {r : Registration} {epoch : Nat} {canceler : Canceler}

theorem engaged_ne (hf : σ f = some E) : σ f ≠ none := by
  rw [hf]
  exact Option.some_ne_none E

/-- A fiber in an acquire goes on to another stand of it. -/
theorem goOn (h : Orderly σ b ⟨⟨w, .running f (left + 1) s⟩, kept⟩) (hf : σ f = some E)
    (hat : E.At f b ⟨w, .running f (left + 1) s⟩ ask [] p)
    (hstands : E.Stands (E.heeds p) (b.delivered E.semaphore) ask s')
    (hoccurs : Scene.Occurs ⟨⟨w, .running f left s'⟩, kept⟩) :
    Undealt σ b ⟨⟨w, .running f (left + 1) s⟩, kept⟩ ⟨⟨w, .running f left s'⟩, kept⟩ :=
  h.own hf h.calm.refl hoccurs (Or.inl rfl) (Or.inl rfl) ⟨ask, [], _, hat.move hstands h.calm.refl⟩

/-- A fiber in an acquire begins to wait for its latch. -/
theorem await (h : Orderly σ b ⟨⟨w, .running f (left + 1) s⟩, kept⟩) (hf : σ f = some E)
    (hat : E.At f b ⟨w, .running f (left + 1) s⟩ (.holding (some l)) [] p) (hrun : s.run = E.inner (some l))
    (hdeed : s.deed = .register (.deferred l))
    (hoccurs : Scene.Occurs ⟨⟨w.advanceEpoch f (.registering none), .registering f left s.run (.deferred l)
      ((w.advanceEpoch f (.registering none)).epoch f)⟩, kept⟩) :
    Undealt σ b ⟨⟨w, .running f (left + 1) s⟩, kept⟩
      ⟨⟨w.advanceEpoch f (.registering none), .registering f left s.run (.deferred l)
        ((w.advanceEpoch f (.registering none)).epoch f)⟩, kept⟩ := by
  have hminds := h.calm.advanceOwn (engaged_ne hf) (.registering none)
  have hfits := hat.fits_self rfl
  obtain ⟨q, hmoves, hq⟩ := hfits.register hdeed
  have hplace : q = p.beyond (.registering (E.inner (some l)) none) := by
    rw [hmoves.one_eq.of_registered hfits.held.of_running.1, hrun]
  have hacquiring : E.Acquiring f (b.delivered E.semaphore) (.holding (some l)) [] q := .registering (hplace ▸ rfl)
  exact h.own hf hminds hoccurs (Or.inl rfl) (Or.inl rfl)
    ⟨_, _, q, hat.step hminds (Or.inl rfl) hq hacquiring ⟨l, rfl, rfl⟩ hat.latched fun _ _ _ => List.forall_mem_nil _⟩

/-- The closure of the registration runs. -/
theorem beginAwait (h : Orderly σ b ⟨⟨w, .registering f left run r epoch⟩, kept⟩) (hf : σ f = some E)
    (hoccurs : Scene.Occurs ⟨w.beginRegistration f left run r epoch, kept⟩) :
    Undealt σ b ⟨⟨w, .registering f left run r epoch⟩, kept⟩ ⟨w.beginRegistration f left run r epoch, kept⟩ := by
  obtain ⟨ask, ws, p, hat⟩ := h.engaged f E hf
  have hfits := hat.fits_self rfl
  obtain ⟨⟨early, hstanding⟩, hnil, rfl⟩ := hfits.held.of_registering
  have hawaits := hat.awaits
  rw [Activity.of_self rfl] at hawaits
  obtain ⟨l, rfl, rfl⟩ := hawaits
  obtain ⟨c, hc, hfiber, -, hlatch⟩ := hat.mem_claims rfl
  obtain ⟨rfl, hws, hrun⟩ : early = none ∧ ws = [] ∧ run = E.inner (some l) := by
    cases hat.acquiring with
    | registering hp =>
      cases hp.symm.trans hstanding
      exact ⟨rfl, rfl, rfl⟩
    | ready hp | answered _ hp | returned hp | parked hp | unwinding _ _ hp => cases hp.symm.trans hstanding
  subst hws hrun
  unfold World.beginRegistration at hoccurs ⊢
  rcases hat.latched l rfl with ⟨hdelivered, hdone⟩ | ⟨row, key, hrow, hmem, hpending⟩
  · rw [World.run_deferred_of_done hdone] at hoccurs ⊢
    have hminds : w.Minds σ b (· = f) (w.settle ⟨f, p.epoch⟩ (.value .null)) := h.calm.settleOwn p.epoch
    obtain ⟨home, hrecord⟩ := hfits.record
    have hcallback : w.record (Callback.mk f p.epoch).fiber = some (p.record home) := hrecord
    have hphase : (p.record home).phase = .registering none := congrArg Standing.phase hstanding
    obtain ⟨q, hmoves, hq⟩ : ∃ q, Moves p (history f (w.settleEvents ⟨f, p.epoch⟩ (.value .null)) ++
        [.returned p.epoch .none]) q ∧ Fits f ((w.settle ⟨f, p.epoch⟩ (.value .null)).view f
          (.returning f left (E.inner (some l)) .none)) q := Fits.return (.one (.settle w _ _)) hfits
    rw [(World.settle_of_registering hcallback rfl hphase (.value .null)).2, if_neg (by decide),
      history_cons_self] at hmoves
    obtain ⟨r, hkept, hreturned⟩ := hmoves.two_eq
    have hplace : q = p.moveTo (.returned (E.inner (some l)) (some (.value .null)) .none) := by
      rw [hkept.of_kept hstanding] at hreturned
      exact hreturned.of_returned rfl
    have hacquiring : E.Acquiring f (b.delivered E.semaphore) (.holding (some l)) [] q :=
      .answered hdelivered (hplace ▸ rfl)
    refine h.own hf hminds hoccurs (Or.inl rfl) (Or.inl rfl)
      ⟨_, _, q, hat.step hminds (Or.inl rfl) hq hacquiring trivial (fun l' hl' => ?_)
        fun _ _ _ => List.forall_mem_nil _⟩
    cases hl'
    have hsame := congrArg (fun t : Stores => t.deferreds.get? l.index) (World.stores_settle w ⟨f, p.epoch⟩ (.value .null))
    exact Or.inl ⟨hdelivered, hsame.trans hdone⟩
  · rw [World.run_deferred_of_pending hpending] at hoccurs ⊢
    have hminds := h.calm.setLatch hc hlatch (.pending ([] ++ [(key, ⟨f, p.epoch⟩)]) (key + 1))
    rw [hfiber] at hminds
    have hrequests : Requests w [] (w.setDeferred l (.pending ([] ++ [(key, ⟨f, p.epoch⟩)]) (key + 1))) :=
      .one (.quiet (.stores w _))
    obtain ⟨q, hmoves, hq⟩ : ∃ q, Moves p [.returned p.epoch (.waiter l key)] q ∧
        Fits f ((w.setDeferred l (.pending ([] ++ [(key, ⟨f, p.epoch⟩)]) (key + 1))).view f
          (.returning f left (E.inner (some l)) (.waiter l key))) q := Fits.return hrequests hfits
    have hplace := hmoves.one_eq.of_returned hstanding
    subst hplace
    refine h.own hf hminds hoccurs (Or.inl rfl) (Or.inl rfl)
      ⟨_, _, _, hat.step hminds (Or.inl rfl) hq (.returned rfl) trivial (fun l' hl' => ?_)
        fun l' hl' hdelivered => ?_⟩
    · cases hl'
      exact Or.inr ⟨row, key + 1, hrow, hmem, World.deferred?_setDeferred_self hpending⟩
    · cases hl'
      exact absurd hdelivered (h.books.not_delivered_of_mem hrow hmem)

/-- The registration ends. -/
theorem endAwait (h : Orderly σ b ⟨⟨w, .returning f left run canceler⟩, kept⟩) (hf : σ f = some E)
    (hoccurs : Scene.Occurs ⟨w.leaveRegistration f left run canceler, kept⟩) :
    Undealt σ b ⟨⟨w, .returning f left run canceler⟩, kept⟩ ⟨w.leaveRegistration f left run canceler, kept⟩ := by
  obtain ⟨ask, ws, p, hat⟩ := h.engaged f E hf
  have hfits := hat.fits_self rfl
  obtain ⟨⟨early, hstanding⟩, -⟩ := hfits.held.of_returning
  have hphase : w.phase? f = some (.registering early) :=
    hfits.phase?_eq.trans (congrArg (fun s => some (Standing.phase s)) hstanding)
  have hmatch : (w.fiber? f).map Fiber.phase = some (.registering early) := hphase
  unfold World.leaveRegistration at hoccurs ⊢
  rw [hmatch] at hoccurs ⊢
  have hminds := h.calm.advanceOwn (engaged_ne hf) .running
  cases hat.acquiring with
  | @answered l _ hdelivered hp =>
    cases hp.symm.trans hstanding
    obtain ⟨q, -, hq⟩ := hfits.early hphase
    have hends : E.Stands (E.heeds q) (b.delivered E.semaphore) (.holding (some l))
        ⟨E.inner (some l), .ofExit (.value .null)⟩ := by
      refine .ended (.value ?_)
      rintro l' ⟨⟩
      exact hdelivered
    have hacquiring : E.Acquiring f (b.delivered E.semaphore) (.holding (some l)) [] q :=
      .ready hq.held.of_running.1 hends
    exact h.own hf hminds hoccurs (Or.inl rfl) (Or.inl rfl)
      ⟨_, _, q, hat.step hminds (Or.inl rfl) hq hacquiring trivial hat.latched fun _ _ _ => List.forall_mem_nil _⟩
  | @returned l key _ hp =>
    cases hp.symm.trans hstanding
    dsimp only at hoccurs ⊢
    by_cases hpending : w.interruptPending f (E.inner (some l)).masks = true
    · rw [if_pos hpending] at hoccurs ⊢
      obtain ⟨q, hmoves, hq⟩ := hfits.leave hphase hpending
      have hacquiring := hat.acquiring.nudge hmoves.one_eq rfl
      exact h.own hf hminds hoccurs (Or.inl rfl) (Or.inl rfl)
        ⟨_, _, q, hat.step hminds (Or.inl rfl) hq hacquiring trivial hat.latched fun l' hl' hdelivered waiter hwaiter =>
          Nat.lt_of_lt_of_le (hat.woken l' hl' hdelivered waiter hwaiter) hmoves.epoch_le⟩
    · rw [if_neg hpending] at hoccurs ⊢
      obtain ⟨q, hmoves, hq⟩ := hfits.park hphase (Bool.eq_false_iff.2 hpending)
      have hplace := hmoves.one_eq.of_parked hstanding
      subst hplace
      have hpark := h.calm.modifyOwn (engaged_ne hf)
        (fun r => { r with phase := .suspended (E.inner (some l)) (.waiter l key) }) (fun _ => rfl)
        (fun r => Nat.le_refl r.epoch) fun _ _ => Or.inr ⟨rfl, fun _ => rfl⟩
      have hacquiring : E.Acquiring f (b.delivered E.semaphore) (.holding (some l)) [(key, ⟨f, p.epoch⟩)]
          (p.moveTo (.parked (E.inner (some l)) (.waiter l key))) :=
        .parked (p := p.moveTo (.parked (E.inner (some l)) (.waiter l key))) rfl
      exact h.own hf hpark hoccurs (Or.inl rfl) (Or.inr rfl)
        ⟨_, _, _, hat.step hpark (Or.inr rfl) hq hacquiring trivial hat.latched hat.woken⟩
  | ready hp | registering hp | parked hp | unwinding _ _ hp => cases hp.symm.trans hstanding

/-- What an interrupted fiber has waited for is cancelled. -/
theorem cancelAwait (h : Orderly σ b ⟨⟨w, .canceling f left run canceler⟩, kept⟩) (hf : σ f = some E)
    (hoccurs : Scene.Occurs ⟨⟨canceler.cancel.attempt w, .running f left ⟨run, .cause .interrupted⟩⟩, kept⟩) :
    Undealt σ b ⟨⟨w, .canceling f left run canceler⟩, kept⟩
      ⟨⟨canceler.cancel.attempt w, .running f left ⟨run, .cause .interrupted⟩⟩, kept⟩ := by
  obtain ⟨ask, ws, p, hat⟩ := h.engaged f E hf
  have hfits := hat.fits_self rfl
  obtain ⟨ended, hstanding, -, -⟩ := hfits.held.of_canceling
  cases hat.acquiring with
  | @unwinding l key epoch p hepoch hheeds hp =>
    cases hp.symm.trans hstanding
    have hcancel : (Canceler.waiter l key).cancel.attempt w = w.leaveDeferred l key := rfl
    rw [hcancel] at hoccurs ⊢
    obtain ⟨c, hc, hfiber, -, hlatch⟩ := hat.mem_claims rfl
    obtain ⟨hminds, hrequests, hlatched⟩ : w.Minds σ b (· = f) (w.leaveDeferred l key) ∧
        Requests w [] (w.leaveDeferred l key) ∧ (w.leaveDeferred l key).Latched b E.semaphore l [] := by
      rcases hat.latched l rfl with ⟨hdelivered, hdone⟩ | ⟨row, next, hrow, hmem, hpending⟩
      · have hsame : w.leaveDeferred l key = w := by simp only [World.leaveDeferred, hdone]
        rw [hsame]
        exact ⟨h.calm.refl, .refl w, Or.inl ⟨hdelivered, hdone⟩⟩
      · have herase : w.leaveDeferred l key = w.setDeferred l (.pending [] next) := by
          simp [World.leaveDeferred, hpending]
        rw [herase]
        refine ⟨hfiber ▸ h.calm.setLatch hc hlatch _, .one (.quiet (.stores w _)), Or.inr ?_⟩
        exact ⟨row, next, hrow, hmem, World.deferred?_setDeferred_self hpending⟩
    obtain ⟨q, hmoves, hq⟩ := Fits.cancel hrequests hfits
    have hends : E.Stands (E.heeds q) (b.delivered E.semaphore) (.holding (some l))
        ⟨E.inner (some l), .ofExit .interrupted⟩ := .ended (.interrupted (heeds_mono hmoves.requested hheeds))
    have hacquiring : E.Acquiring f (b.delivered E.semaphore) (.holding (some l)) [] q :=
      .ready hq.held.of_running.1 hends
    refine h.own hf hminds hoccurs (Or.inl rfl) (Or.inl rfl)
      ⟨_, _, q, hat.step hminds (Or.inl rfl) hq hacquiring trivial (fun l' hl' => ?_)
        fun _ _ _ => List.forall_mem_nil _⟩
    cases hl'
    exact hlatched
  | ready hp | registering hp | answered _ hp | returned hp | parked hp => cases hp.symm.trans hstanding

end Orderly

end FiberLoop
