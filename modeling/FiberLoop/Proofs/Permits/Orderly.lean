import FiberLoop.Proofs.Permits.Deals
import FiberLoop.Proofs.Permits.Sight

/-!
# Runs in good order

A scene is `Orderly` if every fiber in an acquire is at one of the places of its course, with the ticket that the
books say, everybody else knows only what can be known, and the rows of the semaphores are what the books say.

`World.Minds` are the changes that leave the acquires alone; the main result of this module is `Orderly.mind`: they
keep the order.
-/

namespace FiberLoop

/-! ## The invariant -/

/-- What an activity holds is in scope, unless the fiber is hidden. -/
def Activity.In (V : Scope) : Activity → Prop
  | .idle => True
  | .running f _ s => V.fiber f → s.run.In V ∧ s.next.In V
  | .registering f _ run r _ => V.fiber f → run.In V ∧ r.In V
  | .returning f _ run canceler | .canceling f _ run canceler => V.fiber f → run.In V ∧ canceler.In V
  | .exiting f x _ => V.fiber f → Value.ExitIn V x

theorem Activity.in_of_hidden {V : Scope} {a : Activity} {f : FiberId} (ha : a.fiber? = some f) (hf : ¬ V.fiber f) :
    a.In V := by
  cases a with
  | idle => exact trivial
  | _ =>
    cases ha
    exact fun h => absurd h hf

theorem Activity.In.mono {V V' : Scope} (h : V.Grows V') {a : Activity} (ha : a.In V)
    (hfiber : ∀ f, a.fiber? = some f → V'.fiber f → V.fiber f) : a.In V' := by
  cases a with
  | idle => exact trivial
  | running f left s =>
    intro hf
    obtain ⟨hrun, hnext⟩ := ha (hfiber f rfl hf)
    exact ⟨fun d hd => h.mentions d (hrun d hd), fun d hd => h.mentions d (hnext d hd)⟩
  | registering f left run r epoch =>
    intro hf
    obtain ⟨hrun, hr⟩ := ha (hfiber f rfl hf)
    exact ⟨fun d hd => h.mentions d (hrun d hd), fun d hd => h.mentions d (hr d hd)⟩
  | returning f left run c | canceling f left run c =>
    intro hf
    obtain ⟨hrun, hc⟩ := ha (hfiber f rfl hf)
    exact ⟨fun d hd => h.mentions d (hrun d hd), fun d hd => h.mentions d (hc d hd)⟩
  | exiting f x hook => exact fun hf d hd => h.mentions d (ha (hfiber f rfl hf) d hd)

/-- Whether a permit was granted to a latch. -/
def Books.delivered (b : Books) (s : SemaphoreId) (l : DeferredId) : Prop := Booking.delivered l ∈ b.of s

/-- The row of a latch: it is completed once a permit was granted to it, and in line before, with those who wait. -/
def World.Latched (w : World) (b : Books) (s : SemaphoreId) (l : DeferredId) (ws : List (Nat × Callback)) : Prop :=
  b.delivered s l ∧ w.deferred? l = some (.done (.value .null)) ∨
    ∃ row key, w.semaphore? s = some row ∧ l ∈ row.waiters ∧ w.deferred? l = some (.pending ws key)

/-- A fiber that registers a callback during an acquire waits for its latch. -/
def Activity.Awaits (ask : Ask) : Activity → Prop
  | .registering _ _ _ r _ => ∃ l, ask = .holding (some l) ∧ r = .deferred l
  | _ => True

theorem Activity.Awaits.of {ask : Ask} {a : Activity} (h : a.Awaits ask) (f : FiberId) : (a.of f).Awaits ask := by
  unfold Activity.of
  split
  · exact h
  · exact trivial

/-- A fiber in an acquire: its place, what it has booked, and the ticket that it holds. -/
structure Engagement.At (E : Engagement) (f : FiberId) (b : Books) (m : Moment) (ask : Ask)
    (ws : List (Nat × Callback)) (p : Place) : Prop where
  fits : Fits f (m.view f) p
  acquiring : E.Acquiring f (b.delivered E.semaphore) ask ws p
  claim : b.claim? f = ask.claim? f E.semaphore
  start : E.start ≤ b.entries.length
  booked : b.since f E.start = (ask.bookings f).map (E.semaphore, ·)
  there : (m.world.semaphore? E.semaphore).isSome = true
  latched : ∀ l, ask.latch? = some l → m.world.Latched b E.semaphore l ws
  /-- Nobody waits any more for a latch to which a permit was granted. -/
  woken : ∀ l, ask.latch? = some l → b.delivered E.semaphore l → ∀ waiter ∈ ws, waiter.2.epoch < p.epoch
  awaits : (m.activity.of f).Awaits ask

/-- The tickets that are held, as the books have it. -/
structure Books.Ticketed (b : Books) (σ : Engagements) : Prop where
  engaged : ∀ c ∈ b.claims, σ c.fiber ≠ none
  claimed : ∀ c ∈ b.claims, ∀ l, c.latch? = some l → l ∈ b.latches
  fibers : (b.claims.map Claim.fiber).Nodup
  tickets : (b.claims.filterMap Claim.latch?).Nodup
  /-- Each ticket is held or has served its purpose. -/
  count : ∀ s, (b.of s).countP Booking.isTicket =
    (b.of s).countP Booking.isSettled + b.claims.countP (·.semaphore = s)

/-- The books of a world. -/
structure Books.Kept (b : Books) (σ : Engagements) (w : World) : Prop extends b.Ticketed σ where
  dealt : ∀ s row, w.semaphore? s = some row → ∃ n, Semaphore.Dealt n (b.of s) row
  unknown : ∀ s, w.semaphore? s = none → b.of s = []
  latches : ∀ l ∈ b.latches, l.index < w.stores.deferreds.size
  owned : ∀ s row, w.semaphore? s = some row → ∀ l ∈ row.waiters, ∃ c ∈ b.claims, c.semaphore = s ∧ c.latch? = some l

/-- A scene in good order. -/
structure Orderly (σ : Engagements) (b : Books) (s : Scene) : Prop where
  occurs : s.Occurs
  confined : s.moment.world.Confined (s.moment.world.scope σ b)
  activity : s.moment.activity.In (s.moment.world.scope σ b)
  kept : ∀ e ∈ s.kept, e.In (s.moment.world.scope σ b)
  books : b.Kept σ s.moment.world
  base : ∀ f E, σ f = some E → E.base.In (s.moment.world.scope σ b)
  engaged : ∀ f E, σ f = some E → ∃ ask ws p, E.At f b s.moment ask ws p

/-- No permit was granted to a latch that is in line. -/
theorem Books.Kept.not_delivered_of_mem {b : Books} {σ : Engagements} {w : World} (h : b.Kept σ w) {s : SemaphoreId}
    {row : Semaphore} (hrow : w.semaphore? s = some row) {l : DeferredId} (hl : l ∈ row.waiters) :
    ¬ b.delivered s l := by
  intro hdelivered
  obtain ⟨n, hdealt⟩ := h.dealt s row hrow
  have hleft : l ∈ Semaphore.left (b.of s) := List.mem_filterMap.2 ⟨.delivered l, hdelivered, rfl⟩
  exact (hdealt.line.mem_iff.1 hl).2 hleft

/-! ## Bystanders -/

namespace World

/-- Nothing happens to a fiber but that its interruption is requested. -/
def Nudges (g : FiberId) (w w' : World) : Prop :=
  ∀ a p, Fits g (w.view g a) p →
    ∃ es q, Moves p es q ∧ (∀ e ∈ es, e.isRequest = true) ∧ Fits g (w'.view g a) q

namespace Nudges

variable {g : FiberId} {u v w w' : World}

theorem of_view (h : ∀ a, w'.view g a = w.view g a) : w.Nudges g w' :=
  fun a p hp => ⟨[], p, .refl p, List.forall_mem_nil _, (h a).symm ▸ hp⟩

theorem refl (g : FiberId) (w : World) : w.Nudges g w := of_view fun _ => rfl

theorem trans (h : u.Nudges g v) (h' : v.Nudges g w) : u.Nudges g w := by
  intro a p hp
  obtain ⟨es, q, hmoves, hes, hq⟩ := h a p hp
  obtain ⟨es', q', hmoves', hes', hq'⟩ := h' a q hq
  exact ⟨es ++ es', q', hmoves.append hmoves', List.forall_mem_append.2 ⟨hes, hes'⟩, hq'⟩

theorem requests {es : Chronicle} (h : Requests w es w') (hes : ∀ e ∈ history g es, e.isRequest = true) :
    w.Nudges g w' := by
  intro a p hp
  obtain ⟨q, hmoves, hq⟩ := h.fits hp
  exact ⟨_, q, hmoves, hes, hq⟩

/-- What is done inside a scope does no more to a shielded fiber. -/
theorem of_apart {V : Scope} (h : w.Apart V w') (hshields : V.shields) (hg : ¬ V.fiber g) : w.Nudges g w' := by
  obtain ⟨es, hrequests, hspares⟩ := h.requests
  refine requests hrequests fun e he => ?_
  obtain ⟨⟨f, e'⟩, hmem, hsome⟩ := List.mem_filterMap.1 he
  split at hsome
  · rename_i hf
    cases hsome
    cases hf
    exact (hspares _ hmem hshields).resolve_left hg
  · cases hsome

end Nudges

/-- A change that leaves the acquires alone, other than those of some fibers. -/
structure Minds (σ : Engagements) (b : Books) (X : FiberId → Prop) (w w' : World) : Prop where
  confined : w'.Confined (w'.scope σ b)
  later : w.Later w'
  quiet : w'.TimersQuiet
  nudges : ∀ g, σ g ≠ none → ¬ X g → w.Nudges g w'
  deferreds : w.stores.deferreds.size ≤ w'.stores.deferreds.size
  semaphores_size : w.stores.semaphores.size ≤ w'.stores.semaphores.size
  semaphores : ∀ s row, w.semaphore? s = some row → w'.semaphore? s = some row
  made : ∀ s row, w.semaphore? s = none → w'.semaphore? s = some row → row.waiters = []
  rows : ∀ c ∈ b.claims, ¬ X c.fiber → ∀ l, c.latch? = some l → w'.deferred? l = w.deferred? l

namespace Minds

variable {σ : Engagements} {b : Books} {X : FiberId → Prop} {u v w w' : World}

theorem refl (hw : w.Confined (w.scope σ b)) (hquiet : w.TimersQuiet) : w.Minds σ b X w where
  confined := hw
  later := .refl w
  quiet := hquiet
  nudges g _ _ := .refl g w
  deferreds := Nat.le_refl _
  semaphores_size := Nat.le_refl _
  semaphores _ _ h := h
  made _ _ h h' := nomatch h.symm.trans h'
  rows _ _ _ _ _ := rfl

theorem trans (h : u.Minds σ b X v) (h' : v.Minds σ b X w) : u.Minds σ b X w where
  confined := h'.confined
  later := h.later.trans h'.later
  quiet := h'.quiet
  nudges g hg hout := (h.nudges g hg hout).trans (h'.nudges g hg hout)
  deferreds := Nat.le_trans h.deferreds h'.deferreds
  semaphores_size := Nat.le_trans h.semaphores_size h'.semaphores_size
  semaphores s row hrow := h'.semaphores s row (h.semaphores s row hrow)
  made s row hnone hrow := by
    cases hv : v.semaphore? s with
    | none => exact h'.made s row hv hrow
    | some row' =>
      cases (h'.semaphores s row' hv).symm.trans hrow
      exact h.made s row hnone hv
  rows c hc hout l hl := (h'.rows c hc hout l hl).trans (h.rows c hc hout l hl)

theorem grows (h : w.Minds σ b X w') : (w.scope σ b).Grows (w'.scope σ b) :=
  scope_grows h.later h.deferreds h.semaphores_size (fun _ hl => Or.inl hl) fun _ hf => Or.inl hf

theorem there (h : w.Minds σ b X w') {s : SemaphoreId} (hs : (w.semaphore? s).isSome = true) :
    (w'.semaphore? s).isSome = true := by
  obtain ⟨row, hrow⟩ := Option.isSome_iff_exists.1 hs
  rw [h.semaphores s row hrow]
  rfl

/-- The books stay right. -/
theorem kept (h : w.Minds σ b X w') (hb : b.Kept σ w) : b.Kept σ w' where
  dealt s row hrow := by
    cases hw : w.semaphore? s with
    | none =>
      obtain ⟨permits, waiters⟩ := row
      cases h.made s _ hw hrow
      rw [hb.unknown s hw]
      exact ⟨permits, .made⟩
    | some row' =>
      cases (h.semaphores s row' hw).symm.trans hrow
      exact hb.dealt s row hw
  unknown s hnone := by
    refine hb.unknown s ?_
    cases hw : w.semaphore? s with
    | none => rfl
    | some row => cases (h.semaphores s row hw).symm.trans hnone
  latches l hl := Nat.lt_of_lt_of_le (hb.latches l hl) h.deferreds
  owned s row hrow l hl := by
    cases hw : w.semaphore? s with
    | none =>
      rw [h.made s row hw hrow] at hl
      cases hl
    | some row' =>
      cases (h.semaphores s row' hw).symm.trans hrow
      exact hb.owned s row hw l hl
  toTicketed := hb.toTicketed

/-- The latch of a fiber that is minded stays as it is. -/
theorem latched (h : w.Minds σ b X w') {c : Claim} (hc : c ∈ b.claims) (hout : ¬ X c.fiber) {l : DeferredId}
    (hl : c.latch? = some l) {s : SemaphoreId} {ws : List (Nat × Callback)} (hlatched : w.Latched b s l ws) :
    w'.Latched b s l ws := by
  rcases hlatched with ⟨hdelivered, hdone⟩ | ⟨row, key, hrow, hmem, hpending⟩
  · exact Or.inl ⟨hdelivered, (h.rows c hc hout l hl).trans hdone⟩
  · exact Or.inr ⟨row, key, h.semaphores s row hrow, hmem, (h.rows c hc hout l hl).trans hpending⟩

end Minds

end World

namespace Engagement.At

variable {E : Engagement} {f : FiberId} {σ : Engagements} {b : Books} {m : Moment} {w w' : World} {a a' : Activity}
  {X : FiberId → Prop} {ask : Ask} {ws : List (Nat × Callback)} {p : Place} {l : DeferredId}

/-- What a fiber has booked is in the books of its semaphore. -/
theorem mem_of (h : E.At f b m ask ws p) {e : Booking} (he : e ∈ ask.bookings f) : e ∈ b.of E.semaphore :=
  Books.mem_of_mem_since (e := (E.semaphore, e)) (h.booked ▸ List.mem_map_of_mem he)

/-- A fiber whose latch matters holds the ticket of that latch. -/
theorem mem_claims (h : E.At f b m ask ws p) (hl : ask.latch? = some l) :
    ∃ c ∈ b.claims, c.fiber = f ∧ c.semaphore = E.semaphore ∧ c.latch? = some l := by
  have hclaim := h.claim
  cases ask with
  | holding t | undoing t =>
    refine ⟨_, List.mem_of_find?_eq_some hclaim, rfl, rfl, hl⟩
  | _ => cases hl

/-- A fiber that is minded goes on with its acquire. -/
theorem mind (h : E.At f b ⟨w, a⟩ ask ws p) (hf : σ f = some E) (hminds : w.Minds σ b X w') (hout : ¬ X f)
    (ha : a'.of f = a.of f) : ∃ q, E.At f b ⟨w', a'⟩ ask ws q := by
  have hengaged : σ f ≠ none := by
    rw [hf]
    exact Option.some_ne_none E
  obtain ⟨es, q, hmoves, hes, hq⟩ := hminds.nudges f hengaged hout _ _ h.fits
  refine ⟨q, ?_, h.acquiring.nudges hmoves hes, h.claim, h.start, h.booked, hminds.there h.there, fun l hl => ?_,
    fun l hl hdelivered waiter hwaiter => ?_, (congrArg (Activity.Awaits ask) ha).mpr h.awaits⟩
  · rw [Moment.view, ha]
    exact hq
  · obtain ⟨c, hc, rfl, -, hlatch⟩ := h.mem_claims hl
    exact hminds.latched hc hout hlatch (h.latched l hl)
  · exact Nat.lt_of_lt_of_le (h.woken l hl hdelivered waiter hwaiter) hmoves.epoch_le

end Engagement.At

variable {σ : Engagements} {b : Books} {s : Scene} {w w' : World} {a a' : Activity} {kept kept' : List Effect}

namespace Orderly

theorem quiet (h : Orderly σ b s) : s.moment.world.TimersQuiet := by
  exact h.occurs.timersQuiet

/-- **What leaves the acquires alone keeps the order.** -/
theorem mind (h : Orderly σ b ⟨⟨w, a⟩, kept⟩) (hminds : w.Minds σ b (fun _ => False) w')
    (hoccurs : Scene.Occurs ⟨⟨w', a'⟩, kept'⟩) (ha : a'.In (w'.scope σ b))
    (hsame : ∀ f, σ f ≠ none → a'.of f = a.of f) (hkept : ∀ e ∈ kept', e.In (w'.scope σ b)) :
    Orderly σ b ⟨⟨w', a'⟩, kept'⟩ where
  occurs := hoccurs
  confined := hminds.confined
  activity := ha
  kept := hkept
  books := hminds.kept h.books
  base f E hf d hd := hminds.grows.mentions d (h.base f E hf d hd)
  engaged f E hf := by
    obtain ⟨ask, ws, p, hat⟩ := h.engaged f E hf
    have hengaged : σ f ≠ none := by
      rw [hf]
      exact Option.some_ne_none E
    obtain ⟨q, hq⟩ := hat.mind hf hminds not_false (hsame f hengaged)
    exact ⟨ask, ws, q, hq⟩

end Orderly

end FiberLoop
