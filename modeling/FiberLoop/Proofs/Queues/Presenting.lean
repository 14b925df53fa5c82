import FiberLoop.Proofs.Queues.Offering

/-!
# Offers in runs

A fiber in an offer is at one of the places of its course, or in the acquire of a permit for the next item
(`Offer.Stage`); every stroke of a run keeps it so (`Offer.Stage.play`). So an offer is all or nothing
(`Offers.all_or_nothing`): it presents its items in order, each one once, and ends with nothing to tell when it has
presented them all, or interrupted before that. The permits that it keeps are those for the items that it has
presented, and it leaves no latch in the line of the gate.
-/

namespace FiberLoop

open Engagement Semaphore

variable {σ : Engagements} {b b' : Books} {s : Scene} {stroke : Stroke} {f : FiberId} {q : QueueId} {v : Value}
  {gate : Option SemaphoreId} {n start : Nat} {es : List (SemaphoreId × Booking)}

/-! ## What is booked -/

/-- What a fiber has booked with acquires that are over, one after the other, and how many permits it has kept. -/
inductive Books.Bought (b : Books) (f : FiberId) (gate : Option SemaphoreId) :
    Nat → List (SemaphoreId × Booking) → Prop where
  | nothing : Bought b f gate 0 []
  | settle {n : Nat} {es : List (SemaphoreId × Booking)} {g : SemaphoreId} {t : Option DeferredId} {v : Verdict}
    (h : Bought b f gate n es) (hgate : gate = some g) (hlawful : Lawful (b.delivered g) t v) :
    Bought b f gate (n + v.worth) (es ++ ((Ask.settled t v).bookings f).map (g, ·))

/-- A latch leaves the line before its ticket has served its purpose. -/
theorem Books.left_of_settled {g : SemaphoreId} {t : Option DeferredId} {v : Verdict} {l : DeferredId}
    (hlawful : Lawful (b.delivered g) t v) (hbooked : ∀ e ∈ (Ask.settled t v).bookings f, e ∈ b.of g)
    (hl : .queued f l ∈ (Ask.settled t v).bookings f) : l ∈ left (b.of g) := by
  have hticket : t = some l := by
    rcases List.mem_cons.1 hl with hsame | hverdict
    · cases t <;> cases hsame
      rfl
    · cases v <;> cases t <;> cases List.mem_singleton.1 hverdict
  subst hticket
  cases v with
  | kept | undone => exact List.mem_filterMap.2 ⟨.delivered l, hlawful l rfl, rfl⟩
  | abandoned =>
    exact List.mem_filterMap.2 ⟨.abandoned f l, hbooked _ (List.mem_cons_of_mem _ (List.mem_singleton_self _)), rfl⟩

namespace Books.Bought

theorem mono (h : b.Bought f gate n es) (hgrows : ∀ g l, b.delivered g l → b'.delivered g l) :
    b'.Bought f gate n es := by
  induction h with
  | nothing => exact .nothing
  | @settle n es g t v _ hgate hlawful ih => exact .settle ih hgate (hlawful.mono (hgrows g))

/-- The permits that were granted are those that were undone and those that were kept. -/
theorem granted (h : b.Bought f gate n es) (hmem : ∀ e ∈ es, e.2 ∈ b.of e.1) (hleft : ∀ g, (left (b.of g)).Nodup) :
    es.countP (fun e => b.isGranted e.1 e.2) = es.countP (·.2.isUndone) + n := by
  induction h with
  | nothing => rfl
  | @settle n es g t v _ hgate hlawful ih =>
    obtain ⟨hold, hnew⟩ := List.forall_mem_append.1 hmem
    have hworth := worth_of_settled hlawful (fun e he => hnew (g, e) (List.mem_map_of_mem he)) (hleft g)
    have hcount := ih hold
    rw [List.countP_append, List.countP_append]
    omega

/-- Every latch that has joined the line has left it. -/
theorem leaves (h : b.Bought f gate n es) (hmem : ∀ e ∈ es, e.2 ∈ b.of e.1) {g : SemaphoreId} {l : DeferredId}
    (hl : (g, .queued f l) ∈ es) : l ∈ left (b.of g) := by
  induction h with
  | nothing => cases hl
  | @settle n es g' t v _ hgate hlawful ih =>
    obtain ⟨hold, hnew⟩ := List.forall_mem_append.1 hmem
    rcases List.mem_append.1 hl with hearlier | hlast
    · exact ih hold hearlier
    · obtain ⟨e, he, hsame⟩ := List.mem_map.1 hlast
      cases hsame
      exact left_of_settled hlawful (fun e he => hnew (g, e) (List.mem_map_of_mem he)) he

end Books.Bought

/-- The permits that a fiber owns by acquires that are over are those that it has kept. -/
theorem Orderly.owned_of_bought (h : Orderly σ b s) (hbought : b.Bought f gate n (b.since f start)) :
    b.owned f start = n := by
  have hgranted := hbought.granted (fun _ he => Books.mem_of_mem_since he) h.books.left_nodup
  rw [Books.owned]
  omega

/-- With acquires that are over no latch was left in line. -/
theorem Orderly.not_waiting_of_bought (h : Orderly σ b s) (hbought : b.Bought f gate n (b.since f start))
    {g : SemaphoreId} {row : Semaphore} (hrow : s.moment.world.semaphore? g = some row) {l : DeferredId}
    (hl : (g, .queued f l) ∈ b.since f start) : l ∉ row.waiters := by
  obtain ⟨n, hdealt⟩ := h.books.dealt g row hrow
  intro hwaits
  exact (hdealt.line.mem_iff.1 hwaits).2 (hbought.leaves (fun _ he => Books.mem_of_mem_since he) hl)

/-- Who is in no acquire is in no line. -/
theorem Orderly.not_waiting_of_free (h : Orderly σ b s) (hf : σ f = none) {g : SemaphoreId} {row : Semaphore}
    (hrow : s.moment.world.semaphore? g = some row) {l : DeferredId} (hl : .queued f l ∈ b.of g) : l ∉ row.waiters := by
  intro hwaits
  obtain ⟨n, hdealt⟩ := h.books.dealt g row hrow
  obtain ⟨c, E, ask, ws, p, key, -, -, hE, hat, hlatch, rfl, -⟩ := h.owner hrow hwaits
  have hqueued : .queued c.fiber l ∈ b.of E.semaphore := by
    cases ask with
    | holding t | undoing t =>
      cases hlatch
      exact hat.mem_of (List.mem_singleton_self _)
    | asking | settled t v => cases hlatch
  cases eq_of_nodup_filterMap hdealt.line.nodup hl hqueued rfl rfl
  cases hf.symm.trans hE

/-! ## What a stroke books -/

namespace Scene

/-- What a stroke adds to the books of a fiber, from any place in the books on. -/
theorem since_book (s : Scene) (stroke : Stroke) (b : Books) (f : FiberId) :
    b.entries.length ≤ (s.book stroke b).entries.length ∧
    (∀ g l, b.delivered g l → (s.book stroke b).delivered g l) ∧
    ∃ new, ∀ start ≤ b.entries.length, (s.book stroke b).since f start = b.since f start ++ new := by
  cases hcalls : s.calls? stroke with
  | none =>
    rw [book_of_no_call b hcalls]
    exact ⟨Nat.le_refl _, fun _ _ h => h, [], fun _ _ => (List.append_nil _).symm⟩
  | some call =>
    obtain ⟨g, run, c⟩ := call
    rw [book_of_calls? b hcalls]
    obtain ⟨sem, new, hadds, -⟩ := b.record_adds g c s.moment.world
    exact ⟨hadds.length_le, fun _ _ => hadds.delivered, _, fun start hstart => hadds.since f hstart⟩

/-! ## What is presented -/

/-- What a fiber presents to a queue with a stroke. -/
def presents? (s : Scene) (f : FiberId) (q : QueueId) (stroke : Stroke) : Option Value :=
  match s.calls? stroke with
  | some (g, _, .thunk (.perform (.offerItem q' v))) => if g = f ∧ q' = q then some v else none
  | _ => none

theorem presents?_eq_some : s.presents? f q stroke = some v ↔
    ∃ run, s.calls? stroke = some (f, run, .thunk (.perform (.offerItem q v))) := by
  constructor
  · intro h
    unfold presents? at h
    split at h
    · rename_i g run q' v' hcalls
      split at h
      · rename_i hsame
        obtain ⟨rfl, rfl⟩ := hsame
        cases h
        exact ⟨run, hcalls⟩
      · cases h
    · cases h
  · rintro ⟨run, hcalls⟩
    simp [presents?, hcalls]

/-- Whoever presents something stands where it is presented. -/
theorem of_presents? (h : s.presents? f q stroke = some v) : stroke = .next ∧ ∃ left run,
    s.moment.activity = .running f (left + 1) ⟨run, .eval (.perform (.offerItem q v))⟩ := by
  obtain ⟨run, hcalls⟩ := presents?_eq_some.1 h
  obtain ⟨rfl, left, stand, ha, hdeed, -⟩ := of_calls? hcalls
  exact ⟨rfl, left, run, Stand.of_thunk hdeed ▸ ha⟩

theorem presents?_of_still (h : s.stepper? stroke ≠ some f) (q : QueueId) : s.presents? f q stroke = none := by
  cases hp : s.presents? f q stroke with
  | none => rfl
  | some v =>
    obtain ⟨rfl, left, run, ha⟩ := of_presents? hp
    exact absurd (by rw [stepper?, ha]) h

theorem presents?_of_stand {left : Nat} {stand : Stand} (ha : s.moment.activity = .running f (left + 1) stand)
    (h : ∀ v, stand.next ≠ .eval (.perform (.offerItem q v))) : s.presents? f q .next = none := by
  cases hp : s.presents? f q .next with
  | none => rfl
  | some v =>
    obtain ⟨-, left', run, ha'⟩ := of_presents? hp
    cases ha.symm.trans ha'
    exact absurd rfl (h v)

end Scene

/-! ## How far an offer has come -/

namespace Offer

variable {O : Offer} {presented : List Value} {left : Nat} {stand : Stand}

/-- How far an offer has come that has presented some items. -/
inductive Stage (O : Offer) (f : FiberId) (start : Nat) (σ : Engagements) (presented : List Value) (b : Books)
    (s : Scene) : Prop where
  | stands {p : Place} {stand : Stand} {n : Nat} (hfits : Fits f (s.moment.view f) p)
    (hready : p.standing = .ready stand) (h : O.Stands presented n stand) (hfree : O.items ≠ [] → σ f = none)
    (hbought : b.Bought f O.gate n (b.since f start))
  /-- The fiber is in the acquire of a permit for the next item. -/
  | acquires {g : SemaphoreId} {v : Value} {rest : List Value} {place : Nat} {es : List (SemaphoreId × Booking)}
    (hgate : O.gate = some g) (hitems : O.items = presented ++ v :: rest)
    (hσ : σ f = some ⟨O.waiting v rest, g, place⟩) (hbought : b.Bought f O.gate (O.cost presented.length) es)
    (hsince : b.since f start = es ++ b.since f place)

/-- Where the fiber has come when it runs. -/
theorem Stage.of_stands {n : Nat} (hσ : Orderly σ b s) (ha : s.moment.activity = .running f left stand)
    (h : O.Stands presented n stand) (hfree : O.items ≠ [] → σ f = none)
    (hbought : b.Bought f O.gate n (b.since f start)) : O.Stage f start σ presented b s := by
  obtain ⟨p, hp, hready⟩ := hσ.ready ha
  exact .stands hp hready h hfree hbought

/-- A fiber that takes no step stays where it is in its offer. -/
theorem Stage.still {p : Place} {n : Nat} {σ' : Engagements} (hσ : Orderly σ b s) (hstart : start ≤ b.entries.length)
    (hf : s.stepper? stroke ≠ some f) (hfits : Fits f (s.moment.view f) p) (hready : p.standing = .ready stand)
    (h : O.Stands presented n stand) (hfree : O.items ≠ [] → σ f = none)
    (hbought : b.Bought f O.gate n (b.since f start)) (hsame : σ' f = σ f)
    (hsince : ∀ start ≤ b.entries.length, (s.book stroke b).since f start = b.since f start) :
    O.Stage f start σ' presented (s.book stroke b) (s.play stroke) := by
  obtain ⟨q, hq⟩ := hσ.occurs.fits_play hfits stroke
  refine .stands hq ((hσ.occurs.stays hfits hq hf).ready stand hready) h (fun hitems => hsame.trans (hfree hitems)) ?_
  rw [hsince start hstart]
  exact hbought.mono (s.since_book stroke b f).2.1

section Step

variable {n : Nat} {σ' : Engagements} (ha : s.moment.activity = .running f (left + 1) stand)
  (hadvance : Advance σ b s σ' (s.book .next b) (s.play .next))

include ha hadvance

/-- The fiber goes on without using the semaphores and the queue. -/
theorem Stage.go {stand' : Stand} (hmoment : (s.play .next).moment = ⟨s.moment.world, .running f left stand'⟩)
    (hbook : s.book .next b = b) (h : O.Stands presented n stand') (hbegins : ∀ sem, ¬ stand.Begins sem)
    (hfree : O.items ≠ [] → σ f = none) (hbought : b.Bought f O.gate n (b.since f start)) :
    O.Stage f start σ' presented (s.book .next b) (s.play .next) :=
  .of_stands hadvance.orderly (congrArg Moment.activity hmoment) h
    (fun hitems => hadvance.free ha (hfree hitems) hbegins) (hbook.symm ▸ hbought)

/-- The fiber turns to the first item, unless it is interrupted. -/
theorem Stage.turn (hs : stand = ⟨O.before O.items, .eval .unitValue⟩) (hfree : O.items ≠ [] → σ f = none)
    (hbought : b.Bought f O.gate 0 (b.since f start)) : O.Stage f start σ' [] (s.book .next b) (s.play .next) := by
  subst hs
  have hcost : O.cost ([] : List Value).length = 0 := ite_self 0
  cases hcuts : s.moment.world.cuts f (.value .null) (O.before O.items) with
  | true =>
    obtain ⟨hmoment, hbook⟩ := Scene.play_of_cut ha b rfl hcuts
    exact .go ha hadvance hmoment hbook (hcost ▸ .unwinding List.nil_prefix Eq.symm) nofun hfree hbought
  | false =>
    obtain ⟨hmoment, hbook⟩ := Scene.play_of_call ha b rfl hcuts
    exact .go ha hadvance hmoment hbook (hcost ▸ @Offer.Stands.turning O [] O.items rfl) nofun hfree hbought

/-- The acquire of a permit begins. -/
theorem Stage.acquire {g : SemaphoreId} {rest : List Value} (hgate : O.gate = some g)
    (hitems : O.items = presented ++ v :: rest) (hs : stand = ⟨O.waiting v rest, .eval (.acquirePermit g)⟩)
    (hfree : O.items ≠ [] → σ f = none) (hbought : b.Bought f O.gate (O.cost presented.length) (b.since f start)) :
    O.Stage f start σ' presented (s.book .next b) (s.play .next) := by
  subst hs
  obtain ⟨hmoment, hbook⟩ := Scene.play_of_goes ha b (.move rfl)
  have hengaged : σ' f ≠ none := hadvance.orderly.engaged_of_asking (congrArg Moment.activity hmoment)
  obtain ⟨E, hE⟩ := Option.ne_none_iff_exists'.1 hengaged
  have hitem : O.items ≠ [] := hitems ▸ List.append_ne_nil_of_right_ne_nil _ (List.cons_ne_nil v rest)
  obtain ⟨hplace, left', hbegan⟩ := hadvance.began f E (hfree hitem) hE
  obtain ⟨base, sem, place⟩ := E
  cases ha.symm.trans hbegan
  cases hplace
  refine .acquires hgate hitems hE (hbook.symm ▸ hbought) ?_
  have hnothing : b.since f b.entries.length = [] := by rw [Books.since, List.drop_length, List.filter_nil]
  rw [hbook, hnothing, List.append_nil]

/-- An item is presented. -/
theorem Stage.place {rest : List Value} (hitems : O.items = presented ++ v :: rest)
    (hs : stand = ⟨O.placing rest, .eval (.perform (.offerItem O.queue v))⟩) (hfree : O.items ≠ [] → σ f = none)
    (hbought : b.Bought f O.gate (O.cost (presented.length + 1)) (b.since f start)) :
    s.presents? f O.queue .next = some v ∧
      O.Stage f start σ' (presented ++ [v]) (s.book .next b) (s.play .next) := by
  subst hs
  have hcuts : s.moment.world.cuts f (.thunk (.perform (.offerItem O.queue v))) (O.placing rest) = false :=
    World.cuts_of_masked (masked_placing rest) s.moment.world f _
  obtain ⟨hmoment, hbook⟩ := Scene.play_of_call ha b rfl hcuts
  have hplaced : O.Stands (presented ++ [v]) (O.cost (presented ++ [v]).length) ⟨O.placing rest, .value .null⟩ :=
    .placed (by rw [hitems, List.append_assoc]; rfl)
  rw [List.length_append] at hplaced
  refine ⟨Scene.presents?_eq_some.2 ⟨_, Scene.calls?_of_deed ha rfl hcuts⟩, ?_⟩
  exact .of_stands hadvance.orderly (congrArg Moment.activity hmoment) hplaced
    (fun hne => hadvance.free ha (hfree hne) nofun) (hbook.symm ▸ hbought)

end Step

/-- **A step of a fiber outside of the acquires.** -/
theorem Stage.step {n : Nat} (hσ : Orderly σ b s) (ha : s.moment.activity = .running f (left + 1) stand)
    (h : O.Stands presented n stand) (hfree : O.items ≠ [] → σ f = none)
    (hbought : b.Bought f O.gate n (b.since f start))
    (hin : ∀ left x, s.moment.activity ≠ .running f left ⟨O.base, .ofExit x⟩) :
    ∃ σ', Orderly σ' (s.book .next b) (s.play .next) ∧
      O.Stage f start σ' (presented ++ (s.presents? f O.queue .next).toList) (s.book .next b) (s.play .next) := by
  obtain ⟨σ', hadvance⟩ := hσ.step ha
  refine ⟨σ', hadvance.orderly, ?_⟩
  have hquiet (hplaces : ∀ v, stand.next ≠ .eval (.perform (.offerItem O.queue v)))
      (hstage : O.Stage f start σ' presented (s.book .next b) (s.play .next)) :
      O.Stage f start σ' (presented ++ (s.presents? f O.queue .next).toList) (s.book .next b) (s.play .next) := by
    rw [Scene.presents?_of_stand ha hplaces, Option.toList_none, List.append_nil]
    exact hstage
  cases h.next with
  | go hgoes h hbegins hplaces =>
    obtain ⟨hmoment, hbook⟩ := Scene.play_of_goes ha b hgoes
    exact hquiet (hplaces _) (.go ha hadvance hmoment hbook h hbegins hfree hbought)
  | start hpre hn hs =>
    subst hpre hn
    exact hquiet (hs ▸ nofun) (.turn ha hadvance hs hfree hbought)
  | acquire hgate hitems hn hs =>
    subst hn
    exact hquiet (hs ▸ nofun) (.acquire ha hadvance hgate hitems hs hfree hbought)
  | place hitems hn hs =>
    subst hn
    obtain ⟨hpresents, hstage⟩ := Stage.place ha hadvance hitems hs hfree hbought
    rw [hpresents]
    exact hstage
  | done hpre hs => exact absurd (hs ▸ ha) (hin (left + 1) (.value .null))
  | gone hpre hshort hs => exact absurd (hs ▸ ha) (hin (left + 1) .interrupted)

/-- **A stroke while a fiber is in the acquire of a permit.** -/
theorem Stage.await {g : SemaphoreId} {rest : List Value} {place : Nat} (hσ : Orderly σ b s)
    (hstart : start ≤ b.entries.length) (hgate : O.gate = some g) (hitems : O.items = presented ++ v :: rest)
    (hf : σ f = some ⟨O.waiting v rest, g, place⟩) (hbought : b.Bought f O.gate (O.cost presented.length) es)
    (hsince : b.since f start = es ++ b.since f place) (stroke : Stroke) :
    ∃ σ', Orderly σ' (s.book stroke b) (s.play stroke) ∧
      O.Stage f start σ' (presented ++ (s.presents? f O.queue stroke).toList) (s.book stroke b) (s.play stroke) := by
  obtain ⟨σ', hadvance⟩ := hσ.play stroke
  obtain ⟨ask, ws, p, hat⟩ := hσ.engaged f _ hf
  have hsilent : s.presents? f O.queue stroke = none := by
    cases hp : s.presents? f O.queue stroke with
    | none => rfl
    | some v =>
      obtain ⟨rfl, left, run, ha⟩ := Scene.of_presents? hp
      obtain ⟨⟨w, a⟩, kept⟩ := s
      cases ha
      exact absurd (Or.inl rfl) (hat.stands.2.not_uses rfl O.queue)
  refine ⟨σ', hadvance.orderly, ?_⟩
  rw [hsilent, Option.toList_none, List.append_nil]
  rcases hadvance.ended f _ hf with hsame | ⟨hnone, hbook, left, t, verdict, ha, hlawful, hbooked⟩
  · obtain ⟨-, hdelivered, new, hnew⟩ := s.since_book stroke b f
    refine .acquires hgate hitems hsame (hbought.mono hdelivered) ?_
    rw [hnew start hstart, hnew place hat.start, hsince, List.append_assoc]
  · have hbought' : b.Bought f O.gate (O.cost presented.length + verdict.worth) (b.since f start) := by
      rw [hsince, hbooked]
      exact hbought.settle hgate hlawful
    rw [hbook] at hadvance ⊢
    rw [cost_of_gate hgate] at hbought'
    refine .of_stands hadvance.orderly ha ?_ (fun _ => hnone) hbought'
    cases verdict with
    | kept => exact cost_of_gate hgate (presented.length + 1) ▸ .granted hitems
    | undone | abandoned => exact cost_of_gate hgate presented.length ▸ .refused hitems

/-- **Every stroke of a run keeps an offer on its course.** -/
theorem Stage.play (h : O.Stage f start σ presented b s) (hσ : Orderly σ b s) (hstart : start ≤ b.entries.length)
    (hin : ∀ left x, s.moment.activity ≠ .running f left ⟨O.base, .ofExit x⟩) (stroke : Stroke) :
    ∃ σ', Orderly σ' (s.book stroke b) (s.play stroke) ∧
      O.Stage f start σ' (presented ++ (s.presents? f O.queue stroke).toList) (s.book stroke b) (s.play stroke) := by
  cases h with
  | acquires hgate hitems hf hbought hsince => exact Stage.await hσ hstart hgate hitems hf hbought hsince stroke
  | stands hfits hready h hfree hbought =>
    by_cases hstep : s.stepper? stroke = some f
    · obtain ⟨rfl, left, stand, ha⟩ := Scene.of_stepper? hstep
      cases hready.symm.trans (hfits.ready_of_running ha)
      exact Stage.step hσ ha h hfree hbought hin
    · obtain ⟨σ', hadvance, hothers⟩ := hσ.play_others stroke
      obtain ⟨hsame, hsince⟩ := hothers f hstep
      refine ⟨σ', hadvance.orderly, ?_⟩
      rw [Scene.presents?_of_still hstep, Option.toList_none, List.append_nil]
      exact .still hσ hstart hstep hfits hready h hfree hbought hsame hsince

end Offer

/-! ## Runs -/

/-- The strokes from one scene to another leave the contents of a queue alone whenever they are those of a fiber. -/
inductive Scene.Untouched (f : FiberId) (q : QueueId) (s₀ : Scene) : Scene → Prop where
  | refl : Untouched f q s₀ s₀
  | play {s : Scene} (h : Untouched f q s₀ s) (stroke : Stroke)
    (hsame : stroke = .next → s.moment.activity.fiber? = some f →
      ∀ row, s.moment.world.queue? q = some row → (s.play stroke).moment.world.queue? q = some row) :
    Untouched f q s₀ (s.play stroke)

/-- A fiber has begun an offer at some scene, at some place of the books, and has not come out of it before; with the
items that it has presented since. -/
inductive Offers (O : Offer) (f : FiberId) (start : Nat) (s₀ : Scene) : List Value → Books → Scene → Prop where
  | begin {b : Books} {left : Nat} {e : Effect} (h : Recorded b s₀) (hstart : b.entries.length = start) (he : O.Is e)
    (ha : s₀.moment.activity = .running f left ⟨O.base, .eval e⟩) : Offers O f start s₀ [] b s₀
  | play {presented : List Value} {b : Books} {s : Scene} (h : Offers O f start s₀ presented b s)
    (hin : ∀ left x, s.moment.activity ≠ .running f left ⟨O.base, .ofExit x⟩) (stroke : Stroke) :
    Offers O f start s₀ (presented ++ (s.presents? f O.queue stroke).toList) (s.book stroke b) (s.play stroke)

section Runs

variable {O : Offer} {presented : List Value} {s₀ : Scene} {left : Nat} {x : Exit Value Value}

/-- An offer begins outside of the acquires, unless it is one of no item. -/
theorem Orderly.free_of_offer (h : Orderly σ b s) {e : Effect} (he : O.Is e)
    (ha : s.moment.activity = .running f left ⟨O.base, .eval e⟩) (hitems : O.items ≠ []) : σ f = none := by
  obtain ⟨⟨w, a⟩, kept⟩ := s
  cases ha
  cases hf : σ f with
  | none => rfl
  | some E =>
    obtain ⟨ask, ws, p, hat⟩ := h.engaged f E hf
    have hplaces : e.places = true := he.places.resolve_left hitems
    rw [hat.stands.2.not_places rfl] at hplaces
    cases hplaces

/-- **A fiber in an offer is on its course.** -/
theorem Offers.stage (h : Offers O f start s₀ presented b s) : start ≤ b.entries.length ∧
    ∃ σ, Orderly σ b s ∧ O.Stage f start σ presented b s := by
  induction h with
  | @begin b left e h hstart he ha =>
    obtain ⟨σ, hσ⟩ := h.orderly
    refine ⟨Nat.le_of_eq hstart.symm, σ, hσ, .of_stands hσ ha he.stands (hσ.free_of_offer he ha) ?_⟩
    rw [← hstart, Books.since, List.drop_length, List.filter_nil]
    exact .nothing
  | @play presented b s h hin stroke ih =>
    obtain ⟨hstart, σ, hσ, hstage⟩ := ih
    exact ⟨Nat.le_trans hstart (s.since_book stroke b f).1, hstage.play hσ hstart hin stroke⟩

namespace Offer

/-- What was presented is a beginning of the list. -/
theorem Stage.isPrefix (h : O.Stage f start σ presented b s) : presented <+: O.items := by
  cases h with
  | stands _ _ h => exact h.isPrefix
  | acquires _ hitems => exact ⟨_, hitems.symm⟩

/-- The only closure with which a fiber in an offer uses the queue presents the next item. -/
theorem Stage.uses (h : O.Stage f start σ presented b s) (hσ : Orderly σ b s) {run : Run} {c : Call}
    (hcalls : s.calls? stroke = some (f, run, c)) (huses : c.uses O.queue) :
    ∃ v, c = .thunk (.perform (.offerItem O.queue v)) ∧ presented ++ [v] <+: O.items := by
  obtain ⟨rfl, left, stand, ha, hdeed, -⟩ := Scene.of_calls? hcalls
  cases h with
  | stands hfits hready h =>
    cases hready.symm.trans (hfits.ready_of_running ha)
    exact h.uses hdeed huses
  | acquires _ _ hf =>
    obtain ⟨ask, ws, p, hat⟩ := hσ.engaged f _ hf
    obtain ⟨⟨w, a⟩, kept⟩ := s
    cases ha
    exact absurd huses (hat.stands.2.not_uses hdeed O.queue)

/-- A stroke of the fiber that presents nothing leaves the queue as it is. -/
theorem Stage.spares (h : O.Stage f start σ presented b s) (hσ : Orderly σ b s)
    (hactive : s.moment.activity.fiber? = some f) (hsilent : s.presents? f O.queue .next = none) {row : Queue}
    (hrow : s.moment.world.queue? O.queue = some row) : (s.play .next).moment.world.queue? O.queue = some row := by
  obtain ⟨L, b', hlined⟩ := hσ.occurs.lined hrow
  refine (hlined.spare fun g run c hcalls huses => ?_).1.queue.trans hrow
  obtain ⟨-, left, stand, ha, -⟩ := Scene.of_calls? hcalls
  rw [ha] at hactive
  cases hactive
  obtain ⟨v, rfl, -⟩ := h.uses hσ hcalls huses
  cases hsilent.symm.trans (Scene.presents?_eq_some.2 ⟨run, hcalls⟩)

/-- Where an offer has ended the fiber is in no acquire. -/
theorem Stage.of_exit (h : O.Stage f start σ presented b s) (hσ : Orderly σ b s)
    (hexit : s.moment.activity = .running f left ⟨O.base, .ofExit x⟩) :
    (x = .value .null ∧ presented = O.items ∨ x = .interrupted ∧ (presented = O.items → O.items = [])) ∧
      (O.items ≠ [] → σ f = none) ∧ b.Bought f O.gate (O.cost presented.length) (b.since f start) := by
  cases h with
  | stands hfits hready h hfree hbought =>
    cases hready.symm.trans (hfits.ready_of_running hexit)
    obtain ⟨rfl, hends⟩ := h.of_exit
    exact ⟨hends, hfree, hbought⟩
  | @acquires g v rest _ _ _ _ hf =>
    obtain ⟨ask, ws, p, hat⟩ := hσ.engaged f _ hf
    obtain ⟨⟨w, a⟩, kept⟩ := s
    cases hexit
    have hlength : (O.waiting v rest).frames.length ≤ O.base.frames.length := hat.stands.2.within.length_le
    rw [waiting, Run.push, List.length_cons, length_before] at hlength
    omega

/-- What is to be said of an offer at any time, with what it has presented since it began at some scene. -/
structure AllOrNothing (O : Offer) (f : FiberId) (start : Nat) (s₀ : Scene) (presented : List Value) (b : Books)
    (s : Scene) : Prop where
  /-- What was presented is a beginning of the list, each item once and in order. -/
  inOrder : presented <+: O.items
  /-- The only use that the fiber makes of the queue is to add the next item. -/
  presents : ∀ stroke run c, s.calls? stroke = some (f, run, c) → c.uses O.queue → ∃ v,
    s.presents? f O.queue stroke = some v ∧ presented ++ [v] <+: O.items ∧
      (s.play stroke).moment.world = s.moment.world.offerItem O.queue v
  /-- As long as nothing was presented, the fiber has left the contents of the queue alone. -/
  untouched : presented = [] → s₀.Untouched f O.queue s
  /-- The offer ends with nothing to tell when all was presented, or interrupted before that. -/
  ends : ∀ left x, s.moment.activity = .running f left ⟨O.base, .ofExit x⟩ →
    x = .value .null ∧ presented = O.items ∨ x = .interrupted ∧ (presented = O.items → O.items = [])
  /-- Then the fiber owns one permit of the gate for each item that it has presented, if there is a gate, -/
  owned : ∀ left x, s.moment.activity = .running f left ⟨O.base, .ofExit x⟩ →
    b.owned f start = O.cost presented.length
  /-- and no latch with which it has joined a line since the offer began is in line. -/
  unlined : ∀ left x, s.moment.activity = .running f left ⟨O.base, .ofExit x⟩ →
    ∀ g row l, s.moment.world.semaphore? g = some row → (g, .queued f l) ∈ b.since f start → l ∉ row.waiters
  /-- If there was anything to offer, it holds no ticket and has no latch in line at all. -/
  unclaimed : ∀ left x, s.moment.activity = .running f left ⟨O.base, .ofExit x⟩ → O.items ≠ [] → b.claim? f = none ∧
    ∀ g row l, s.moment.world.semaphore? g = some row → .queued f l ∈ b.of g → l ∉ row.waiters

end Offer

/-- As long as a fiber in an offer has presented nothing, it has left the contents of the queue alone. -/
theorem Offers.untouched (h : Offers O f start s₀ presented b s) (hnothing : presented = []) :
    s₀.Untouched f O.queue s := by
  induction h with
  | begin => exact .refl
  | @play presented b s h hin stroke ih =>
    obtain ⟨hold, hnew⟩ := List.append_eq_nil_iff.1 hnothing
    refine (ih hold).play stroke fun hnext hactive row hrow => ?_
    subst hnext
    obtain ⟨-, σ, hσ, hstage⟩ := h.stage
    exact hstage.spares hσ hactive (Option.toList_eq_nil_iff.1 hnew) hrow

/-- **Offers are all or nothing, and in order**, whatever the policy of the queue, the other fibers and the time of an
interruption. -/
theorem Offers.all_or_nothing (h : Offers O f start s₀ presented b s) :
    O.AllOrNothing f start s₀ presented b s := by
  obtain ⟨-, σ, hσ, hstage⟩ := h.stage
  exact {
    inOrder := hstage.isPrefix
    presents := fun stroke run c hcalls huses => by
      obtain ⟨v, rfl, hprefix⟩ := hstage.uses hσ hcalls huses
      obtain ⟨left, hmoment, -⟩ := Scene.moment_of_calls? hcalls
      exact ⟨v, Scene.presents?_eq_some.2 ⟨run, hcalls⟩, hprefix, congrArg Moment.world hmoment⟩
    untouched := h.untouched
    ends := fun left x hexit => (hstage.of_exit hσ hexit).1
    owned := fun left x hexit => hσ.owned_of_bought (hstage.of_exit hσ hexit).2.2
    unlined := fun left x hexit g row l hrow hl =>
      hσ.not_waiting_of_bought (hstage.of_exit hσ hexit).2.2 hrow hl
    unclaimed := fun left x hexit hitems =>
      have hfree := (hstage.of_exit hσ hexit).2.1 hitems
      ⟨hσ.books.claim?_of_free hfree, fun g row l hrow hl => hσ.not_waiting_of_free hfree hrow hl⟩ }

end Runs

/-- Whether a fiber comes out of an effect that is evaluated on a stack of some height. -/
def Activity.leaves (f : FiberId) (height : Nat) : Activity → Bool
  | .running g _ ⟨run, .value _⟩ | .running g _ ⟨run, .cause _⟩ => g = f && run.frames.length = height
  | _ => false

theorem Activity.leaves_of_exit (f : FiberId) (left : Nat) (run : Run) (x : Exit Value Value) :
    (Activity.running f left ⟨run, .ofExit x⟩).leaves f run.frames.length = true := by
  cases x <;> simp [leaves, Next.ofExit]

namespace Scene

/-- Whether a fiber comes out of an effect only after some strokes. -/
def remains (f : FiberId) (height : Nat) (s : Scene) : List Stroke → Bool
  | [] => true
  | stroke :: rest => !s.moment.activity.leaves f height && (s.play stroke).remains f height rest

/-- What a fiber presents to a queue with some strokes. -/
def presented (f : FiberId) (q : QueueId) (s : Scene) : List Stroke → List Value
  | [] => []
  | stroke :: rest => (s.presents? f q stroke).toList ++ (s.play stroke).presented f q rest

end Scene

theorem Offers.after {O : Offer} {s₀ : Scene} {vs : List Value} (h : Offers O f start s₀ vs b s) (strokes : List Stroke)
    (hremains : s.remains f O.base.frames.length strokes = true) :
    Offers O f start s₀ (vs ++ s.presented f O.queue strokes) (s.books strokes b) (s.after strokes) := by
  induction strokes generalizing vs b s with
  | nil => exact (List.append_nil vs).symm ▸ h
  | cons stroke rest ih =>
    obtain ⟨hhere, hrest⟩ := Bool.and_eq_true_iff.1 hremains
    have hin (left : Nat) (x : Exit Value Value) : s.moment.activity ≠ .running f left ⟨O.base, .ofExit x⟩ := by
      intro hexit
      rw [hexit, Activity.leaves_of_exit] at hhere
      cases hhere
    have hafter := ih (h.play hin stroke) hrest
    rwa [List.append_assoc] at hafter

/-- A fiber is about to offer two items to a queue with one place. -/
def crowding : Scene :=
  (Scene.initial {} []).after [.demand (.scenario (.newQueue "q" (.bounded 1))),
    .demand (.scenario (.run "a" (.queue (.offerAll (.var "q") (.list [.const (.int 1), .const (.int 2)]))) false)),
    .next, .next]

/-- It comes to wait for a second permit, and is interrupted. -/
def crowded : List Stroke := List.replicate 40 .next ++ .demand (.interrupt ⟨0⟩) :: List.replicate 11 .next

/-- The offer with which the fiber is about to begin. -/
def crowdingOffer : Offer where
  base := { frames := [.chain (.transform .same)] }
  queue := ⟨0⟩
  gate := some ⟨0⟩
  items := [.ofDatum (.int 1), .ofDatum (.int 2)]

/-- It has presented the first item, and owns the permit for that. -/
theorem Offers.all_or_nothing_of_crowded :
    crowding.presented ⟨0⟩ ⟨0⟩ crowded = [.ofDatum (.int 1)] ∧
      (crowding.after crowded).moment.activity = .running ⟨0⟩ 1015 ⟨crowdingOffer.base, .ofExit .interrupted⟩ ∧
      (crowding.books crowded {}).owned ⟨0⟩ 0 = 1 ∧
      crowdingOffer.AllOrNothing ⟨0⟩ 0 crowding [.ofDatum (.int 1)] (crowding.books crowded {})
        (crowding.after crowded) := by
  have hrecorded : Recorded {} crowding :=
    Recorded.after (.initial {} []) [.demand (.scenario (.newQueue "q" (.bounded 1))),
      .demand (.scenario (.run "a" (.queue (.offerAll (.var "q") (.list [.const (.int 1), .const (.int 2)]))) false)),
      .next, .next]
  have hactive : crowding.moment.activity =
      .running ⟨0⟩ 1023 ⟨crowdingOffer.base, .eval (crowdingOffer.all crowdingOffer.items)⟩ := rfl
  have hbegun : Offers crowdingOffer ⟨0⟩ 0 crowding [] {} crowding := .begin hrecorded rfl .all hactive
  have hpresented : crowding.presented ⟨0⟩ ⟨0⟩ crowded = [.ofDatum (.int 1)] := rfl
  have hactivity : (crowding.after crowded).moment.activity =
      .running ⟨0⟩ 1015 ⟨crowdingOffer.base, .ofExit .interrupted⟩ := rfl
  have hoffers : Offers crowdingOffer ⟨0⟩ 0 crowding [.ofDatum (.int 1)] (crowding.books crowded {})
      (crowding.after crowded) := hbegun.after crowded rfl
  have hall := hoffers.all_or_nothing
  exact ⟨hpresented, hactivity, hall.owned 1015 .interrupted hactivity, hall⟩

end FiberLoop
