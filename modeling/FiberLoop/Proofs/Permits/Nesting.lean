import FiberLoop.Proofs.Permits.Fairness
import FiberLoop.Proofs.Permits.Guarding

/-!
# The effects that a fiber has begun

The effects that a fiber has begun to run with a permit of a semaphore lie around each other: each one but the innermost
is in its body, and the run on which the next one is evaluated lies on top of that. The innermost one is in its
acquisition, or in its body, or the fiber stands where `Guard.Stands` says (`Nested`).
-/

namespace FiberLoop

open Engagement

variable {sem : SemaphoreId} {σ σ' : Engagements} {b b' : Books} {s : Scene} {w : World} {f : FiberId} {left : Nat}
  {stand stand' : Stand} {G : Guard} {rest stack : List Guard} {E : Engagement} {requested cut : Bool}
  {done : DeferredId → Prop} {ask : Ask} {run : Run} {p q : Place} {new : List Booking} {x : Exit Value Value}

/-! ## Steps of an acquire -/

namespace Engagement

/-- A fiber in an acquire is on top of the run on which that is evaluated. -/
theorem Stands.within (h : E.Stands requested done ask stand) : E.base.Within stand.run := by
  cases h with
  | bracketed | closing => exact .refl
  | asking | brought | guarded | told => exact .chain .refl _
  | requesting | given => exact .region (.chain .refl _) _
  | redeeming | waiting | ended => exact .fold (.chain .refl _) _ _
  | shut | resuming | leaving => exact .region .refl _
  | cleaning | cleaned => exact .chain (.region .refl _) _
  | releasing | released => exact .region (.chain (.region .refl _) _) _

theorem Stands.above (h : E.Stands requested done ask stand) : stand.Above E.base := by
  refine ⟨h.within, fun hrun => ?_⟩
  obtain ⟨run, next⟩ := stand
  cases hrun
  exact h.eval_of_base

/-- An acquire begins no effect that runs with a permit, and no body. -/
theorem Stands.pass (h : E.Stands requested done ask stand)
    (hsettle : ∀ x, stand.next = .ofExit x → Guard.settle stand.run.frames.length x stack = stack) :
    Guard.pass sem f stand cut stack = stack := by
  have hexit {run : Run} {y : Exit Value Value} (hs : stand = ⟨run, .ofExit y⟩) : Guard.pass sem f stand cut stack = stack := by
    have hsame := hsettle y (hs ▸ rfl)
    subst hs
    cases y with
    | value v => exact hsame
    | cause c => exact hsame
  cases h with
  | given | brought | told | released | cleaned => exact hexit (y := .value _) rfl
  | ended | leaving => exact hexit rfl
  | waiting t => cases t <;> rfl
  | cleaning h =>
    cases h with
    | kept => rfl
    | undo t => cases t <;> rfl
  | shut h =>
    cases h with
    | kept => rfl
    | undo t => cases t <;> rfl
  | _ => rfl

end Engagement

/-! ## What a step books -/

namespace Guard

theorem credit_of_quiet (h : ∀ e ∈ new, e.isTaken = false ∧ e.isRelease = false) : credit new stack = stack := by
  induction new with
  | nil => rfl
  | cons e new ih =>
    obtain ⟨⟨htaken, hrelease⟩, hnew⟩ := List.forall_mem_cons.1 h
    cases e with
    | kept => cases htaken
    | returned => cases hrelease
    | _ => exact ih hnew

/-- Who takes a permit without having tried for it holds it. -/
theorem credit_cons (h : ∀ e ∈ new, (∀ g, e ≠ .tried g) ∧ e.isRelease = false) :
    credit new (G :: rest) = { G with holds := G.holds || new.any Booking.isTaken } :: rest := by
  induction new generalizing G with
  | nil => rw [List.any_nil, Bool.or_false, credit]
  | cons e new ih =>
    obtain ⟨⟨htried, hrelease⟩, hnew⟩ := List.forall_mem_cons.1 h
    cases e with
    | tried g => exact absurd rfl (htried g)
    | returned => cases hrelease
    | kept g =>
      have hkept : credit (.kept g :: new) (G :: rest) = credit new ({ G with holds := true } :: rest) := rfl
      rw [hkept, ih hnew]
      simp [Booking.isTaken]
    | _ => exact ih hnew

end Guard

/-- What a step books for a semaphore, the fiber has caused. -/
theorem Scene.of_book (hstand : s.moment.activity = .running f (left + 1) stand) (b : Books) (sem : SemaphoreId) :
    (s.book .next b).of sem = b.of sem ++ s.news sem .next b ∧
      ∀ e ∈ s.news sem .next b, ∃ c run, stand.deed = .call c run ∧ b.Caused f c sem e := by
  obtain ⟨sem', new, hadds, hcaused⟩ := book_adds hstand b
  by_cases hsem : sem = sem'
  · subst hsem
    rw [news, hadds.of_self, List.drop_left]
    exact ⟨rfl, hcaused⟩
  · rw [news, hadds.of_ne hsem, List.drop_length]
    exact ⟨(List.append_nil _).symm, List.forall_mem_nil _⟩

theorem Scene.news_of_same (h : s.book .next b = b) : s.news sem .next b = [] := by
  rw [news, h, List.drop_length]

/-- A step that uses a semaphore in no way, and keeps no permit of it. -/
theorem Scene.news_quiet (hstand : s.moment.activity = .running f (left + 1) stand)
    (hclaim : ∀ claim, b.claim? f = some claim → claim.semaphore ≠ sem) (htouches : stand.touches sem = false) :
    ∀ e ∈ s.news sem .next b, e.isTaken = false ∧ e.isRelease = false := by
  intro e he
  obtain ⟨c, run, hdeed, hcaused⟩ := (s.of_book hstand b sem).2 e he
  have hthunk {op : Operation} (hc : c = .thunk (.perform op)) : stand = ⟨run, .eval (.suspend (.perform op))⟩ :=
    Stand.of_thunk (hc ▸ hdeed)
  cases hcaused with
  | tried hc | returned hc =>
    rw [Stand.touches, hthunk hc] at htouches
    simp at htouches
  | kept hclaim' hsem => exact absurd hsem (hclaim _ hclaim')
  | _ => exact ⟨rfl, rfl⟩

theorem Ask.semaphore_of_claim? {claim : Claim} (h : ask.claim? f sem = some claim) : claim.semaphore = sem := by
  cases ask <;> cases h <;> rfl

/-- What a fiber in an acquire books. -/
theorem Engagement.At.news {m : Moment} {ask' : Ask} {ws ws' : List (Nat × Callback)}
    (hstand : s.moment.activity = .running f (left + 1) stand) (hat : E.At f b s.moment ask ws p)
    (hat' : E.At f (s.book .next b) m ask' ws' q) :
    ask'.bookings f = ask.bookings f ++ (s.news E.semaphore .next b).filter (·.fiber? = some f) := by
  have hinj (e e' : Booking) (h : (E.semaphore, e) = (E.semaphore, e')) : e = e' := (Prod.mk.inj h).2
  obtain ⟨sem', new, hadds, -⟩ := Scene.book_adds hstand b
  have hsince := hadds.since f hat.start
  rw [hat'.booked, hat.booked] at hsince
  by_cases hsem : E.semaphore = sem'
  · subst hsem
    rw [Scene.news, hadds.of_self, List.drop_left]
    exact (List.map_inj_right hinj).1 (hsince.trans List.map_append.symm)
  · have hnone : new.filter (·.fiber? = some f) = [] := by
      refine List.eq_nil_iff_forall_not_mem.2 fun e he => hsem ?_
      have hmem : (sem', e) ∈ (ask'.bookings f).map (E.semaphore, ·) :=
        hsince ▸ List.mem_append_right _ (List.mem_map_of_mem he)
      obtain ⟨e', -, hsame⟩ := List.mem_map.1 hmem
      exact (Prod.mk.inj hsame).1
    rw [hnone, List.map_nil, List.append_nil] at hsince
    rw [Scene.news, hadds.of_ne hsem, List.drop_length, List.filter_nil, List.append_nil]
    exact (List.map_inj_right hinj).1 hsince

/-- In an acquire one permit is taken at most, and none is tried for or released. -/
theorem Ask.bookings_once (ask : Ask) (f : FiberId) : (ask.bookings f).countP Booking.isTaken ≤ 1 ∧
    ∀ e ∈ ask.bookings f, (∀ g, e ≠ .tried g) ∧ e.isRelease = false := by
  have hticket (t : Option DeferredId) : (ticket f t).isTaken = false ∧ (∀ g, ticket f t ≠ .tried g) ∧
      (ticket f t).isRelease = false := by
    cases t <;> exact ⟨rfl, fun _ => Booking.noConfusion, rfl⟩
  have hverdict (t : Option DeferredId) (v : Verdict) : (∀ g, verdict f t v ≠ .tried g) ∧
      (verdict f t v).isRelease = false := by
    cases v with
    | kept | undone => exact ⟨fun _ => Booking.noConfusion, rfl⟩
    | abandoned => cases t <;> exact ⟨fun _ => Booking.noConfusion, rfl⟩
  cases ask with
  | asking => exact ⟨Nat.zero_le _, List.forall_mem_nil _⟩
  | holding t | undoing t =>
    refine ⟨?_, List.forall_mem_singleton.2 (hticket t).2⟩
    rw [bookings, List.countP_singleton, (hticket t).1]
    exact Nat.zero_le _
  | settled t v =>
    refine ⟨?_, List.forall_mem_cons.2 ⟨(hticket t).2, List.forall_mem_singleton.2 (hverdict t v)⟩⟩
    rw [bookings, List.countP_cons_of_neg (Bool.eq_false_iff.1 (hticket t).1), List.countP_singleton]
    split
    · exact Nat.le_refl _
    · exact Nat.zero_le _

/-! ## What a step begins -/

namespace Guard

/-- Where no body begins and none ends, a step begins at most one effect that runs with a permit. -/
theorem pass_cases (hsettle : ∀ x, stand.next = .ofExit x → settle stand.run.frames.length x stack = stack)
    (hstart : start stack = stack) :
    pass sem f stand cut stack = stack ∨ ∃ body, stand.next = .eval (.withPermit sem body) ∧
      pass sem f stand cut stack = { fiber := f, base := stand.run, body := body } :: stack := by
  unfold pass
  split
  · rename_i v hnext
    exact Or.inl (hsettle (.value v) hnext)
  · rename_i c hnext
    exact Or.inl (hsettle (.cause c) hnext)
  · rw [hstart, ite_self]
    exact Or.inl rfl
  · rename_i e _ hnext
    split
    · rename_i s' body hguarded
      split
      · rename_i hsem
        cases hsem
        cases Effect.eq_of_guarded? hguarded
        exact Or.inr ⟨body, hnext, rfl⟩
      · exact Or.inl rfl
    · exact Or.inl rfl

end Guard

/-! ## Bodies in progress -/

/-- Each of these effects is in its body, on whose run the next effect is evaluated; the given run lies on top of the
innermost one. -/
inductive Around (sem : SemaphoreId) (f : FiberId) : Run → List Guard → Prop where
  | nil {run : Run} : Around sem f run []
  | cons {run : Run} {G : Guard} {rest : List Guard} (hfiber : G.fiber = f) (hstage : G.stage = .inside)
    (hholds : G.holds = true) (hin : (G.inner sem).Within run) (h : Around sem f G.base rest) :
    Around sem f run (G :: rest)

namespace Around

theorem of_mem (h : Around sem f run stack) (hG : G ∈ stack) :
    G.fiber = f ∧ G.isInside = true ∧ G.holds = true ∧ (G.inner sem).Within run := by
  induction h with
  | nil => cases hG
  | @cons run G' rest hfiber hstage hholds hin h ih =>
    rcases List.mem_cons.1 hG with rfl | hrest
    · exact ⟨hfiber, by rw [Guard.isInside, hstage], hholds, hin⟩
    · obtain ⟨hfiber', hinside, hholds', hin'⟩ := ih hrest
      have hbase : G'.base.Within run := (Run.Within.fold (.chain .refl _) _ _).trans hin
      exact ⟨hfiber', hinside, hholds', hin'.trans hbase⟩

/-- A body that is in progress does not begin. -/
theorem start (h : Around sem f run stack) : Guard.start stack = stack := by
  cases h with
  | nil => rfl
  | cons _ hstage => rw [Guard.start, hstage]

/-- An exit that comes to another run than that of the innermost body ends nothing. -/
theorem settle (h : Around sem f run stack) (hrun : ∀ G rest, stack = G :: rest → run ≠ G.inner sem)
    (x : Exit Value Value) : Guard.settle run.frames.length x stack = stack := by
  cases h with
  | nil => rfl
  | @cons _ G rest hfiber hstage hholds hin h =>
    have hlt : (G.inner sem).frames.length < run.frames.length := hin.length_lt (hrun G rest rfl)
    have hinside : G.isInside = true := by rw [Guard.isInside, hstage]
    have hheight : run.frames.length ≠ G.base.frames.length + 2 := Nat.ne_of_gt hlt
    rw [Guard.settle, if_pos hinside, if_neg hheight]

end Around

/-! ## The stack of a fiber -/

/-- The effects that a fiber has begun to run with a permit of a semaphore, innermost first. -/
inductive Nested (sem : SemaphoreId) (σ : Engagements) (b : Books) (s : Scene) (f : FiberId) : List Guard → Prop where
  /-- The fiber is in the body of the innermost one, or in none. -/
  | inside {stack : List Guard}
    (hother : ∀ E, σ f = some E → E.semaphore ≠ sem ∧ Around sem f E.base stack)
    (hstack : stack ≠ [] → ∃ p run, Fits f (s.moment.view f) p ∧ p.standing.run? = some run ∧ Around sem f run stack) :
    Nested sem σ b s f stack
  /-- The fiber is in the acquisition of the innermost one. -/
  | acquiring {G : Guard} {rest : List Guard} {E : Engagement} (hE : σ f = some E) (hbase : E.base = G.waiting sem)
    (hsem : E.semaphore = sem) (hfiber : G.fiber = f) (hstage : G.stage = .before)
    (hholds : (b.since f E.start).countP (·.2.isTaken) = G.holds.toNat) (h : Around sem f G.base rest) :
    Nested sem σ b s f (G :: rest)
  /-- The fiber has something else to do for the innermost one. -/
  | passing {G : Guard} {rest : List Guard} {p : Place} {stand : Stand} (hfree : σ f = none)
    (hfits : Fits f (s.moment.view f) p) (hp : p.standing = .ready stand) (hfiber : G.fiber = f)
    (hstands : G.Stands sem (s.moment.world.flagged f) stand) (h : Around sem f G.base rest) :
    Nested sem σ b s f (G :: rest)

namespace Nested

theorem fiber (h : Nested sem σ b s f stack) (hG : G ∈ stack) : G.fiber = f := by
  cases h with
  | inside hother hstack =>
    obtain ⟨p, run, -, -, haround⟩ := hstack (List.ne_nil_of_mem hG)
    exact (haround.of_mem hG).1
  | acquiring _ _ _ hfiber _ _ h | passing _ _ _ hfiber _ h =>
    rcases List.mem_cons.1 hG with rfl | hrest
    · exact hfiber
    · exact (h.of_mem hrest).1

end Nested

/-! ## Where a step leads -/

/-- A fiber that runs is ready to go on from its stand. -/
theorem Orderly.ready (h : Orderly σ b s) (hstand : s.moment.activity = .running f left stand) :
    ∃ p, Fits f (s.moment.view f) p ∧ p.standing = .ready stand := by
  obtain ⟨⟨w, a⟩, kept⟩ := s
  cases hstand
  obtain ⟨p, hp⟩ := h.fits rfl
  have hview : Fits f (Moment.view f ⟨w, .running f left stand⟩) p := by rwa [Moment.view_self rfl]
  exact ⟨p, hview, hview.ready_of_running rfl⟩

theorem World.flagged_of_pending {masks : Masks} (h : w.interruptPending f masks = true) : w.flagged f = true :=
  (Bool.and_eq_true_iff.1 h).2

namespace Scene

variable {c : Call} (hstand : s.moment.activity = .running f (left + 1) stand) (b : Books)
include hstand

theorem play_of_cut (hdeed : stand.deed = .call c run) (hcuts : s.moment.world.cuts f c run = true) :
    (s.play .next).moment = ⟨s.moment.world, .running f left ⟨run, .cause .interrupted⟩⟩ ∧ s.book .next b = b := by
  obtain ⟨⟨w, a⟩, kept⟩ := s
  cases hstand
  simp only [play, Moment.next, World.act, book, hdeed]
  rw [if_pos hcuts, if_pos hcuts]
  exact ⟨rfl, rfl⟩

theorem play_of_call (hdeed : stand.deed = .call c run) (hcuts : s.moment.world.cuts f c run = false) :
    (s.play .next).moment = ⟨(s.moment.world.called c run).2, .running f left (s.moment.world.called c run).1⟩ ∧
      s.book .next b = b.record f c s.moment.world := by
  obtain ⟨⟨w, a⟩, kept⟩ := s
  cases hstand
  have hnot : ¬ w.cuts f c run = true := Bool.eq_false_iff.1 hcuts
  simp only [play, Moment.next, World.act, book, hdeed]
  rw [if_neg hnot, if_neg hnot]
  exact ⟨rfl, rfl⟩

/-- A step in which nothing happens but that the fiber goes to its next stand. -/
theorem play_of_goes (hgoes : stand.Goes stand') :
    (s.play .next).moment = ⟨s.moment.world, .running f left stand'⟩ ∧ s.book .next b = b := by
  cases hgoes with
  | move hdeed =>
    obtain ⟨⟨w, a⟩, kept⟩ := s
    cases hstand
    simp only [play, Moment.next, World.act, book]
    rw [hdeed]
    exact ⟨rfl, rfl⟩
  | @call c hdeed huncut hact hrecord =>
    have hcuts : s.moment.world.cuts f c stand'.run = false := by
      rcases huncut with hyields | hmasked
      · rw [World.cuts, hyields, Bool.false_and]
      · exact World.cuts_of_masked hmasked s.moment.world f c
    have hcalled : s.moment.world.called c stand'.run = (stand', s.moment.world) := by
      rw [World.called, hact]
      rfl
    obtain ⟨hmoment, hbook⟩ := play_of_call hstand b hdeed hcuts
    rw [hmoment, hbook, hcalled, hrecord]
    exact ⟨rfl, rfl⟩

/-- A fiber that is about to wait begins to wait, unless it is interrupted. -/
theorem activity_of_register {r : Registration} (hdeed : stand.deed = .register r) :
    (s.play .next).moment.activity = .running f left ⟨stand.run, .cause .interrupted⟩ ∨
      ∃ epoch, (s.play .next).moment.activity = .registering f left stand.run r epoch := by
  obtain ⟨⟨w, a⟩, kept⟩ := s
  cases hstand
  simp only [play, Moment.next, World.act, hdeed]
  split
  · exact Or.inl rfl
  · exact Or.inr ⟨_, rfl⟩

end Scene

/-- A fiber that stands above a run is on top of it after a step. -/
theorem Orderly.climbs {s' : Scene} (h : Orderly σ' b' s') (hs : s' = s.play .next)
    (hstand : s.moment.activity = .running f (left + 1) stand) (habove : stand.Above run) :
    ∃ q run', Fits f (s'.moment.view f) q ∧ q.standing.run? = some run' ∧ run.Within run' := by
  have hactivity : s'.moment.activity.fiber? = some f ∧ ∃ run', s'.moment.activity.run? = some run' ∧
      run.Within run' := by
    subst hs
    obtain ⟨⟨w, a⟩, kept⟩ := s
    cases hstand
    simp only [Scene.play, Moment.next, World.act]
    cases hdeed : stand.deed with
    | move s' => exact ⟨rfl, _, rfl, habove.move hdeed⟩
    | call c run' =>
      dsimp only
      split
      · exact ⟨rfl, _, rfl, habove.call hdeed⟩
      · exact ⟨rfl, _, rfl, habove.call hdeed⟩
    | register r =>
      dsimp only
      split
      · exact ⟨rfl, _, rfl, habove.1⟩
      · exact ⟨rfl, _, rfl, habove.1⟩
    | exit x => exact absurd hdeed (habove.not_exit x)
  obtain ⟨hf, run', hrun, hwithin⟩ := hactivity
  obtain ⟨⟨w, a⟩, kept⟩ := s'
  obtain ⟨q, hq⟩ := h.fits hf
  have hview : Fits f (Moment.view f ⟨w, a⟩) q := by rwa [Moment.view_self hf]
  exact ⟨q, run', hview, (hview.run?_of_activity hf).trans hrun, hwithin⟩

/-! ## A step of the fiber -/

theorem Guard.countP_holds (G : Guard) (rest : List Guard) :
    (G :: rest).countP (·.holds) = rest.countP (·.holds) + G.holds.toNat := by
  rw [List.countP_cons]
  cases G.holds <;> rfl

/-- What is there once at most is there, or it is not there at all. -/
theorem toNat_or_any {a : Bool} {P : Booking → Bool} (h : a.toNat + new.countP P ≤ 1) :
    (a || new.any P).toNat = a.toNat + new.countP P := by
  cases hany : new.any P with
  | false =>
    have hnone : new.countP P = 0 := List.countP_eq_zero.2 (by simpa using hany)
    rw [hnone, Bool.or_false, Nat.add_zero]
  | true =>
    have hpos : 0 < new.countP P := List.countP_pos_iff.2 (by simpa using hany)
    rw [Bool.or_true, Bool.toNat_true]
    omega

/-- The guards of a fiber after a step of its own, with what it has booked. -/
structure Steps (sem : SemaphoreId) (σ' : Engagements) (b : Books) (s : Scene) (f : FiberId)
    (stack stack' : List Guard) : Prop where
  nested : Nested sem σ' (s.book .next b) (s.play .next) f stack'
  count : stack'.countP (·.holds) + (s.news sem .next b).countP Booking.isRelease =
    stack.countP (·.holds) + (s.news sem .next b).countP Booking.isTaken

section Step

variable (hadvance : Advance σ b s σ' (s.book .next b) (s.play .next))
  (hstand : s.moment.activity = .running f (left + 1) stand)
include hadvance hstand

/-- No acquire begins but at its first step. -/
theorem Advance.free (hfree : σ f = none) (hbegins : ∀ sem', ¬ stand.Begins sem') : σ' f = none := by
  cases hE : σ' f with
  | none => rfl
  | some E =>
    obtain ⟨-, left', hbegan⟩ := hadvance.began f E hfree hE
    cases hstand.symm.trans hbegan
    exact absurd rfl (hbegins E.semaphore)

namespace Nested

/-- A fiber goes on outside of the acquisition and of the body. -/
theorem go (hfree : σ f = none) (hgoes : stand.Goes stand') (hbegins : ∀ sem', ¬ stand.Begins sem')
    (hpass : Guard.pass sem f stand (s.moment.world.interruptPending f stand.run.masks) stack = G :: rest)
    (hcount : (G :: rest).countP (·.holds) = stack.countP (·.holds))
    (hfiber : G.fiber = f) (hstands : G.Stands sem (s.moment.world.flagged f) stand')
    (haround : Around sem f G.base rest) : Steps sem σ' b s f stack (s.pass sem f stand b stack) := by
  obtain ⟨hmoment, hbook⟩ := Scene.play_of_goes hstand b hgoes
  have hnews : s.news sem .next b = [] := Scene.news_of_same hbook
  have hsame : s.pass sem f stand b stack = G :: rest := by
    rw [Scene.pass, hnews, hpass, Guard.credit]
  have hactivity : (s.play .next).moment.activity = .running f left stand' := by rw [hmoment]
  obtain ⟨p, hp, hready⟩ := hadvance.orderly.ready hactivity
  refine ⟨?_, by rw [hnews, hsame, hcount]; rfl⟩
  rw [hsame]
  exact .passing (hadvance.free hstand hfree hbegins) hp hready hfiber (by rwa [hmoment]) haround

/-- The acquisition begins. -/
theorem acquire (hfree : σ f = none) (hs : stand = ⟨G.waiting sem, .eval (.acquirePermit sem)⟩)
    (hstage : G.stage = .before) (hholds : G.holds = false) (hfiber : G.fiber = f) (haround : Around sem f G.base rest) :
    Steps sem σ' b s f (G :: rest) (s.pass sem f stand b (G :: rest)) := by
  subst hs
  obtain ⟨hmoment, hbook⟩ := Scene.play_of_goes hstand b (.move rfl)
  have hnews : s.news sem .next b = [] := Scene.news_of_same hbook
  have hsame : s.pass sem f ⟨G.waiting sem, .eval (.acquirePermit sem)⟩ b (G :: rest) = G :: rest := by
    rw [Scene.pass, hnews, Guard.credit]
    rfl
  have hengaged : σ' f ≠ none := hadvance.orderly.engaged_of_asking (by rw [hmoment])
  obtain ⟨E, hE⟩ := Option.ne_none_iff_exists'.1 hengaged
  obtain ⟨hstart, left', hbegan⟩ := hadvance.began f E hfree hE
  have hacquire : (⟨G.waiting sem, .eval (.acquirePermit sem)⟩ : Stand) = ⟨E.base, .eval (.acquirePermit E.semaphore)⟩ :=
    (Activity.running.inj (hstand.symm.trans hbegan)).2.2
  obtain ⟨hbase, hsem⟩ : G.waiting sem = E.base ∧ sem = E.semaphore := by
    injection hacquire with hbase hnext
    cases hnext
    exact ⟨hbase, rfl⟩
  have hsince : (s.book .next b).since f E.start = [] := by
    rw [hbook, Books.since, hstart, List.drop_length, List.filter_nil]
  refine ⟨?_, by rw [hnews, hsame]; rfl⟩
  rw [hsame]
  exact .acquiring hE hbase.symm hsem.symm hfiber hstage (by rw [hsince, hholds]; rfl) haround

/-- The body begins, unless the fiber is interrupted. -/
theorem begin (hfree : σ f = none)
    (hs : stand = ⟨G.inner sem, .eval (.suspend (.continue (.proceed G.body) .null))⟩) (hstage : G.stage = .before)
    (hholds : G.holds = true) (hfiber : G.fiber = f) (haround : Around sem f G.base rest) :
    Steps sem σ' b s f (G :: rest) (s.pass sem f stand b (G :: rest)) := by
  subst hs
  have hfree' : σ' f = none := by
    refine hadvance.free hstand hfree fun _ hbegins => ?_
    cases hbegins
  cases hpending : s.moment.world.interruptPending f (G.inner sem).masks with
  | true =>
    obtain ⟨hmoment, hbook⟩ := Scene.play_of_cut hstand b (c := .thunk (.continue (.proceed G.body) .null)) rfl
      (by rw [World.cuts, hpending]; rfl)
    have hnews : s.news sem .next b = [] := Scene.news_of_same hbook
    have hsame : s.pass sem f ⟨G.inner sem, .eval (.suspend (.continue (.proceed G.body) .null))⟩ b (G :: rest) =
        G :: rest := by
      rw [Scene.pass, hnews, hpending]
      rfl
    obtain ⟨p, hp, hready⟩ := hadvance.orderly.ready (by rw [hmoment])
    have howes : G.Owes ((s.play .next).moment.world.flagged f) .interrupted := by
      rw [hmoment]
      exact Or.inr ⟨hstage, rfl, World.flagged_of_pending hpending⟩
    refine ⟨?_, by rw [hnews, hsame]; rfl⟩
    rw [hsame]
    exact .passing hfree' hp hready hfiber (.closing howes hholds (.ended (x := .interrupted))) haround
  | false =>
    obtain ⟨hmoment, hbook⟩ := Scene.play_of_call hstand b (c := .thunk (.continue (.proceed G.body) .null)) rfl
      (by rw [World.cuts, hpending]; rfl)
    have hnews : s.news sem .next b = [] := Scene.news_of_same hbook
    have hbegun : s.pass sem f ⟨G.inner sem, .eval (.suspend (.continue (.proceed G.body) .null))⟩ b (G :: rest) =
        { G with stage := .inside } :: rest := by
      have hstart : Guard.start (G :: rest) = { G with stage := .inside } :: rest := by rw [Guard.start, hstage]
      rw [Scene.pass, hnews, hpending, ← hstart]
      rfl
    have hactivity : (s.play .next).moment.activity = .running f left ⟨G.inner sem, .eval G.body⟩ := by
      rw [hmoment]
      rfl
    obtain ⟨p, hp, hready⟩ := hadvance.orderly.ready hactivity
    refine ⟨?_, by rw [hnews, hbegun]; rfl⟩
    rw [hbegun]
    refine .inside (fun E hE => ?_) fun _ => ⟨p, G.inner sem, hp, by rw [hready]; rfl, ?_⟩
    · cases hfree'.symm.trans hE
    · exact .cons hfiber rfl hholds .refl haround

/-- The permit is returned. -/
theorem give (hσ : Orderly σ b s) (hfree : σ f = none)
    (hs : stand = ⟨(G.base.releasing x).enter .uninterruptible, .eval (.perform (.releasePermit sem))⟩)
    (howes : G.Owes (s.moment.world.flagged f) x) (hholds : G.holds = true) (hfiber : G.fiber = f)
    (haround : Around sem f G.base rest) : Steps sem σ' b s f (G :: rest) (s.pass sem f stand b (G :: rest)) := by
  subst hs
  have hfree' : σ' f = none := by
    refine hadvance.free hstand hfree fun _ hbegins => ?_
    cases hbegins
  obtain ⟨hmoment, hbook⟩ := Scene.play_of_call hstand b (c := .thunk (.perform (.releasePermit sem))) rfl
    (World.cuts_of_masked (Guard.masked_enter _ _) _ _ _)
  have hrecord : s.book .next b = b.putBack sem (.returned f) s.moment.world := by
    rw [hbook, Books.record, hσ.books.claim?_of_free hfree]
    rfl
  have hadds : b.Adds f sem (.returned f :: (s.moment.world.nextInLine? sem).toList.map .delivered) (s.book .next b) := by
    rw [hrecord]
    exact Books.adds_write (Books.mine_putBack rfl _)
  have hnews : s.news sem .next b = .returned f :: (s.moment.world.nextInLine? sem).toList.map .delivered := by
    rw [Scene.news, hadds.of_self, List.drop_left]
  have hgiven : s.pass sem f ⟨(G.base.releasing x).enter .uninterruptible, .eval (.perform (.releasePermit sem))⟩ b
      (G :: rest) = { G with holds := false } :: rest := by
    rw [Scene.pass, hnews]
    have hreturned : Guard.credit (.returned f :: (s.moment.world.nextInLine? sem).toList.map .delivered) (G :: rest) =
        Guard.credit ((s.moment.world.nextInLine? sem).toList.map .delivered) ({ G with holds := false } :: rest) := rfl
    refine hreturned.trans (Guard.credit_of_quiet fun e he => ?_)
    obtain ⟨l, -, rfl⟩ := List.mem_map.1 he
    exact ⟨rfl, rfl⟩
  have hactivity : (s.play .next).moment.activity =
      .running f left ⟨(G.base.releasing x).enter .uninterruptible, .value .null⟩ := by
    rw [hmoment]
    rfl
  obtain ⟨p, hp, hready⟩ := hadvance.orderly.ready hactivity
  have hflagged (hflag : s.moment.world.flagged f = true) := hσ.occurs.flagged_play hflag .next
  refine ⟨?_, ?_⟩
  · rw [hgiven]
    exact .passing hfree' hp hready hfiber (.leaving (howes.mono hflagged) rfl .given) haround
  · rw [hgiven, hnews, List.countP_cons, List.countP_cons, List.countP_cons, List.countP_cons,
      Books.countP_delivered fun _ => rfl, Books.countP_delivered fun _ => rfl, hholds]
    simp [Booking.isRelease, Booking.isTaken]

/-- Nothing is begun and nothing ends. -/
theorem stay (hquiet : ∀ e ∈ s.news sem .next b, e.isTaken = false ∧ e.isRelease = false)
    (hpass : Guard.pass sem f stand (s.moment.world.interruptPending f stand.run.masks) stack = stack)
    (hother : ∀ E, σ' f = some E → E.semaphore ≠ sem ∧ Around sem f E.base stack)
    (haround : Around sem f stand.run stack)
    (habove : ∀ G rest, stack = G :: rest → stand.Above (G.inner sem)) :
    Steps sem σ' b s f stack (s.pass sem f stand b stack) := by
  have hsame : s.pass sem f stand b stack = stack := by
    rw [Scene.pass, hpass, Guard.credit_of_quiet hquiet]
  have htaken : (s.news sem .next b).countP Booking.isTaken = 0 :=
    List.countP_eq_zero.2 fun e he => Bool.eq_false_iff.1 (hquiet e he).1
  have hrelease : (s.news sem .next b).countP Booking.isRelease = 0 :=
    List.countP_eq_zero.2 fun e he => Bool.eq_false_iff.1 (hquiet e he).2
  refine ⟨?_, by rw [hsame, htaken, hrelease]⟩
  rw [hsame]
  refine .inside hother fun hne => ?_
  cases haround with
  | nil => exact absurd rfl hne
  | cons hfiber hstage hholds hin h =>
    obtain ⟨q, run', hq, hrun, hwithin⟩ := hadvance.orderly.climbs rfl hstand (habove _ _ rfl)
    exact ⟨q, run', hq, hrun, .cons hfiber hstage hholds hwithin h⟩

/-- The body of the innermost effect has ended. -/
theorem told (hfree : σ f = none) (hs : stand = ⟨G.inner sem, .ofExit x⟩)
    (haround : Around sem f (G.inner sem) (G :: rest)) :
    Steps sem σ' b s f (G :: rest) (s.pass sem f stand b (G :: rest)) := by
  subst hs
  cases haround with
  | cons hfiber hstage hholds hin h =>
    have hclosing : ({ G with stage := .after x } : Guard).Closing sem x ⟨G.inner sem, .ofExit x⟩ :=
      .ended (G := { G with stage := .after x })
    have hinside : G.isInside = true := by rw [Guard.isInside, hstage]
    have hsettle : Guard.settle (G.inner sem).frames.length x (G :: rest) = { G with stage := .after x } :: rest := by
      have hheight : (G.inner sem).frames.length = G.base.frames.length + 2 := rfl
      rw [Guard.settle, if_pos hinside, if_pos hheight]
    have hpass : Guard.pass sem f ⟨G.inner sem, .ofExit x⟩
        (s.moment.world.interruptPending f (G.inner sem).masks) (G :: rest) = { G with stage := .after x } :: rest := by
      cases x with
      | value v => exact hsettle
      | cause c => exact hsettle
    rcases hclosing.next with ⟨stand', hgoes, h'⟩ | hgive
    · exact go hadvance hstand hfree hgoes hclosing.not_begins hpass (by rw [List.countP_cons, List.countP_cons]) hfiber
        (.closing (Or.inl rfl) hholds h') h
    · have hnext := congrArg Stand.next hgive
      cases x <;> cases hnext

/-- A fiber takes a step in the body of the innermost effect, or in none. -/
theorem walk (hσ : Orderly σ b s) (hother : ∀ E, σ f = some E → E.semaphore ≠ sem ∧ Around sem f E.base stack)
    (haround : Around sem f stand.run stack) (htouches : stand.touches sem = false) :
    Steps sem σ' b s f stack (s.pass sem f stand b stack) := by
  have hother' (E : Engagement) (hE : σ' f = some E) : E.semaphore ≠ sem ∧ Around sem f E.base stack := by
    cases hf : σ f with
    | none =>
      obtain ⟨-, left', hbegan⟩ := hadvance.began f E hf hE
      have hs : stand = ⟨E.base, .eval (.acquirePermit E.semaphore)⟩ :=
        (Activity.running.inj (hstand.symm.trans hbegan)).2.2
      subst hs
      refine ⟨?_, haround⟩
      rintro rfl
      have hacquires : Stand.touches E.semaphore ⟨E.base, .eval (.acquirePermit E.semaphore)⟩ = true := decide_eq_true rfl
      cases hacquires.symm.trans htouches
    | some E' =>
      rcases hadvance.ended f E' hf with hsame | ⟨hnone, -⟩
      · cases hE.symm.trans hsame
        exact hother E hf
      · cases hE.symm.trans hnone
  have hclaim (claim : Claim) (hclaim : b.claim? f = some claim) : claim.semaphore ≠ sem := by
    cases hf : σ f with
    | none => cases (hσ.books.claim?_of_free hf).symm.trans hclaim
    | some E =>
      obtain ⟨ask, ws, p, hat⟩ := hσ.engaged f E hf
      have hsame := Ask.semaphore_of_claim? (hat.claim.symm.trans hclaim)
      exact hsame ▸ (hother E hf).1
  have hquiet := Scene.news_quiet hstand hclaim htouches
  have hexit {base : Run} {x : Exit Value Value} (habove : stand.Above base) (hnext : stand.next = .ofExit x) :
      stand.run ≠ base := by
    obtain ⟨run, next⟩ := stand
    cases hnext
    exact habove.run_ne fun e => by cases x <;> exact Next.noConfusion
  cases hf : σ f with
  | some E =>
    obtain ⟨ask, ws, p, hat⟩ := hσ.engaged f E hf
    obtain ⟨⟨w, a⟩, kept⟩ := s
    cases hstand
    have hstands := hat.stands.2
    have habove (G : Guard) (rest : List Guard) (hstack : stack = G :: rest) : stand.Above (G.inner sem) := by
      have hbase : (G.inner sem).Within E.base := ((hother E hf).2.of_mem (hstack ▸ List.mem_cons_self)).2.2.2
      exact hstands.above.trans hbase
    refine stay hadvance rfl hquiet (hstands.pass fun x hnext => ?_) hother' haround habove
    exact haround.settle (fun G rest hstack => hexit (habove G rest hstack) hnext) x
  | none =>
    by_cases hfeeds : ∃ G rest x, stack = G :: rest ∧ stand = ⟨G.inner sem, .ofExit x⟩
    · obtain ⟨G, rest, x, rfl, rfl⟩ := hfeeds
      exact told hadvance hstand hf rfl haround
    · have habove (G : Guard) (rest : List Guard) (hstack : stack = G :: rest) : stand.Above (G.inner sem) := by
        have hin : (G.inner sem).Within stand.run := (haround.of_mem (hstack ▸ List.mem_cons_self)).2.2.2
        exact (Stand.above_or_feeds hin stand.next).resolve_right fun ⟨x, hx⟩ => hfeeds ⟨G, rest, x, hstack, hx⟩
      have hsettle (x : Exit Value Value) (hnext : stand.next = .ofExit x) :
          Guard.settle stand.run.frames.length x stack = stack :=
        haround.settle (fun G rest hstack => hexit (habove G rest hstack) hnext) x
      rcases Guard.pass_cases hsettle haround.start with hsame | ⟨body, hnext, hpushed⟩
      · exact stay hadvance hstand hquiet hsame hother' haround habove
      · have hgoes : stand.Goes ⟨stand.run.push (.chain (.proceed (Guard.second { fiber := f, base := stand.run, body := body } sem))),
            .eval (.acquirePermit sem)⟩ := .move (by unfold Stand.deed; rw [hnext]; rfl)
        have hbegins (sem' : SemaphoreId) (hbegins : stand.Begins sem') : False := by
          cases hnext.symm.trans hbegins
        exact go hadvance hstand hf hgoes hbegins hpushed rfl rfl (.begin rfl rfl) haround

/-- The effect is over. -/
theorem out (hσ : Orderly σ b s) (hfree : σ f = none) (hs : stand = ⟨G.base, .ofExit x⟩)
    (hinside : G.isInside = false) (hholds : G.holds = false) (haround : Around sem f G.base rest) :
    Steps sem σ' b s f (G :: rest) (s.pass sem f stand b (G :: rest)) := by
  subst hs
  have hsettle (y : Exit Value Value) :
      Guard.settle G.base.frames.length y (G :: rest) = Guard.settle G.base.frames.length y rest := by
    rw [Guard.settle, if_neg (by simp [hinside]), if_pos rfl]
  have hpass : s.pass sem f ⟨G.base, .ofExit x⟩ b (G :: rest) = s.pass sem f ⟨G.base, .ofExit x⟩ b rest := by
    unfold Scene.pass
    cases x with
    | value v => exact congrArg _ (hsettle _)
    | cause c => exact congrArg _ (hsettle _)
  have hwalk : Steps sem σ' b s f rest (s.pass sem f ⟨G.base, .ofExit x⟩ b rest) := by
    refine walk hadvance hstand hσ (fun E hE => ?_) haround (by cases x <;> rfl)
    cases hfree.symm.trans hE
  rw [hpass]
  exact ⟨hwalk.nested, by rw [hwalk.count, List.countP_cons_of_neg (by simp [hholds])]⟩

/-- A fiber goes on with the acquisition. -/
theorem wait (hσ : Orderly σ b s) (hE : σ f = some E) (hE' : σ' f = some E) (hbase : E.base = G.waiting E.semaphore)
    (hpass : Guard.pass E.semaphore f stand (s.moment.world.interruptPending f stand.run.masks) (G :: rest) = G :: rest)
    (hfiber : G.fiber = f) (hstage : G.stage = .before)
    (hholds : (b.since f E.start).countP (·.2.isTaken) = G.holds.toNat) (haround : Around E.semaphore f G.base rest) :
    Steps E.semaphore σ' b s f (G :: rest) (s.pass E.semaphore f stand b (G :: rest)) := by
  obtain ⟨ask, ws, p, hat⟩ := hσ.engaged f E hE
  obtain ⟨ask', ws', p', hat'⟩ := hadvance.orderly.engaged f E hE'
  have hbookings := hat.news hstand hat'
  obtain ⟨honce, hnone⟩ := ask'.bookings_once f
  have hcaused := (s.of_book hstand b E.semaphore).2
  have hmine (e : Booking) (he : e ∈ s.news E.semaphore .next b) :
      e.fiber? = some f ∨ (∀ g, e ≠ .tried g) ∧ e.isTaken = false ∧ e.isRelease = false := by
    obtain ⟨c, run, -, hc⟩ := hcaused e he
    cases hc with
    | delivered => exact Or.inr ⟨fun _ => Booking.noConfusion, rfl, rfl⟩
    | _ => exact Or.inl rfl
  have hkept (e : Booking) (he : e ∈ s.news E.semaphore .next b) : (∀ g, e ≠ .tried g) ∧ e.isRelease = false := by
    rcases hmine e he with hf | ⟨htried, -, hrelease⟩
    · have hbooked : e ∈ ask'.bookings f := by
        rw [hbookings]
        exact List.mem_append_right _ (List.mem_filter.2 ⟨he, decide_eq_true hf⟩)
      exact hnone e hbooked
    · exact ⟨htried, hrelease⟩
  have hreleases : (s.news E.semaphore .next b).countP Booking.isRelease = 0 :=
    List.countP_eq_zero.2 fun e he => Bool.eq_false_iff.1 (hkept e he).2
  have htakes : (ask'.bookings f).countP Booking.isTaken =
      G.holds.toNat + (s.news E.semaphore .next b).countP Booking.isTaken := by
    have hown : ((s.news E.semaphore .next b).filter (·.fiber? = some f)).countP Booking.isTaken =
        (s.news E.semaphore .next b).countP Booking.isTaken := by
      rw [List.countP_filter]
      refine List.countP_congr fun e he => ?_
      rcases hmine e he with hf | ⟨-, htaken, -⟩
      · simp [hf]
      · simp [htaken]
    rw [hbookings, List.countP_append, hown, ← hholds, hat.booked, List.countP_map]
    rfl
  have hsame : s.pass E.semaphore f stand b (G :: rest) =
      { G with holds := G.holds || (s.news E.semaphore .next b).any Booking.isTaken } :: rest := by
    rw [Scene.pass, hpass, Guard.credit_cons hkept]
  have hheld : (G.holds || (s.news E.semaphore .next b).any Booking.isTaken).toNat =
      G.holds.toNat + (s.news E.semaphore .next b).countP Booking.isTaken := toNat_or_any (htakes ▸ honce)
  refine ⟨?_, ?_⟩
  · rw [hsame]
    refine .acquiring hE' hbase rfl hfiber hstage ?_ haround
    rw [hheld, ← htakes, hat'.booked, List.countP_map]
    rfl
  · rw [hsame, hreleases, Guard.countP_holds, Guard.countP_holds, hheld, Nat.add_zero, Nat.add_assoc]

omit hstand in
/-- The acquisition is over. -/
theorem acquired (h : Recorded b s) (hbook : s.book .next b = b) (hfree' : σ' f = none)
    (hbase : E.base = G.waiting E.semaphore) {t : Option DeferredId} {v : Verdict} {left' : Nat}
    (hexit : (s.play .next).moment.activity = .running f left' ⟨E.base, .ofExit v.exit⟩)
    (hlawful : Lawful (b.delivered E.semaphore) t v)
    (hsince : b.since f E.start = ((Ask.settled t v).bookings f).map (E.semaphore, ·))
    (hpass : Guard.pass E.semaphore f stand (s.moment.world.interruptPending f stand.run.masks) (G :: rest) = G :: rest)
    (hfiber : G.fiber = f) (hstage : G.stage = .before)
    (hholds : (b.since f E.start).countP (·.2.isTaken) = G.holds.toNat) (haround : Around E.semaphore f G.base rest) :
    Steps E.semaphore σ' b s f (G :: rest) (s.pass E.semaphore f stand b (G :: rest)) := by
  have hnews : s.news E.semaphore .next b = [] := Scene.news_of_same hbook
  have hsame : s.pass E.semaphore f stand b (G :: rest) = G :: rest := by
    rw [Scene.pass, hnews, hpass, Guard.credit]
  obtain ⟨p, hp, hready⟩ := hadvance.orderly.ready hexit
  have hcount : ((Ask.settled t v).bookings f).countP Booking.isTaken = G.holds.toNat := by
    rw [← hholds, hsince, List.countP_map]
    rfl
  have hmem : Ask.verdict f t v ∈ b.of E.semaphore := by
    have he : (E.semaphore, Ask.verdict f t v) ∈ b.since f E.start := by
      rw [hsince]
      exact List.mem_map_of_mem (List.mem_cons_of_mem _ List.mem_cons_self)
    exact Books.mem_of_mem_since he
  have hmissed (hx : v.exit = .interrupted) (hundone : Ask.verdict f t v = .undone f ∨ ∃ l, Ask.verdict f t v = .abandoned f l)
      (hnone : ((Ask.settled t v).bookings f).countP Booking.isTaken = 0) :
      G.Stands E.semaphore ((s.play .next).moment.world.flagged f) ⟨E.base, .ofExit v.exit⟩ := by
    have hflagged := h.orderly.choose_spec.occurs.flagged_play (h.flagged_of_undone hmem hundone) .next
    rw [hbase, hx]
    refine .missed hstage ?_ hflagged
    cases hG : G.holds with
    | false => rfl
    | true =>
      rw [hG] at hcount
      cases hnone.symm.trans hcount
  have hstands : G.Stands E.semaphore ((s.play .next).moment.world.flagged f) ⟨E.base, .ofExit v.exit⟩ := by
    cases v with
    | kept =>
      have hG : G.holds = true := by
        cases hG : G.holds with
        | true => rfl
        | false =>
          rw [hG] at hcount
          cases t <;> cases hcount
      rw [hbase]
      exact .entering hstage hG .granted
    | undone => exact hmissed rfl (Or.inl rfl) (by cases t <;> rfl)
    | abandoned =>
      cases t with
      | none => cases hlawful
      | some l => exact hmissed rfl (Or.inr ⟨l, rfl⟩) rfl
  refine ⟨?_, by rw [hnews, hsame]; rfl⟩
  rw [hsame]
  exact .passing hfree' hp hready hfiber hstands haround

/-- A fiber takes a step in the acquisition. -/
theorem serve (h : Recorded b s) (hσ : Orderly σ b s) (hE : σ f = some E) (hbase : E.base = G.waiting E.semaphore)
    (hfiber : G.fiber = f) (hstage : G.stage = .before)
    (hholds : (b.since f E.start).countP (·.2.isTaken) = G.holds.toNat) (haround : Around E.semaphore f G.base rest) :
    Steps E.semaphore σ' b s f (G :: rest) (s.pass E.semaphore f stand b (G :: rest)) := by
  have hpass : Guard.pass E.semaphore f stand (s.moment.world.interruptPending f stand.run.masks) (G :: rest) =
      G :: rest := by
    obtain ⟨ask, ws, p, hat⟩ := hσ.engaged f E hE
    obtain ⟨⟨w, a⟩, kept⟩ := s
    cases hstand
    have hstands := hat.stands.2
    have hinside : G.isInside = false := by rw [Guard.isInside, hstage]
    have hlength : G.base.frames.length < stand.run.frames.length := by
      have hwaiting : (G.waiting E.semaphore).frames.length ≤ stand.run.frames.length := hbase ▸ hstands.within.length_le
      exact Nat.lt_of_succ_le hwaiting
    exact hstands.pass fun x _ => Guard.settle_of_above hinside hlength
  rcases hadvance.ended f E hE with hE' | ⟨hfree', hbook, left', t, v, hexit, hlawful, hsince⟩
  · exact wait hadvance hstand hσ hE hE' hbase hpass hfiber hstage hholds haround
  · exact acquired hadvance h hbook hfree' hbase hexit hlawful hsince hpass hfiber hstage hholds haround

/-- **A step of a fiber that uses the semaphore only to run bodies with a permit.** -/
theorem step (h : Recorded b s) (hσ : Orderly σ b s) (hnested : Nested sem σ b s f stack)
    (habides : stand.touches sem = true → ∃ G rest, stack = G :: rest ∧ G.isInside = false) :
    Steps sem σ' b s f stack (s.pass sem f stand b stack) := by
  cases hnested with
  | inside hother hstack =>
    have haround : Around sem f stand.run stack := by
      by_cases hnil : stack = []
      · exact hnil ▸ .nil
      · obtain ⟨p, run, hp, hrun, haround⟩ := hstack hnil
        cases (hp.ready_of_running hstand).symm ▸ hrun
        exact haround
    refine walk hadvance hstand hσ hother haround ?_
    cases htouches : stand.touches sem with
    | false => rfl
    | true =>
      obtain ⟨G, rest, rfl, hinside⟩ := habides htouches
      cases hinside.symm.trans (haround.of_mem List.mem_cons_self).2.1
  | acquiring hE hbase hsem hfiber hstage hholds haround =>
    subst hsem
    exact serve hadvance hstand h hσ hE hbase hfiber hstage hholds haround
  | @passing G rest p stand' hfree hp hready hfiber hstands haround =>
    have hsame : stand = stand' := Standing.ready.inj ((hp.ready_of_running hstand).symm.trans hready)
    subst hsame
    cases hstands.next with
    | go hgoes hstands' hbegins hpass =>
      exact go hadvance hstand hfree hgoes hbegins (hpass f _ rest) rfl hfiber hstands' haround
    | acquire hs hstage hholds => exact acquire hadvance hstand hfree hs hstage hholds hfiber haround
    | begin hs hstage hholds => exact begin hadvance hstand hfree hs hstage hholds hfiber haround
    | give hs howes hholds => exact give hadvance hstand hσ hfree hs howes hholds hfiber haround
    | out hs howes hholds => exact out hadvance hstand hσ hfree hs howes.not_inside hholds haround

end Nested

end Step

end FiberLoop
