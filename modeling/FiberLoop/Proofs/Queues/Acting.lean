import FiberLoop.Proofs.Queues.Visiting
import FiberLoop.Proofs.Queues.Veiling
import FiberLoop.Proofs.Runtime.Residing

/-!
# What a fiber does in a take

In a take a fiber does little. It calls no closure but those that leave the world alone, ask for something or undo
that (`Visit.Stage.modest`), and the only use that it makes of a queue is to ask for an item and to undo its ticket
(`Visit.Stage.uses`). Until it comes out of the take it evaluates something on top of the run around the take
(`Visit.Stage.evaluates`).
-/

namespace FiberLoop

open Engagement World

/-! ## What a take does to its queue -/

/-- Up to the take that is inside, nothing is done but to return a permit. -/
theorem Passage.Entering.performs {P : Passage} {paid : Option Nat} {s : Stand} (h : P.Entering paid s) {o : Operation}
    (hs : s.next = .eval (.perform o)) : o = .releasePermit P.gate := by
  cases h <;> cases hs
  rfl

theorem Passage.Closing.not_performs {P : Passage} {x : Exit Value Value} {s : Stand} (h : P.Closing x s) (o : Operation) :
    s.next ≠ .eval (.perform o) := by
  intro hs
  cases h with
  | ended => cases x <;> cases hs
  | cleaning =>
    cases hx : x.isInterrupted with
    | true =>
      rw [cleanup_of_interrupted hx] at hs
      cases hs
    | false =>
      rw [cleanup_of_not_interrupted hx] at hs
      cases hs
  | _ => cases hs

theorem Passage.Leaving.not_performs {P : Passage} {x : Exit Value Value} {s : Stand} (h : P.Leaving x s) (o : Operation) :
    s.next ≠ .eval (.perform o) := by
  intro hs
  cases h with
  | leaving => cases x <;> cases hs
  | _ => cases hs

/-- Whoever uses a queue performs an operation. -/
theorem Stand.performs_of_uses {s : Stand} {c : Call} {run : Run} {q : QueueId} (hdeed : s.deed = .call c run)
    (huses : c.uses q) : ∃ o, c = .thunk (.perform o) ∧ s = ⟨run, .eval (.perform o)⟩ := by
  rcases Call.cases_of_uses huses with rfl | ⟨v, rfl⟩ | ⟨v, rfl⟩ | ⟨l, rfl⟩ <;> exact ⟨_, rfl, Stand.of_thunk hdeed⟩

namespace Visit

variable {V : Visit} {q : QueueId} {s : Stand} {paid : Option Nat}

/-- Before and after the time with a ticket, the only use that a take makes of a queue is to ask for an item. -/
theorem Stands.uses (h : V.Stands q paid s) {c : Call} {run : Run} (hdeed : s.deed = .call c run) {q' : QueueId}
    (huses : c.uses q') : V.Fresh ∧ paid = V.toll 0 ∧ c = .thunk (.perform (.requestItem q)) ∧ run = Take.asked (V.inside q) := by
  obtain ⟨o, rfl, rfl⟩ := Stand.performs_of_uses hdeed huses
  have hreleases {g : SemaphoreId} : ¬ Call.uses q' (.thunk (.perform (.releasePermit g))) := not_or.2 ⟨nofun, nofun⟩
  generalize hs : (⟨run, .eval (.perform o)⟩ : Stand) = s at h
  have hnext : s.next = .eval (.perform o) := hs ▸ rfl
  cases h with
  | entering _ h =>
    cases h.performs hnext
    exact absurd huses hreleases
  | closing _ _ h => exact absurd hnext (h.not_performs o)
  | leaving _ _ h => exact absurd hnext (h.not_performs o)
  | requesting hfresh =>
    cases hs
    exact ⟨hfresh, rfl, rfl, rfl⟩
  | asking | undone | withdrawing | withdrawn => cases hnext

end Visit

/-! ## Modest fibers -/

/-- A step at which nothing happens but that the fiber goes on. -/
theorem Stand.Goes.modest {s s' : Stand} (h : s.Goes s') {W : Scope} {c : Call} {run : Run} (hdeed : s.deed = .call c run) :
    c.Modest W := by
  cases h with
  | move h => cases h.symm.trans hdeed
  | call h _ hact =>
    cases h.symm.trans hdeed
    exact .still fun w => by rw [hact]

/-- A fiber that comes out of an effect in a take only makes a value of its exit. -/
theorem Take.modest_of_exit {T : Take} {x : Exit Value Value} {W : Scope} {c : Call} {run : Run}
    (hdeed : (⟨T.inner, .ofExit x⟩ : Stand).deed = .call c run) : c.Modest W := by
  cases x with
  | value v | cause y =>
    cases hdeed
    exact .still fun _ => rfl

/-- With a ticket a fiber does no more than wait and undo it. -/
theorem Take.Stands.modest {T : Take} {got : Value → Prop} {s : Stand} (h : T.Stands got s)
    (hitem : ∀ v, T.draw = .item v → got v) {W : Scope} (hin : ∀ v, T.draw = .item v → v.In W) {c : Call} {run : Run}
    (hdeed : s.deed = .call c run) : c.Modest W := by
  cases h.next hitem with
  | move h | leave _ h | wait _ _ h => cases h.symm.trans hdeed
  | call h hact =>
    cases h.symm.trans hdeed
    exact .still fun w => by rw [hact]
  | undo h =>
    cases h.symm.trans hdeed
    cases hdraw : T.draw with
    | item v =>
      rw [undo, hdraw]
      exact .putBackItem _ (hin v hdraw)
    | latch l =>
      rw [undo, hdraw]
      exact .abandonItem _ l

/-- In an acquire a fiber does no more than ask for a permit, wait and give it back. -/
theorem Engagement.Stands.modest {E : Engagement} {requested : Bool} {done : DeferredId → Prop} {ask : Ask} {s : Stand}
    (h : E.Stands requested done ask s) {W : Scope} {c : Call} {run : Run} (hdeed : s.deed = .call c run) : c.Modest W := by
  cases h.next with
  | move h | leave _ _ h | wait _ _ h => cases h.symm.trans hdeed
  | call h hact =>
    cases h.symm.trans hdeed
    exact .still fun w => by rw [hact]
  | request _ h =>
    cases h.symm.trans hdeed
    exact .requestPermit _
  | tell _ _ h =>
    cases h.symm.trans hdeed
    exact .still fun _ => rfl
  | release _ _ h =>
    cases h.symm.trans hdeed
    exact .releasePermit _
  | giveUp _ _ h =>
    cases h.symm.trans hdeed
    exact .abandonPermit _ _

/-- In an acquire a fiber waits for nothing but its latch. -/
theorem Engagement.At.modest {E : Engagement} {f : FiberId} {b : Books} {m : Moment} {ask : Ask} {ws : List (Nat × Callback)}
    {p : Place} (hat : E.At f b m ask ws p) (ha : m.activity.fiber? = some f) {W : Scope}
    (hwaits : ∀ l, W.mentions (.wait l)) : m.activity.Modest W := by
  obtain ⟨w, a⟩ := m
  have hheld := hat.fits.held_of_activity rfl ha
  have hof : a.of f = a := Activity.of_self ha
  have hawaits : a.Awaits ask := hof ▸ hat.awaits
  cases a with
  | idle | returning => exact trivial
  | running g left stand =>
    cases ha
    exact fun c run hdeed => hat.stands.2.modest hdeed
  | registering g left run r epoch =>
    obtain ⟨l, -, rfl⟩ := hawaits
    exact List.forall_mem_singleton.2 (hwaits l)
  | canceling g left run canceler =>
    cases ha
    obtain ⟨ended, hstanding, -⟩ := hheld.of_canceling
    cases hat.acquiring with
    | unwinding _ _ hp =>
      cases hp.symm.trans hstanding
      exact List.forall_mem_singleton.2 (hwaits _)
    | ready hp | registering hp | answered _ hp | returned hp | parked hp => cases hp.symm.trans hstanding
  | exiting g x hook =>
    cases ha
    obtain ⟨hstanding, -⟩ := hheld.of_exiting
    cases hat.acquiring with
    | ready hp | registering hp | answered _ hp | returned hp | parked hp | unwinding _ _ hp =>
      cases hp.symm.trans hstanding

/-- A fiber that is ready does not do anything but to take a step. -/
theorem Scene.Ready.modest {s : Scene} {f : FiberId} {stand : Stand} (h : s.Ready f stand)
    (ha : s.moment.activity.fiber? = some f) {W : Scope} (hcalls : ∀ c run, stand.deed = .call c run → c.Modest W) :
    s.moment.activity.Modest W := by
  obtain ⟨p, hp, hready⟩ := h
  obtain ⟨⟨w, a⟩, kept⟩ := s
  have hheld := hp.held_of_activity rfl ha
  cases a with
  | idle | returning => exact trivial
  | running g left stand' =>
    cases ha
    cases hready.symm.trans (hp.ready_of_running rfl)
    exact hcalls
  | registering g left run r epoch =>
    cases ha
    obtain ⟨⟨early, hstanding⟩, -⟩ := hheld.of_registering
    cases hready.symm.trans hstanding
  | canceling g left run canceler =>
    cases ha
    obtain ⟨ended, hstanding, -⟩ := hheld.of_canceling
    cases hready.symm.trans hstanding
  | exiting g x hook =>
    cases ha
    obtain ⟨hstanding, -⟩ := hheld.of_exiting
    cases hready.symm.trans hstanding

/-- A fiber that waits for a deferred does nothing else. -/
theorem Scene.Waits.modest {s : Scene} {f : FiberId} {run : Run} {l : DeferredId} (h : s.Waits f run l)
    (ha : s.moment.activity.fiber? = some f) {W : Scope} (hwaits : ∀ l, W.mentions (.wait l))
    (hcalls : ∀ x c run', (⟨run, .ofExit x⟩ : Stand).deed = .call c run' → c.Modest W) : s.moment.activity.Modest W := by
  cases h with
  | joining h =>
    rw [h]
    exact List.forall_mem_singleton.2 (hwaits l)
  | given h =>
    rw [h]
    exact trivial
  | ended hp hready => exact Scene.Ready.modest ⟨_, hp, hready⟩ ha fun c run' => hcalls _ c run'
  | seated hp hsits =>
    obtain ⟨⟨w, a⟩, kept⟩ := s
    have hheld := hp.held_of_activity rfl ha
    generalize hstanding : Place.standing _ = standing at hsits hheld
    generalize w.tokens f = tokens at hheld
    cases hsits with
    | returned =>
      cases hheld
      exact trivial
    | parked => cases hheld.of_parked.2 ▸ ha
  | unwinding hp hstanding =>
    obtain ⟨⟨w, a⟩, kept⟩ := s
    have hheld := hp.held_of_activity rfl ha
    rw [hstanding] at hheld
    generalize w.tokens f = tokens at hheld
    cases hheld with
    | unwinding => cases ha
    | canceling => exact List.forall_mem_singleton.2 (hwaits l)

namespace Visit

variable {V : Visit} {q q' : QueueId} {σ : Engagements} {b : Books} {s : Scene} {stroke : Stroke} {run : Run} {c : Call}
  {W : Scope} {start : Nat} {paid : Option Nat}

theorem Stands.modest {stand : Stand} (h : V.Stands q paid stand) (hdeed : stand.deed = .call c run) : c.Modest W := by
  cases h.next with
  | go hgoes => exact hgoes.modest hdeed
  | give _ _ hs =>
    subst hs
    cases hdeed
    exact .releasePermit _
  | turn h hact =>
    cases h.symm.trans hdeed
    exact .still fun w => by rw [hact]
  | request _ _ hs =>
    subst hs
    cases hdeed
    exact .requestItem q
  | acquire _ _ _ hs =>
    subst hs
    cases hdeed
  | out _ _ h => cases h.symm.trans hdeed

/-- **A fiber in a take does nothing that a veil does not allow.** -/
theorem Stage.modest (h : V.Stage q start σ b s) (hσ : Orderly σ b s) (ha : s.moment.activity.fiber? = some V.fiber)
    (hwaits : ∀ l, W.mentions (.wait l)) (hitem : ∀ v, V.Got v → v.In W) : s.moment.activity.Modest W := by
  cases h with
  | stands hready h => exact hready.modest ha fun c run => h.modest
  | @underway draw hdrawn _ h =>
    have hdraw (v : Value) (hv : draw = .item v) : V.Got v := Drawn.got (hv ▸ hdrawn)
    cases h with
    | stands hp hready h =>
      exact Scene.Ready.modest ⟨_, hp, hready⟩ ha fun c run => h.modest hdraw fun v hv => hitem v (hdraw v hv)
    | waits _ h => exact h.modest ha hwaits fun x c run' => Take.modest_of_exit
  | reacquires _ hf =>
    obtain ⟨ask, ws, p, hat⟩ := hσ.engaged _ _ hf
    exact hat.modest ha hwaits

/-- The use that a fiber makes of a queue in a take. -/
inductive Uses (V : Visit) (q : QueueId) (c : Call) (run : Run) : Prop where
  | request (hfresh : V.Fresh) (hc : c = .thunk (.perform (.requestItem q))) (hrun : run = Take.asked (V.inside q))
  | undo {draw : Draw} (hdrawn : V.Drawn draw) (hopen : V.undone = false)
    (hc : c = .thunk (.perform (Take.undo ⟨V.inside q, q, draw⟩))) (hrun : run = (V.inside q).releasing .interrupted)

/-- **A fiber in a take uses no queue but to ask for an item and to undo its ticket.** -/
theorem Stage.uses (h : V.Stage q start σ b s) (hσ : Orderly σ b s) (hcalls : s.calls? stroke = some (V.fiber, run, c))
    (huses : c.uses q') : V.Uses q c run ∧ V.Clear start (V.toll 0) σ b := by
  obtain ⟨rfl, left, stand, ha, hdeed, -⟩ := Scene.of_calls? hcalls
  cases h with
  | stands hready h hclear =>
    cases hready.eq ha
    obtain ⟨hfresh, rfl, hc, hrun⟩ := h.uses hdeed huses
    exact ⟨.request hfresh hc hrun, hclear⟩
  | @underway draw hdrawn hopen h hclear =>
    refine ⟨?_, hclear⟩
    have hundo (hstands : Take.Stands ⟨V.inside q, q, draw⟩ V.Got stand) : V.Uses q c run := by
      obtain ⟨o, rfl, rfl⟩ := Stand.performs_of_uses hdeed huses
      obtain ⟨rfl, hrun⟩ := hstands.performs rfl
      exact .undo hdrawn hopen rfl hrun
    cases h with
    | stands hp hready h => exact hundo (Scene.Ready.eq ⟨_, hp, hready⟩ ha ▸ h)
    | @waits l hdraw h =>
      cases h with
      | joining ha' | given ha' => cases ha'.symm.trans ha
      | seated hp hsits =>
        rw [hp.ready_of_running ha] at hsits
        cases hsits
      | unwinding hp hstanding => cases hstanding.symm.trans (hp.ready_of_running ha)
      | ended hp hready =>
        cases hready.symm.trans (hp.ready_of_running ha)
        exact absurd huses (Stand.not_uses_of_exit hdeed)
  | reacquires _ hf =>
    obtain ⟨ask, ws, p, hat⟩ := hσ.engaged _ _ hf
    obtain ⟨⟨w, a⟩, kept⟩ := s
    cases ha
    exact absurd huses (hat.stands.2.not_uses hdeed q')

/-! ## The places around the time with a ticket -/

/-- The fiber gets its ticket. -/
theorem Stage.request {draw : Draw} (ho : s.Occurs) (hrun : run = Take.asked (V.inside q))
    (hcalls : s.calls? stroke = some (V.fiber, run, .thunk (.perform (.requestItem q))))
    (hticket : (s.moment.world.requestItem q).1 = Take.ticket ⟨V.inside q, q, draw⟩) (hdrawn : V.Drawn draw)
    (hopen : V.undone = false) (hclear : V.Clear start (V.toll 0) σ b) : V.Stage q start σ b (s.play stroke) := by
  subst hrun
  obtain ⟨left, hmoment, -⟩ := Scene.moment_of_calls? hcalls
  have hcalled : (s.moment.world.called (.thunk (.perform (.requestItem q))) (Take.asked (V.inside q))).1 =
      ⟨Take.asked (V.inside q), .value (s.moment.world.requestItem q).1⟩ := rfl
  rw [hcalled, hticket] at hmoment
  exact .underway hdrawn hopen (.of_activity (ho.after [stroke]) (congrArg Moment.activity hmoment) .given) hclear

/-- The fiber has undone its ticket. -/
theorem Stage.undo {draw : Draw} (ho : s.Occurs) (hrun : run = (V.inside q).releasing .interrupted)
    (hcalls : s.calls? stroke = some (V.fiber, run, .thunk (.perform (Take.undo ⟨V.inside q, q, draw⟩))))
    (hclear : V.Clear start (V.toll 0) σ b) :
    ({ V with item? := none, undone := true } : Visit).Stage q start σ b (s.play stroke) := by
  subst hrun
  obtain ⟨left, hmoment, -⟩ := Scene.moment_of_calls? hcalls
  have hcalled : (s.moment.world.called (.thunk (.perform (Take.undo ⟨V.inside q, q, draw⟩)))
      ((V.inside q).releasing .interrupted)).1 = ⟨(V.inside q).releasing .interrupted, .value .null⟩ := by
    cases draw <;> rfl
  rw [hcalled] at hmoment
  exact .stands ((ho.after [stroke]).ready (congrArg Moment.activity hmoment)) (.undone (.interrupted rfl (Or.inr rfl)))
    ⟨hclear.free, hclear.booked⟩

end Visit

/-! ## Coming out -/

/-- A fiber that stands above a run does not come out of what it evaluates there. -/
theorem Activity.exitFrom?_of_above {f : FiberId} {base : Run} {left : Nat} {stand : Stand} (h : stand.Above base) :
    (Activity.running f left stand).exitFrom? f base.frames.length = none := by
  rw [exitFrom?]
  split
  · rename_i hsame
    obtain ⟨e, he⟩ := h.2 (h.1.eq_of_length (Nat.le_of_eq hsame.2))
    rw [he]
    rfl
  · rfl

theorem Activity.exitFrom?_of_exit (f : FiberId) (left : Nat) (run : Run) (x : Exit Value Value) :
    (Activity.running f left ⟨run, .ofExit x⟩).exitFrom? f run.frames.length = some x := by
  rw [exitFrom?, if_pos ⟨rfl, rfl⟩]
  cases x <;> rfl

/-- A fiber that evaluates something does not come out of it. -/
theorem Scene.Evaluates.exitFrom?_eq_none {s : Scene} {f : FiberId} {base : Run} (h : s.Evaluates f base) :
    s.moment.activity.exitFrom? f base.frames.length = none := by
  obtain ⟨p, hp, habove⟩ := h
  by_cases hrunning : ∃ left stand, s.moment.activity = .running f left stand
  · obtain ⟨left, stand, ha⟩ := hrunning
    rw [ha]
    exact Activity.exitFrom?_of_above (habove.of_ready (hp.ready_of_running ha))
  · unfold Activity.exitFrom?
    split
    · rename_i g left stand hstand
      refine if_neg ?_
      rintro ⟨rfl, -⟩
      exact hrunning ⟨left, stand, hstand⟩
    · rfl

theorem Take.Stands.within {T : Take} {got : Value → Prop} {s : Stand} (h : T.Stands got s) : T.base.Within s.run := by
  cases h with
  | bracketed | closing => exact .refl
  | brought | guarded | told => exact .chain .refl _
  | given => exact .region (.chain .refl _) _
  | redeeming | waiting | ended => exact .fold (.chain .refl _) _ _
  | shut | resuming | leaving => exact .region .refl _
  | cleaning | cleaned => exact .chain (.region .refl _) _

/-- With a ticket a fiber has not come out of the take. -/
theorem Take.Stands.above {T : Take} {got : Value → Prop} {s : Stand} (h : T.Stands got s) : s.Above T.base := by
  refine ⟨h.within, fun hrun => ?_⟩
  have hlength := congrArg (fun run : Run => run.frames.length) hrun
  cases h with
  | bracketed | guarded | redeeming | waiting | closing | shut | cleaning | resuming => exact ⟨_, rfl⟩
  | given | brought | ended | told | cleaned | leaving =>
    simp only [asked, outer, Take.guarded, inner, Take.shut, Take.closing, Run.enter, Run.push, List.length_cons] at hlength
    omega

/-- A fiber that waits for a deferred is on the run on which it does. -/
theorem Scene.Waits.run? {s : Scene} {f : FiberId} {run : Run} {l : DeferredId} (h : s.Waits f run l) (ho : s.Occurs) :
    ∃ p, Fits f (s.moment.view f) p ∧ p.standing.run? = some run := by
  cases h with
  | joining ha | given ha =>
    obtain ⟨p, hp⟩ := ho.fits_of_activity (f := f) (by rw [ha]; rfl)
    refine ⟨p, hp, (hp.run?_of_activity (by rw [ha]; rfl)).trans ?_⟩
    rw [ha]
    rfl
  | seated hp hsits => exact ⟨_, hp, hsits.run?⟩
  | unwinding hp hstanding => exact ⟨_, hp, by rw [hstanding]; rfl⟩
  | ended hp hready => exact ⟨_, hp, by rw [hready]; rfl⟩

/-- A fiber on a higher run evaluates something. -/
theorem Scene.evaluates_of_length {s : Scene} {f : FiberId} {p : Place} {base run : Run} (hp : Fits f (s.moment.view f) p)
    (hrun : p.standing.run? = some run) (hwithin : base.Within run) (hlength : base.frames.length < run.frames.length) :
    s.Evaluates f base := by
  refine ⟨p, hp, (Standing.above_or_feeds hrun hwithin).resolve_right ?_⟩
  rintro ⟨x, hfeeds⟩
  rw [hfeeds] at hrun
  cases hrun
  exact Nat.lt_irrefl _ hlength

namespace Visit

variable {V : Visit} {q : QueueId} {σ : Engagements} {b : Books} {s : Scene} {start : Nat} {paid : Option Nat}

theorem within_inside (V : Visit) (q : QueueId) : V.base.Within (V.inside q) := by
  cases hgate : V.gate with
  | none =>
    rw [inside_of_no_gate hgate]
    exact .refl
  | some g =>
    rw [inside_of_gate hgate]
    exact .fold (.chain .refl _) _ _

theorem Stands.above {stand : Stand} (h : V.Stands q paid stand) : stand.Above V.base := by
  have hinside := V.within_inside q
  have hlength := hinside.length_le
  cases h with
  | entering _ h => exact h.above
  | closing _ _ h => exact h.above
  | leaving _ _ h => exact h.above
  | asking => exact Stand.above_eval (.chain hinside _) _
  | requesting => exact Stand.above_eval (.region (.chain hinside _) _) _
  | undone => exact Stand.above_of_length (.chain (.region hinside _) _) (Nat.lt_succ_of_lt (Nat.lt_succ_of_le hlength)) _
  | withdrawing => exact Stand.above_eval (.region hinside _) _
  | withdrawn => exact Stand.above_of_length (.region hinside _) (Nat.lt_succ_of_le hlength) _

/-- **Until a fiber comes out of a take it evaluates something there.** -/
theorem Stage.evaluates (h : V.Stage q start σ b s) (hσ : Orderly σ b s) : s.Evaluates V.fiber V.base := by
  have hinside := V.within_inside q
  cases h with
  | stands hready h => exact hready.evaluates h.above
  | underway _ _ h =>
    cases h with
    | stands hp hready h => exact Scene.Ready.evaluates ⟨_, hp, hready⟩ (h.above.trans hinside)
    | waits _ h =>
      obtain ⟨p, hp, hrun⟩ := h.run? hσ.occurs
      exact Scene.evaluates_of_length hp hrun (.fold (.chain hinside _) _ _)
        (Nat.lt_succ_of_lt (Nat.lt_succ_of_le hinside.length_le))
  | reacquires _ hf =>
    obtain ⟨ask, ws, p, hat⟩ := hσ.engaged _ _ hf
    obtain ⟨run, hrun, hwithin⟩ := hat.acquiring.within
    have hreleasing : V.base.Within (V.base.releasing .interrupted) := .chain (.region .refl _) _
    exact Scene.evaluates_of_length hat.fits hrun (hreleasing.trans hwithin)
      (Nat.lt_of_lt_of_le (Nat.lt_add_of_pos_right (Nat.succ_pos 1)) hwithin.length_le)

end Visit

end FiberLoop
