import FiberLoop.Proofs.Queues.Balancing
import FiberLoop.Proofs.Queues.Tolling
import FiberLoop.Proofs.Runtime.Residing

/-!
# Takes, stroke by stroke

A fiber in a take is at one of the places of its course: it is on its way to the queue, it has a ticket, it has given
up, or it is on its way out, where it may acquire a permit again (`Visit.Stage`). What the fiber has got from the queue
by then is what its visit says.

The main result of this module is `Visit.Stage.play`: every stroke that does not use the queue for the fiber keeps the
take on its course, or ends it with what it has got. `Visit.Stage.uses` says what use the fiber makes of the queue.
-/

namespace FiberLoop

open Engagement World

namespace Visit

variable (V : Visit) (q : QueueId)

def passage (g : SemaphoreId) : Passage := ⟨V.base, g, q⟩

/-- The run on which an item is asked for. -/
def inside : Run :=
  match V.gate with
  | none => V.base
  | some g => (V.passage q g).inner

/-- The take has not come to the queue yet. -/
structure Fresh : Prop where
  latch : V.latch? = none
  item : V.item? = none
  undone : V.undone = false

/-- What the ticket of the take gives. -/
inductive Drawn : Draw → Prop where
  | item {item : Item} (hlatch : V.latch? = none) (hitem : V.item? = some item) : Drawn (.item item.value)
  | latch {l : DeferredId} (h : V.latch? = some l) : Drawn (.latch l)

/-- The take has got an item. -/
def Got (v : Value) : Prop := V.item?.map Item.value = some v

/-! ## The stands -/

/-- Where a fiber can stand during a take, but for the time with a ticket and the acquire of a permit, with the toll that
it has paid. -/
inductive Stands : Option Nat → Stand → Prop where
  | entering {g : SemaphoreId} {paid : Option Nat} {s : Stand} (hgate : V.gate = some g)
    (h : (V.passage q g).Entering paid s) (hfresh : V.Fresh) : Stands paid s
  | asking (hfresh : V.Fresh) : Stands (V.toll 0)
      ⟨Take.outer (V.inside q), .eval (Effect.perform (.requestItem q)).uninterruptible⟩
  | requesting (hfresh : V.Fresh) : Stands (V.toll 0) ⟨Take.asked (V.inside q), .eval (.perform (.requestItem q))⟩
  | undone (hends : V.Ends .interrupted) : Stands (V.toll 0) ⟨(V.inside q).releasing .interrupted, .value .null⟩
  | withdrawing (hends : V.Ends .interrupted) : Stands (V.toll 0)
      ⟨(V.inside q).enter .uninterruptible, .eval (.resume .interrupted)⟩
  | withdrawn (hends : V.Ends .interrupted) : Stands (V.toll 0)
      ⟨(V.inside q).enter .uninterruptible, .cause .interrupted⟩
  | closing {g : SemaphoreId} {x : Exit Value Value} {s : Stand} (hgate : V.gate = some g) (hends : V.Ends x)
    (h : (V.passage q g).Closing x s) : Stands (some 0) s
  | leaving {g : SemaphoreId} {x : Exit Value Value} {s : Stand} (hgate : V.gate = some g) (hends : V.Ends x)
    (h : (V.passage q g).Leaving x s) : Stands (some x.isInterrupted.toNat) s

/-- What a fiber does next there. -/
inductive Does (paid : Option Nat) (s : Stand) : Prop where
  | go {s' : Stand} (hgoes : s.Goes s') (hbegins : ∀ sem, ¬ s.Begins sem) (h : V.Stands q paid s')
  /-- A permit is returned. -/
  | give {g : SemaphoreId} {run : Run} (hgate : V.gate = some g) (hpaid : paid = none)
    (hs : s = ⟨run, .eval (.perform (.releasePermit g))⟩) (hmasked : run.masks.isInterruptible = false)
    (h : V.Stands q (some 0) ⟨run, .value .null⟩)
  /-- The take that is inside is next, unless the fiber is interrupted. -/
  | turn {c : Call} {run : Run} {next : Next} (hdeed : s.deed = .call c run) (hact : ∀ w, c.act.caught w = (.ok next, w))
    (hdeals : c.deals = false) (hbegins : ∀ sem, ¬ s.Begins sem) (hcut : V.Stands q paid ⟨run, .cause .interrupted⟩)
    (h : V.Stands q paid ⟨run, next⟩)
  | request (hfresh : V.Fresh) (hpaid : paid = V.toll 0)
    (hs : s = ⟨Take.asked (V.inside q), .eval (.perform (.requestItem q))⟩)
  /-- A permit is acquired again. -/
  | acquire {g : SemaphoreId} (hgate : V.gate = some g) (hends : V.Ends .interrupted) (hpaid : paid = some 0)
    (hs : s = ⟨V.base.releasing .interrupted, .eval (.acquirePermit g)⟩)
  /-- The take is over. -/
  | out {x : Exit Value Value} (hends : V.Ends x) (hpaid : paid = V.toll x.isInterrupted.toNat)
    (hdeed : s.deed = .move ⟨V.base, .ofExit x⟩) (hbegins : ∀ sem, ¬ s.Begins sem)

variable {V q} {s : Stand} {x : Exit Value Value} {g : SemaphoreId} {paid : Option Nat}

theorem inside_of_no_gate (h : V.gate = none) : V.inside q = V.base := by
  rw [inside, h]

theorem inside_of_gate (h : V.gate = some g) : V.inside q = (V.passage q g).inner := by
  rw [inside, h]

theorem Ends.eq_interrupted (h : V.Ends x) (hx : x.isInterrupted = true) : x = .interrupted := by
  cases h with
  | value => cases hx
  | interrupted => rfl

theorem Fresh.ends (h : V.Fresh) : V.Ends .interrupted := .interrupted h.item (Or.inl h.latch)

/-- The course of a take begins where its effect is evaluated. -/
theorem stands_of_begin (h : V.Fresh) :
    ∃ s', (⟨V.base, .eval (.takeItem q V.gate)⟩ : Stand).deed = .move s' ∧ V.Stands q none s' := by
  cases hgate : V.gate with
  | none =>
    have hasking := Stands.asking (q := q) h
    rw [inside_of_no_gate hgate, toll_of_no_gate hgate] at hasking
    exact ⟨_, rfl, hasking⟩
  | some g => exact ⟨_, rfl, .entering hgate .opening h⟩

/-- **What comes after each stand.** -/
theorem Stands.next (h : V.Stands q paid s) : V.Does q paid s := by
  cases h with
  | @entering g paid _ hgate h hfresh =>
    cases h.next with
    | go hgoes h' hbegins => exact .go hgoes hbegins (.entering hgate h' hfresh)
    | give hpaid hs => exact .give hgate hpaid hs (Guard.masked_enter _ _) (.entering hgate .given hfresh)
    | turn hpaid hs =>
      subst hpaid hs
      exact .turn rfl (fun _ => rfl) rfl nofun (.closing hgate hfresh.ends .ended) (.entering hgate .beginning hfresh)
    | begin hpaid hs =>
      subst hpaid hs
      have hasking := Stands.asking (q := q) hfresh
      rw [inside_of_gate hgate, toll_of_gate hgate] at hasking
      exact .go (.move rfl) nofun hasking
  | asking hfresh => exact .go (.move rfl) nofun (.requesting hfresh)
  | requesting hfresh => exact .request hfresh rfl rfl
  | undone hends => exact .go (.call rfl (Or.inl rfl) (fun _ => rfl) fun _ _ _ => rfl) nofun (.withdrawing hends)
  | withdrawing hends =>
    have hgoes : Stand.Goes ⟨(V.inside q).enter .uninterruptible, .eval (.resume .interrupted)⟩
        ⟨(V.inside q).enter .uninterruptible, .cause .interrupted⟩ :=
      .call rfl (Or.inr (Guard.masked_enter _ _)) (fun _ => rfl) fun _ _ _ => rfl
    exact .go hgoes nofun (.withdrawn hends)
  | withdrawn hends =>
    cases hgate : V.gate with
    | none =>
      rw [inside_of_no_gate hgate]
      exact .out hends (by rw [toll_of_no_gate hgate, toll_of_no_gate hgate]) rfl nofun
    | some g =>
      rw [inside_of_gate hgate, toll_of_gate hgate]
      exact .go (.move rfl) nofun (.closing hgate hends .ended)
  | @closing g x _ hgate hends h =>
    cases h.next with
    | go hgoes h' hbegins => exact .go hgoes hbegins (.closing hgate hends h')
    | acquire hx hs =>
      cases hends.eq_interrupted hx
      exact .acquire hgate hends rfl hs
    | skip hx hgoes hbegins =>
      have hleaving : V.Stands q (some x.isInterrupted.toNat) ⟨V.base.releasing x, .value .null⟩ :=
        .leaving hgate hends .cleaned
      rw [hx] at hleaving
      exact .go hgoes hbegins hleaving
  | @leaving g x _ hgate hends h =>
    cases h.next with
    | go hgoes h' hbegins => exact .go hgoes hbegins (.leaving hgate hends h')
    | out hdeed hbegins => exact .out hends (toll_of_gate hgate _).symm hdeed hbegins

/-! ## How far a take has come -/

/-- How far a take has come that began at some place of the books. -/
inductive Stage (V : Visit) (q : QueueId) (start : Nat) (σ : Engagements) (b : Books) (s : Scene) : Prop where
  | stands {paid : Option Nat} {stand : Stand} (hready : s.Ready V.fiber stand) (h : V.Stands q paid stand)
    (hclear : V.Clear start paid σ b)
  /-- The fiber has its ticket. -/
  | underway {draw : Draw} (hdrawn : V.Drawn draw) (hopen : V.undone = false)
    (h : Take.Underway ⟨V.inside q, q, draw⟩ V.fiber V.Got s) (hclear : V.Clear start (V.toll 0) σ b)
  /-- The fiber was interrupted, and acquires a permit again. -/
  | reacquires {g : SemaphoreId} {place : Nat} {es : List (SemaphoreId × Booking)} (hgate : V.gate = some g)
    (hσ : σ V.fiber = some ⟨V.base.releasing .interrupted, g, place⟩) (hends : V.Ends .interrupted)
    (hbought : b.Bought V.fiber V.gate 0 es)
    (hsince : b.since V.fiber start = (g, .returned V.fiber) :: (es ++ b.since V.fiber place))

/-- The fiber comes out of the take, with its toll paid. -/
def Over (V : Visit) (start : Nat) (σ : Engagements) (b : Books) (s : Scene) : Prop :=
  ∃ left x, s.moment.activity = .running V.fiber left ⟨V.base, .ofExit x⟩ ∧ V.Ends x ∧
    V.Clear start (V.toll x.isInterrupted.toNat) σ b

variable {σ σ' : Engagements} {b b' : Books} {s : Scene} {stroke : Stroke} {left start : Nat} {stand : Stand}
  {x : Exit Value Value} {draw : Draw} {l : DeferredId} {item : Item}

theorem Got.ends {v : Value} (h : V.Got v) (hopen : V.undone = false) : V.Ends (.value v) := by
  obtain ⟨item, hitem, rfl⟩ := Option.map_eq_some_iff.1 h
  exact .value hitem hopen

theorem Drawn.got {v : Value} (h : V.Drawn (.item v)) : V.Got v := by
  generalize hdraw : Draw.item v = draw at h
  cases h with
  | item _ hitem =>
    cases hdraw
    exact Option.map_eq_some_iff.2 ⟨_, hitem, rfl⟩
  | latch => cases hdraw

theorem Drawn.latch_eq (h : V.Drawn (.latch l)) : V.latch? = some l := by
  cases h with
  | latch h => exact h

/-- A take that waits gets an item. -/
theorem Stage.gain (h : V.Stage q start σ b s) (hlatch : V.latch? = some l) (hitem : V.item? = none)
    (hopen : V.undone = false) (item : Item) : ({ V with item? := some item } : Visit).Stage q start σ b s := by
  have hnot (hends : V.Ends .interrupted) : False := by
    generalize hx : (Exit.interrupted : Exit Value Value) = x at hends
    cases hends with
    | value => cases hx
    | interrupted _ h =>
      rcases h with hnone | hundone
      · cases hnone.symm.trans hlatch
      · cases hundone.symm.trans hopen
  have hnone {x : Exit Value Value} (hends : V.Ends x) : False := by
    cases hends with
    | value h => cases h.symm.trans hitem
    | interrupted _ h => exact hnot (.interrupted hitem h)
  have hfresh (hfresh : V.Fresh) : False := nomatch hfresh.latch.symm.trans hlatch
  cases h with
  | stands hready h =>
    cases h with
    | entering _ _ h | asking h | requesting h => exact (hfresh h).elim
    | undone h | withdrawing h | withdrawn h => exact (hnot h).elim
    | closing _ hends | leaving _ hends => exact (hnone hends).elim
  | underway hdrawn _ h hclear =>
    cases hdrawn with
    | item hnone => cases hnone.symm.trans hlatch
    | latch h' =>
      have hmore (v : Value) (hv : V.Got v) : ({ V with item? := some item } : Visit).Got v := by
        rw [Got, hitem] at hv
        cases hv
      exact .underway (.latch h') hopen (h.mono hmore) ⟨hclear.free, hclear.booked⟩
  | reacquires _ _ hends => exact (hnot hends).elim

/-! ## Strokes -/

/-- The take that is inside is over. -/
theorem Stage.of_inside (ho : s.Occurs) (ha : s.moment.activity = .running V.fiber left ⟨V.inside q, .ofExit x⟩)
    (hends : V.Ends x) (hclear : V.Clear start (V.toll 0) σ b) : V.Stage q start σ b s ∨ V.Over start σ b s := by
  cases hgate : V.gate with
  | none =>
    rw [inside_of_no_gate hgate] at ha
    rw [toll_of_no_gate hgate, ← toll_of_no_gate hgate x.isInterrupted.toNat] at hclear
    exact Or.inr ⟨left, x, ha, hends, hclear⟩
  | some g =>
    rw [inside_of_gate hgate] at ha
    rw [toll_of_gate hgate] at hclear
    exact Or.inl (.stands (ho.ready ha) (.closing hgate hends .ended) hclear)

section Step

variable (ha : s.moment.activity = .running V.fiber (left + 1) stand)
  (hadvance : Advance σ b s σ' (s.book .next b) (s.play .next))
include ha hadvance

/-- A step that books nothing and begins no acquire leaves the toll as it is. -/
theorem Clear.step (hclear : V.Clear start paid σ b) (hbook : s.book .next b = b) (hbegins : ∀ sem, ¬ stand.Begins sem) :
    V.Clear start paid σ' (s.book .next b) := by
  rw [hbook]
  exact ⟨hadvance.free ha hclear.free hbegins, hclear.booked⟩

/-- The fiber acquires a permit again. -/
theorem Stage.acquire (hgate : V.gate = some g) (hends : V.Ends .interrupted)
    (hs : stand = ⟨V.base.releasing .interrupted, .eval (.acquirePermit g)⟩) (hclear : V.Clear start (some 0) σ b) :
    V.Stage q start σ' (s.book .next b) (s.play .next) := by
  subst hs
  obtain ⟨hmoment, hbook⟩ := Scene.play_of_goes ha b (.move rfl)
  have hengaged : σ' V.fiber ≠ none := hadvance.orderly.engaged_of_asking (congrArg Moment.activity hmoment)
  obtain ⟨E, hE⟩ := Option.ne_none_iff_exists'.1 hengaged
  obtain ⟨hplace, left', hbegan⟩ := hadvance.began _ E hclear.free hE
  obtain ⟨base, sem, place⟩ := E
  cases ha.symm.trans hbegan
  cases hplace
  have hbooked := hclear.booked
  generalize hes : b.since V.fiber start = es at hbooked
  cases hbooked with
  | returned hgate' hbought =>
    cases hgate.symm.trans hgate'
    refine .reacquires hgate hE hends (hbook.symm ▸ hbought) ?_
    have hnothing : b.since V.fiber b.entries.length = [] := by rw [Books.since, List.drop_length, List.filter_nil]
    rw [hbook, hnothing, List.append_nil, hes]

/-- A step of the fiber before or after the time with a ticket. -/
theorem Stands.play (h : V.Stands q paid stand) (hσ : Orderly σ b s) (hclear : V.Clear start paid σ b) (hstart : start ≤ b.entries.length)
    (huses : ∀ run c, s.calls? .next = some (V.fiber, run, c) → ¬ c.uses q) :
    V.Stage q start σ' (s.book .next b) (s.play .next) ∨ V.Over start σ' (s.book .next b) (s.play .next) := by
  have hafter : (s.play .next).Occurs := hσ.occurs.after [.next]
  have hcome {moment : Moment} {stand' : Stand} {paid' : Option Nat} (hmoment : (s.play .next).moment = moment)
      (ha' : moment.activity = .running V.fiber left stand') (h' : V.Stands q paid' stand')
      (hclear' : V.Clear start paid' σ' (s.book .next b)) : V.Stage q start σ' (s.book .next b) (s.play .next) :=
    .stands (hafter.ready ((congrArg Moment.activity hmoment).trans ha')) h' hclear'
  cases h.next with
  | go hgoes hbegins h' =>
    obtain ⟨hmoment, hbook⟩ := Scene.play_of_goes ha b hgoes
    exact Or.inl (hcome hmoment rfl h' (hclear.step ha hadvance hbook hbegins))
  | @give g run hgate hpaid hs hmasked h' =>
    subst hpaid hs
    have hcuts : s.moment.world.cuts V.fiber (.thunk (.perform (.releasePermit g))) run = false :=
      World.cuts_of_masked hmasked s.moment.world V.fiber _
    exact Or.inl (hcome (Scene.play_of_call ha b rfl hcuts).1 rfl h'
      (hclear.give hσ hgate hstart (hadvance.free ha hclear.free nofun) (Scene.calls?_of_deed ha rfl hcuts)))
  | @turn c run next hdeed hact hdeals hbegins hcut h' =>
    have hbook : s.book .next b = b := hσ.book_eq ha hclear.free fun c' run' hdeed' => by
      cases hdeed.symm.trans hdeed'
      exact hdeals
    have hclear' := hclear.step ha hadvance hbook hbegins
    cases hcuts : s.moment.world.cuts V.fiber c run with
    | true => exact Or.inl (hcome (Scene.play_of_cut ha b hdeed hcuts).1 rfl hcut hclear')
    | false =>
      have hcalled : (s.moment.world.called c run).1 = ⟨run, next⟩ := by
        rw [World.called, hact]
        rfl
      obtain ⟨hmoment, -⟩ := Scene.play_of_call ha b hdeed hcuts
      rw [hcalled] at hmoment
      exact Or.inl (hcome hmoment rfl h' hclear')
  | request _ _ hs =>
    subst hs
    have hcuts : s.moment.world.cuts V.fiber (.thunk (.perform (.requestItem q))) (Take.asked (V.inside q)) = false :=
      World.cuts_of_masked (Guard.masked_enter _ _) s.moment.world V.fiber _
    exact absurd (Or.inr rfl) (huses _ _ (Scene.calls?_of_deed ha rfl hcuts))
  | acquire hgate hends hpaid hs =>
    subst hpaid
    exact Or.inl (.acquire ha hadvance hgate hends hs hclear)
  | out hends hpaid hdeed hbegins =>
    subst hpaid
    obtain ⟨hmoment, hbook⟩ := Scene.play_of_goes ha b (.move hdeed)
    exact Or.inr ⟨left, _, congrArg Moment.activity hmoment, hends, hclear.step ha hadvance hbook hbegins⟩

end Step

/-- **A stroke while a fiber acquires a permit again.** -/
theorem Stage.await {place : Nat} {es : List (SemaphoreId × Booking)} (hσ : Orderly σ b s)
    (hadvance : Advance σ b s σ' (s.book stroke b) (s.play stroke)) (hstart : start ≤ b.entries.length)
    (hgate : V.gate = some g) (hf : σ V.fiber = some ⟨V.base.releasing .interrupted, g, place⟩)
    (hends : V.Ends .interrupted) (hbought : b.Bought V.fiber V.gate 0 es)
    (hsince : b.since V.fiber start = (g, .returned V.fiber) :: (es ++ b.since V.fiber place)) :
    V.Stage q start σ' (s.book stroke b) (s.play stroke) := by
  obtain ⟨ask, ws, p, hat⟩ := hσ.engaged _ _ hf
  rcases hadvance.ended _ _ hf with hsame | ⟨hnone, hbook, left, t, v, ha, hlawful, hbooked⟩
  · obtain ⟨-, hdelivered, new, hnew⟩ := s.since_book stroke b V.fiber
    refine .reacquires hgate hsame hends (hbought.mono hdelivered) ?_
    rw [hnew start hstart, hnew place hat.start, hsince, List.cons_append, List.append_assoc]
  · cases hσ.kept_of_masked hf (Passage.masked_releasing _ _) hbooked
    refine .stands ((hσ.occurs.after [stroke]).ready ha) (.leaving hgate hends .cleaned) ⟨hnone, ?_⟩
    rw [hbook, hsince, hbooked]
    exact .returned hgate (hbought.settle hgate hlawful)

/-- **Every stroke that does not use the queue for the fiber keeps a take on its course**, or ends it with what it has
got. -/
theorem Stage.play (h : V.Stage q start σ b s) (hσ : Orderly σ b s)
    (hadvance : Advance σ b s σ' (s.book stroke b) (s.play stroke)) (hstart : start ≤ b.entries.length)
    (hothers : s.stepper? stroke ≠ some V.fiber → σ' V.fiber = σ V.fiber ∧
      ∀ start ≤ b.entries.length, (s.book stroke b).since V.fiber start = b.since V.fiber start)
    (huses : ∀ run c, s.calls? stroke = some (V.fiber, run, c) → ¬ c.uses q)
    (hserves : ∀ l, V.latch? = some l → V.undone = false → Take.Serves V.Got s stroke l) :
    V.Stage q start σ' (s.book stroke b) (s.play stroke) ∨ V.Over start σ' (s.book stroke b) (s.play stroke) := by
  have hstill (hstep : s.stepper? stroke ≠ some V.fiber) := (hothers hstep).imp_right fun h => h start hstart
  cases h with
  | stands hready h hclear =>
    by_cases hstep : s.stepper? stroke = some V.fiber
    · obtain ⟨rfl, left, stand, ha⟩ := Scene.of_stepper? hstep
      cases hready.eq ha
      exact h.play ha hadvance hσ hclear hstart huses
    · exact Or.inl (.stands (hready.still hσ.occurs hstep) h (hclear.play hstill fun hself => absurd hself hstep))
  | @underway draw hdrawn hopen h hclear =>
    have hundo (run : Run) : s.calls? stroke ≠ some (V.fiber, run, .thunk (.perform (Take.undo ⟨V.inside q, q, draw⟩))) := by
      intro hcalls
      refine huses run _ hcalls (Or.inl ?_)
      cases draw <;> rfl
    have hitem (v : Value) (hv : draw = .item v) : V.Got v := Drawn.got (hv ▸ hdrawn)
    have hlatch (l : DeferredId) (hl : draw = .latch l) : Take.Serves V.Got s stroke l :=
      hserves l (Drawn.latch_eq (hl ▸ hdrawn)) hopen
    have hclear' : V.Clear start (V.toll 0) σ' (s.book stroke b) := hclear.play hstill fun hself => by
      obtain ⟨rfl, left, stand, ha⟩ := Scene.of_stepper? hself
      have hstands : Take.Stands ⟨V.inside q, q, draw⟩ V.Got stand := h.stands_of_running hσ.occurs ha hlatch
      exact ⟨hadvance.free ha hclear.free hstands.not_begins,
        hσ.book_eq ha hclear.free fun c run hdeed => hstands.not_deals hdeed⟩
    rcases h.play hσ.occurs stroke hitem hlatch hundo with hstill | ⟨left, v, hv, ha⟩
    · exact Or.inl (.underway hdrawn hopen hstill hclear')
    · exact Stage.of_inside (hσ.occurs.after [stroke]) ha (hv.ends hopen) hclear'
  | reacquires hgate hf hends hbought hsince => exact Or.inl (.await hσ hadvance hstart hgate hf hends hbought hsince)

end Visit

end FiberLoop
