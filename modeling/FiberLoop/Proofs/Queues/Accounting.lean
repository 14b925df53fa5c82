import FiberLoop.Proofs.Queues.Conserving

/-!
# Where the items of a queue are

In every run, from the time on at which a queue was made, each item that was placed is in exactly one place: a take has
ended with it, it is in the buffer, a take in progress holds it, or the policy has left it out. A take that was
interrupted has nothing and waits for nothing, and the queue holds items or a line of takes in progress, never both
(`Scene.Occurs.loses_nothing`). This is so for every policy, and whatever the fibers are that offer and take, and the time
at which they are interrupted.
-/

namespace FiberLoop

open World

section

variable {q : QueueId} {p : Overflow} {S : Stock} {s : Scene} {b : Books} {stroke : Stroke} {row : Queue}

/-! ## Before the queue is made -/

theorem Recorded.queue?_of_play (h : Recorded b s) (hnone : (s.play stroke).moment.world.queue? q = none) :
    s.moment.world.queue? q = none := by
  cases hrow : s.moment.world.queue? q with
  | none => rfl
  | some row =>
    obtain ⟨L, hlined⟩ := h.lined hrow
    obtain ⟨L', row', hlined', -⟩ := hlined.play stroke
    cases hnone.symm.trans hlined'.lined.found

/-- As long as nobody knows a queue, a stroke hands out no more of it than that it is made. -/
theorem Scene.Veiled.unmade {made : Prop} (h : s.Veiled (.veil q none False fun _ => False)) (ho : s.Occurs)
    (hnew : ((s.play stroke).moment.world.queue? q).isSome = true → made) :
    (s.play stroke).Veiled (.veil q none made fun _ => False) := by
  refine h.play ho stroke (by rintro g ⟨⟩) False.elim hnew ?_ (by rintro _ _ _ _ _ g ⟨⟩) fun f _ hf => hf.elim
  rintro - f left ⟨run, next⟩ ha hdraws
  cases hdraws
  have hactivity := h.within.activity
  rw [ha] at hactivity
  obtain ⟨-, hnext⟩ := hactivity id
  exact (Effect.in_takeItem.1 hnext).1 rfl

/-- Nobody knows a queue that is not made. -/
theorem Recorded.unmade (h : Recorded b s) (hnone : s.moment.world.queue? q = none) :
    s.Veiled (.veil q none False fun _ => False) := by
  induction h with
  | initial config definitions =>
    refine ⟨⟨?_, trivial⟩, nofun⟩
    exact {
      loop := ⟨nofun, nofun⟩
      aside := ⟨nofun, nofun⟩
      fibers := fun _ _ hr => nomatch hr
      notices := fun _ _ hnotice => nomatch hnotice
      hidden := fun _ hf => absurd id hf
      stale := fun _ _ _ _ hf => absurd id hf
      stores := ⟨nofun, nofun, nofun, nofun, nofun, fun _ _ => nofun⟩
      session := ⟨nofun, nofun, nofun⟩ }
  | @play b s h stroke ih =>
    obtain ⟨σ, hσ⟩ := h.orderly
    exact (ih (h.queue?_of_play hnone)).unmade hσ.occurs fun hsome => by
      rw [hnone] at hsome
      cases hsome

/-! ## Runs -/

namespace Stock

/-- The stock of a queue that is made. -/
theorem Housed.of_made (h : Recorded b s) (stroke : Stroke) (hnone : s.moment.world.queue? q = none)
    (hrow : (s.play stroke).moment.world.queue? q = some row) :
    ∃ start σ, Housed q row.policy {} [] row start σ (s.book stroke b) (s.play stroke) := by
  obtain ⟨hwithheld, hstate⟩ := h.withheld_made hnone hrow
  obtain ⟨σ, hσ⟩ := (h.play stroke).orderly
  obtain ⟨σ₀, hσ₀⟩ := h.orderly
  have hveiled : (s.play stroke).Veiled (.veil q none True fun _ => False) :=
    (h.unmade hnone).unmade hσ₀.occurs fun _ => trivial
  have hlined : (s.play stroke).moment.world.Lined q [] row := by
    refine ⟨hrow, hstate ▸ nofun, hstate ▸ nofun, hstate ▸ .nil, fun items hitems => ?_⟩
    cases hstate.symm.trans hitems
    exact row.policy.fits_nil
  exact ⟨fun _ => 0, σ, {
    orderly := hσ
    withheld := hwithheld
    kept := ⟨hlined, Or.inl hstate, ⟨.nil, .nil, nofun⟩, hstate ▸ nofun, nofun, .empty row.policy⟩
    policy := rfl
    known := ⟨nofun, nofun, nofun⟩
    veiled := hveiled.rescope hσ.quiet (fun f ⟨V, hV, _⟩ => nomatch hV) (fun f hf => hf.elim)
      (hveiled.within.activity.mono (Scope.veil_grows id) fun f _ _ => id)
    starts := nofun
    stages := nofun
    course := nofun }⟩

end Stock

/-- **The stock of a queue is housed in every run.** -/
theorem Stocked.housed (h : Stocked q p S s) : ∃ L row start σ b, S.Housed q p L row start σ b s := by
  induction h with
  | make ho stroke hnone hmade =>
    obtain ⟨b, hrecorded⟩ := ho.recorded
    obtain ⟨row, hrow, rfl⟩ := Option.map_eq_some_iff.1 hmade
    obtain ⟨start, σ, hhoused⟩ := Stock.Housed.of_made hrecorded stroke hnone hrow
    exact ⟨[], row, start, σ, _, hhoused⟩
  | play h stroke ih =>
    obtain ⟨L, row, start, σ, b, hhoused⟩ := ih
    obtain ⟨start', σ', hturn⟩ := Stock.exists_turn hhoused.orderly _ start stroke
    obtain ⟨L', row', hhoused'⟩ := hhoused.play hturn
    exact ⟨L', row', start', σ', _, hhoused'⟩

theorem Stocked.after (h : Stocked q p S s) (strokes : List Stroke) :
    Stocked q p (s.stocks q p strokes S) (s.after strokes) := by
  induction strokes generalizing s S with
  | nil => exact h
  | cons stroke rest ih => exact ih (h.play stroke)

/-- A queue that is there has a stock. -/
theorem Scene.Occurs.stocked (h : s.Occurs) (hrow : s.moment.world.queue? q = some row) :
    ∃ S, Stocked q row.policy S s := by
  obtain ⟨b, hrecorded⟩ := h.recorded
  induction hrecorded generalizing row with
  | initial config definitions => cases hrow
  | @play b s hrecorded stroke ih =>
    obtain ⟨σ, hσ⟩ := hrecorded.orderly
    cases hold : s.moment.world.queue? q with
    | none => exact ⟨{}, .make hσ.occurs stroke hold (congrArg (Option.map Queue.policy) hrow)⟩
    | some old =>
      obtain ⟨L, hlined⟩ := hrecorded.lined hold
      obtain ⟨L', row', hlined', hpolicy⟩ := hlined.play stroke
      cases hrow.symm.trans hlined'.lined.found
      obtain ⟨S, hstocked⟩ := ih hσ.occurs hold
      exact ⟨_, hpolicy ▸ hstocked.play stroke⟩

/-! ## Every item is accounted for -/

/-- A take that holds an item has not given up. -/
theorem Visit.Stage.open_of_item {V : Visit} {start : Nat} {σ : Engagements} {item : Item} (h : V.Stage q start σ b s) (hitem : V.item? = some item) :
    V.undone = false := by
  have hends {x : Exit Value Value} (hends : V.Ends x) : V.undone = false := by
    cases hends with
    | value _ hopen => exact hopen
    | interrupted hnone => cases hitem.symm.trans hnone
  cases h with
  | stands _ h =>
    cases h with
    | entering _ _ hfresh | asking hfresh | requesting hfresh => exact hfresh.undone
    | undone h | withdrawing h | withdrawn h | closing _ h | leaving _ h => exact hends h
  | underway _ hopen => exact hopen
  | reacquires _ _ h => exact hends h

/-- What is to be said of the items of a queue at any time. -/
structure Stock.Accounted (q : QueueId) (p : Overflow) (S : Stock) (s : Scene) : Prop where
  /-- Each item that was placed is in exactly one place: a take has ended with it, it is in the buffer, a take in
  progress holds it, or it was left out. -/
  places : (S.delivered ++ S.buffer ++ S.held ++ S.discarded).Perm S.items
  distinct : S.items.Nodup
  /-- Only a policy with a limit leaves anything out. -/
  discarded : p.limit? = none → S.discarded = []
  /-- A take ends with its item, or interrupted, with no item and no latch that it has not given up. -/
  ends : ∀ e ∈ S.ended, e.1.Ends e.2
  /-- No latch of a take that is over is in line. -/
  gone : ∀ e ∈ S.ended, ∀ l, e.1.latch? = some l → ∀ state, s.moment.world.queueState? q = some state → l ∉ state.line
  /-- A fiber is in one take at most, and goes on with it until it comes out. -/
  alone : (S.visits.map Visit.fiber).Nodup
  inside : ∀ V ∈ S.visits, s.Evaluates V.fiber V.base
  /-- An item that is held was found in the buffer, or is in the latch of the take, which is completed with it. -/
  held : ∀ V ∈ S.visits, ∀ item, V.item? = some item →
    ∀ l, V.latch? = some l → s.moment.world.pollDeferred l = some (.value item.value)
  /-- Nobody asks for an item or gives one back but in a take. -/
  uses : ∀ stroke f run c, s.calls? stroke = some (f, run, c) → c.uses q →
    (∃ v, c = .thunk (.perform (.offerItem q v))) ∨ ∃ V ∈ S.visits, V.fiber = f
  /-- The queue holds the items of the buffer, or there are none and it holds a line of distinct latches that are not
  completed, each of a take in progress that has no item. -/
  state : s.moment.world.queueState? q = some (.ready (S.buffer.map Item.value)) ∨
    S.buffer = [] ∧ ∃ line, s.moment.world.queueState? q = some (.waiting line) ∧ line ≠ [] ∧ line.Nodup ∧
      ∀ l ∈ line, s.moment.world.pollDeferred l = none ∧
        ∃ V ∈ S.visits, V.latch? = some l ∧ V.item? = none ∧ V.undone = false

namespace Stock

variable {L : List DeferredId} {start : FiberId → Nat} {σ : Engagements}

/-- The latch of a take that is over is not in line: all there are those of takes in progress. -/
theorem Kept.not_mem_line {aside : List Item} {w : World} (h : S.Kept q L row aside w) {e : Visit × Exit Value Value}
    (he : e ∈ S.ended) {l : DeferredId} (hl : e.1.latch? = some l) : l ∉ row.state.line := by
  intro hline
  obtain ⟨V, hV, hlatch, -⟩ := h.owned l hline
  have hlatches := h.apart.latches
  rw [takes, List.filterMap_append] at hlatches
  exact (List.nodup_append.1 hlatches).2.2 l (List.mem_filterMap.2 ⟨V, hV, hlatch⟩) l
    (List.mem_filterMap.2 ⟨e.1, List.mem_map_of_mem he, hl⟩) rfl

theorem Kept.waiting {aside : List Item} {w : World} (h : S.Kept q L row aside w) (hne : row.state.line ≠ []) :
    row.state = .waiting row.state.line := by
  cases hline : row.state.line with
  | nil => exact absurd hline hne
  | cons latch rest => exact h.state_of_line hline

theorem Housed.accounted (h : S.Housed q p L row start σ b s) : S.Accounted q p s where
  places := h.kept.balanced.all
  distinct := S.nodup_items
  discarded hp := h.kept.balanced.discarded (h.policy.symm ▸ hp)
  ends := h.known.ends
  gone e he l hl state hstate := by
    cases hstate.symm.trans (queueState?_of_row h.kept.lined.found)
    exact h.kept.not_mem_line he hl
  alone := h.kept.apart.fibers
  inside V hV := (h.course V hV).evaluates h.orderly
  held V hV item hitem l hl := by
    rw [h.kept.latched V hV ((h.course V hV).open_of_item hitem) l hl, hitem]
    rfl
  uses stroke f run c hcalls huses := by
    by_cases hinside : S.Inside f
    · exact Or.inr hinside
    · obtain ⟨v, hv, -⟩ := h.offers hcalls huses hinside
      exact Or.inl ⟨v, hv⟩
  state := by
    rw [queueState?_of_row h.kept.lined.found]
    refine h.kept.state.imp (congrArg some) fun hwaits => ⟨hwaits.1, row.state.line, ?_⟩
    exact ⟨congrArg some (h.kept.waiting hwaits.2), hwaits.2, h.kept.lined.distinct,
      fun l hl => ⟨h.kept.lined.opened l hl, h.kept.owned l hl⟩⟩

end Stock

/-- **A queue loses no item and duplicates none.** -/
theorem Scene.Occurs.loses_nothing (h : s.Occurs) (hrow : s.moment.world.queue? q = some row) :
    (∃ S, Stocked q row.policy S s) ∧ ∀ p S, Stocked q p S s → S.Accounted q p s := by
  refine ⟨h.stocked hrow, fun p S hstocked => ?_⟩
  obtain ⟨L, row', start, σ, b, hhoused⟩ := hstocked.housed
  exact hhoused.accounted

end

/-- A queue is made that keeps the newest item only. -/
def making : Stroke := .demand (.scenario (.newQueue "q" (.sliding 1)))

/-- It is offered an item, which is taken. Then somebody takes and waits, and three more are offered. -/
def sliding : List Stroke :=
  [.demand (.scenario (.run "a" (.queue (.offer (.var "q") (.const (.int 0)))) false)),
    .demand (.scenario (.run "b" (.queue (.take (.var "q"))) false))] ++ List.replicate 60 .next ++
  [.demand (.scenario (.run "c" (.queue (.take (.var "q"))) false))] ++ List.replicate 30 .next ++
  [.demand (.scenario (.run "d" (.queue (.offerAll (.var "q") (.list [.const (.int 1), .const (.int 2), .const (.int 3)])))
    false))] ++ List.replicate 20 .next

/-- The stock of that queue. -/
def slid : Stock := ((Scene.initial {} []).play making).stocks ⟨0⟩ (.sliding 1) sliding {}

/-- The first item is delivered, the second one is handed to the take that waits, the third one was left out for the last
one, which is in the buffer. -/
theorem Scene.loses_nothing_of_slid :
    slid.delivered.map Item.place = [0] ∧ slid.buffer.map Item.place = [3] ∧ slid.held.map Item.place = [1] ∧
      slid.discarded.map Item.place = [2] ∧
      slid.Accounted ⟨0⟩ (.sliding 1) (((Scene.initial {} []).play making).after sliding) := by
  have hmade : Stocked ⟨0⟩ (.sliding 1) {} ((Scene.initial {} []).play making) :=
    .make (.initial {} []) making rfl rfl
  have hoccurs : ((Scene.initial {} []).play making).Occurs := (Occurs.initial {} []).after [making]
  have hsome : ((((Scene.initial {} []).play making).after sliding).moment.world.queue? ⟨0⟩).isSome = true := by
    decide +kernel
  obtain ⟨row, hrow⟩ := Option.isSome_iff_exists.1 hsome
  exact ⟨by decide +kernel, by decide +kernel, by decide +kernel, by decide +kernel,
    ((hoccurs.after sliding).loses_nothing hrow).2 _ _ (hmade.after sliding)⟩

end FiberLoop
