import FiberLoop.Proofs.Queues.Housing

/-!
# What a stroke does to takes

A stroke that uses a queue does something to the take of the fiber that uses it, and may bring an item to the take that
is first in line. Everything else it leaves as it was, and whoever brings an item rouses the fiber that waits for it. So
each take goes on (`Stock.Housed.goes_on`), whether or not something was brought to it.
-/

namespace FiberLoop

open World

/-! ## Items that are brought -/

/-- A take stays as it is, or has waited and gets an item. -/
inductive Visit.Gains (V : Visit) : Visit → Prop where
  | same : Gains V V
  | item {l : DeferredId} (hlatch : V.latch? = some l) (hitem : V.item? = none) (hopen : V.undone = false)
    (item : Item) : Gains V { V with item? := some item }

namespace Visit.Gains

variable {V W : Visit} (h : V.Gains W)
include h

theorem fiber : W.fiber = V.fiber := by
  cases h <;> rfl

theorem latch : W.latch? = V.latch? := by
  cases h <;> rfl

theorem stage {q : QueueId} {start : Nat} {σ : Engagements} {b : Books} {s : Scene} (hV : V.Stage q start σ b s) :
    W.Stage q start σ b s := by
  cases h with
  | same => exact hV
  | item hlatch hitem hopen item => exact hV.gain hlatch hitem hopen item

end Visit.Gains

/-- An item that comes to the queue is brought to one take at most. -/
theorem Stock.Kept.mem_bring {q : QueueId} {L : List DeferredId} {row : Queue} {aside : List Item} {S : Stock} {w : World}
    {W : Visit} (h : S.Kept q L row aside w) {keep spill : List Item → Item → List Item} {item : Item}
    (hW : W ∈ (S.bring (w.firstInLine? q) keep spill item).visits) : ∃ V ∈ S.visits, V.Gains W := by
  rw [h.firstInLine?] at hW
  cases hline : row.state.line with
  | nil =>
    rw [hline] at hW
    exact ⟨W, hW, .same⟩
  | cons latch rest =>
    rw [hline] at hW
    obtain ⟨V, hV, rfl⟩ := mem_revise.1 hW
    refine ⟨V, hV, ?_⟩
    split
    · rename_i hlatch
      obtain ⟨V', hV', hlatch', hitem, hopen⟩ := h.owned latch (hline ▸ List.mem_cons_self)
      cases h.apart.eq_of_latch hV' hV hlatch' (of_decide_eq_true hlatch)
      exact .item hlatch' hitem hopen item
    · exact .same

/-! ## Who is roused -/

namespace Scene

variable {s : Scene} {stroke : Stroke} {q : QueueId} {f : FiberId} {run : Run} {c : Call} {l latch : DeferredId}
  {item : Value} {place : Overflow → List Value → Value → List Value}

/-- If a stroke completes a latch, it rouses those who are parked in its line. -/
def Rouses (s : Scene) (stroke : Stroke) (l : DeferredId) : Prop :=
  ∀ x, s.moment.world.pollDeferred l = none → (s.play stroke).moment.world.pollDeferred l = some x →
    (∃ g left stand, s.moment.activity = .running g left stand) ∧
      ∀ f home run key, s.moment.world.Asleep f home run (.waiter l key) →
        .task (.resume f run (.ofExit x)) ∈ ((s.play stroke).moment.world.loopAt home).inbox

theorem rouses_of_polls (h : (s.play stroke).moment.world.pollDeferred l = s.moment.world.pollDeferred l) :
    s.Rouses stroke l :=
  fun _ hpending hdone => nomatch hpending.symm.trans (h.symm.trans hdone)

section

variable (ho : s.Occurs) (hcalls : s.calls? stroke = some (f, run, c)) (hmade : l.index < s.moment.world.stores.deferreds.size)
include ho hcalls hmade

/-- Whoever brings an item to the queue rouses the fiber that is first in line. -/
theorem rouses_of_deliver (hworld : (s.play stroke).moment.world = s.moment.world.deliver q item place) :
    s.Rouses stroke l := by
  unfold World.deliver at hworld
  split at hworld
  · exact rouses_of_polls (by rw [hworld])
  · rename_i row hrow
    split at hworld
    · rename_i latch rest hline
      by_cases hl : l = latch
      · subst hl
        intro x hpending hdone
        obtain ⟨-, left, stand, ha, -⟩ := of_calls? hcalls
        refine ⟨⟨f, left + 1, stand, ha⟩, fun f home run' key hasleep => ?_⟩
        obtain ⟨waiters, key', hrow'⟩ := pending_of_pollDeferred_none hpending hmade
        have hpoll : (s.play stroke).moment.world.pollDeferred l = some (.value item) := by
          rw [hworld]
          exact pollDeferred_completeDeferred_self hrow' (.value item)
        cases hdone.symm.trans hpoll
        rw [hworld]
        exact ho.tidy.task_complete hasleep (.value item)
      · refine rouses_of_polls ?_
        rw [hworld]
        exact pollDeferred_completeDeferred_of_ne hl _ _
    · exact rouses_of_polls (by rw [hworld]; rfl)
    · exact rouses_of_polls (by rw [hworld]; rfl)

theorem rouses_of_abandon (hworld : (s.play stroke).moment.world = s.moment.world.abandonItem q latch) :
    s.Rouses stroke l := by
  have hreclaim (hworld : (s.play stroke).moment.world = s.moment.world.reclaimItem q latch) : s.Rouses stroke l := by
    unfold World.reclaimItem at hworld
    split at hworld
    · exact rouses_of_deliver ho hcalls hmade hworld
    · exact rouses_of_polls (by rw [hworld])
  unfold World.abandonItem at hworld
  split at hworld
  · split at hworld
    · exact rouses_of_polls (by rw [hworld]; rfl)
    · exact hreclaim hworld
  · exact hreclaim hworld

end

end Scene

/-! ## Takes that go on -/

namespace Stock

variable {S S' : Stock} {q : QueueId} {p : Overflow} {L L' : List DeferredId} {row row' : Queue} {σ σ' : Engagements}
  {b b' : Books} {s : Scene} {stroke : Stroke} {V W : Visit} {f : FiberId} {run : Run} {c : Call} {v : Value} {start start' : FiberId → Nat}

/-- What comes with a stroke: the acquires after it, and the places of the books at which the takes have begun. -/
structure Turn (q : QueueId) (S : Stock) (start : FiberId → Nat) (σ : Engagements) (b : Books) (s : Scene) (stroke : Stroke)
    (start' : FiberId → Nat) (σ' : Engagements) : Prop where
  advance : Advance σ b s σ' (s.book stroke b) (s.play stroke)
  others : ∀ f, s.stepper? stroke ≠ some f → σ' f = σ f ∧
    ∀ place ≤ b.entries.length, (s.book stroke b).since f place = b.since f place
  keeps : ∀ f, S.Inside f → start' f = start f
  begins : ∀ V, s.visit? q stroke S = some V → start' V.fiber = b.entries.length

/-- **A take goes on, or is over**, whether or not an item is brought to it, unless its fiber uses the queue. -/
theorem Housed.goes_on (h : Housed q p S L row start σ b s) (hturn : Turn q S start σ b s stroke start' σ')
    (hV : V ∈ S.visits) (hgains : V.Gains W) (huses : ∀ run c, s.calls? stroke = some (V.fiber, run, c) → ¬ c.uses q)
    (hkept : S'.Kept q L' row' [] (s.play stroke).moment.world) (hW : W ∈ S'.visits)
    (hrouses : ∀ l ∈ L, s.Rouses stroke l) :
    W.Stage q (start' W.fiber) σ' (s.book stroke b) (s.play stroke) ∨
      W.Over (start' W.fiber) σ' (s.book stroke b) (s.play stroke) := by
  have hstage : W.Stage q (start V.fiber) σ b s := hgains.stage (h.course V hV)
  have hstart : start V.fiber ≤ b.entries.length := h.starts V hV
  rw [← hturn.keeps V.fiber ⟨V, hV, rfl⟩] at hstage hstart
  rw [← hgains.fiber] at huses hstage hstart
  refine hstage.play h.orderly hturn.advance hstart (hturn.others W.fiber) huses fun l hl hopen => ?_
  have hlL : l ∈ L := h.kept.apart.known V (List.mem_append_left _ hV) l (hgains.latch ▸ hl)
  refine ⟨h.withheld.made l hlL, fun x hx => ?_, hrouses l hlL⟩
  obtain ⟨item, hitem, rfl⟩ := Option.map_eq_some_iff.1 ((hkept.latched W hW hopen l hl).symm.trans hx)
  exact .value (Option.map_eq_some_iff.2 ⟨item, hitem, rfl⟩)

/-! ## Who uses the queue -/

/-- A fiber that is in no take does not use the queue but to offer an item. -/
theorem Housed.offers (h : Housed q p S L row start σ b s) (hcalls : s.calls? stroke = some (f, run, c)) (huses : c.uses q)
    (hout : ¬ S.Inside f) : ∃ v, c = .thunk (.perform (.offerItem q v)) ∧ v.In (.outside q fun _ => False) := by
  obtain ⟨-, left, stand, ha, hdeed, -⟩ := Scene.of_calls? hcalls
  have hactivity := h.veiled.within.activity
  rw [ha] at hactivity
  obtain ⟨hrun, hnext⟩ := hactivity hout
  obtain ⟨hc, -⟩ := Stand.in_of_call hrun hnext hdeed
  rcases Call.cases_of_uses huses with rfl | ⟨v, rfl⟩ | ⟨v, rfl⟩ | ⟨l, rfl⟩
  · exact absurd rfl (hc (.draw q) (List.mem_cons_of_mem _ (List.mem_cons_of_mem _ List.mem_cons_self)))
  · exact ⟨v, rfl, Operation.in_of_offerItem hc⟩
  · exact absurd rfl (hc (.undo q) List.mem_cons_self)
  · exact absurd rfl (hc (.undo q) List.mem_cons_self)

/-- The base of a take that begins is known to everybody. -/
theorem Housed.in_of_visit? (h : Housed q p S L row start σ b s) (hvisit : s.visit? q stroke S = some V) :
    V.base.In (.outside q fun _ => False) := by
  obtain ⟨-, ⟨left, ha⟩, -, hout⟩ := Scene.of_visit? hvisit
  have hactivity := h.veiled.within.activity
  rw [ha] at hactivity
  exact (hactivity hout).1

/-! ## The veil -/

/-- The fibers that are in takes after a stroke were in takes before, or have begun with one. -/
theorem inside_moves (S : Stock) : (s.moves q p stroke S).Inside f ↔ S.Inside f ∨ ∃ V, s.visit? q stroke S = some V ∧ V.fiber = f := by
  cases hcalls : s.calls? stroke with
  | none =>
    rw [Scene.moves_of_no_call hcalls]
    refine ⟨?_, ?_⟩
    · rintro ⟨V, hV, rfl⟩
      rcases List.mem_append.1 hV with hold | hnew
      · exact Or.inl ⟨V, hold, rfl⟩
      · exact Or.inr ⟨V, Option.mem_toList.1 hnew, rfl⟩
    · rintro (⟨V, hV, rfl⟩ | ⟨V, hV, rfl⟩)
      · exact ⟨V, List.mem_append_left _ hV, rfl⟩
      · exact ⟨V, List.mem_append_right _ (Option.mem_toList.2 hV), rfl⟩
  | some call =>
    obtain ⟨g, run, c⟩ := call
    have hno (V : Visit) (hV : s.visit? q stroke S = some V) : False :=
      nomatch (Scene.calls?_of_visit? hV).symm.trans hcalls
    rw [Scene.moves_of_calls? hcalls, mem_inside, record_visits Visit.fiber fun _ _ _ _ => rfl, ← mem_inside]
    exact ⟨Or.inl, fun hinside => hinside.resolve_right fun ⟨V, hV, _⟩ => hno V hV⟩

/-- Before a stroke, a fiber that is about to begin with a take may be veiled. -/
theorem Housed.veiled_moves (h : Housed q p S L row start σ b s) (stroke : Stroke) :
    s.Veiled (.outside q (s.moves q p stroke S).Inside) := by
  refine h.veiled.rescope h.orderly.quiet (fun f hf => ?_) (fun f hf => Or.inl (S.inside_moves.2 (Or.inl hf))) ?_
  · refine (S.inside_moves.1 hf).imp_right ?_
    rintro ⟨V, hV, rfl⟩
    obtain ⟨-, ⟨left, ha⟩, -⟩ := Scene.of_visit? hV
    exact (h.orderly.occurs.bare ha).2
  · exact h.veiled.within.activity.mono (Scope.veil_grows id) fun f _ hf => fun hinside => hf (S.inside_moves.2 (Or.inl hinside))

/-- **A stroke keeps the veil of those who are in takes then.** -/
theorem Housed.veiled_play (h : Housed q p S L row start σ b s) (stroke : Stroke) :
    (s.play stroke).Veiled (.outside q (s.moves q p stroke S).Inside) := by
  refine (h.veiled_moves stroke).play h.orderly.occurs stroke (by rintro g ⟨⟩) id (fun _ => trivial) ?_ (by rintro _ _ _ _ _ g ⟨⟩) ?_
  · rintro rfl f left stand ha hdraws
    exact S.inside_moves.2 (Scene.inside_of_draws ha hdraws)
  · intro f ha hf
    rcases S.inside_moves.1 hf with ⟨V, hV, rfl⟩ | ⟨V, hV, rfl⟩
    · refine (h.course V hV).modest h.orderly ha (fun _ => trivial) fun v hv => ?_
      obtain ⟨item, hitem, rfl⟩ := Option.map_eq_some_iff.1 hv
      exact h.kept.in_of_item h.known hV hitem
    · obtain ⟨rfl, ⟨left, hstand⟩, hfresh, -⟩ := Scene.of_visit? hV
      obtain ⟨s', hdeed, -⟩ := Visit.stands_of_begin (q := q) hfresh
      rw [hstand]
      intro c run hcall
      cases hdeed.symm.trans hcall

end Stock

end FiberLoop
