import FiberLoop.Proofs.Queues.Bringing

/-!
# Stocks, stroke by stroke

Every stroke of a run keeps the stock of a queue (`Stock.Housed.play`). There are few cases: the stroke does not use
the queue, and a take may begin with it; an item is offered; a take asks for an item and finds one, or joins the line;
a take gives up. In each case the takes of other fibers go on, and at most one of them gets an item.
-/

namespace FiberLoop

open World

namespace Stock

variable {S S' : Stock} {q : QueueId} {p : Overflow} {L L' : List DeferredId} {row row' : Queue} {σ σ' : Engagements}
  {b b' : Books} {s : Scene} {stroke : Stroke} {V W : Visit} {f : FiberId} {run : Run} {c : Call} {v : Value} {w : World}
  {item : Item} {latch : DeferredId} {start start' : FiberId → Nat}

/-- A take that gives up holds nothing then, and what it gives back is brought to another take at most. -/
theorem Kept.mem_giveBack (h : S.Kept q L row [] w) (hV : V ∈ S.visits) (hopen : V.undone = false)
    (hW : W ∈ (S.giveBack p V.fiber (w.firstInLine? q)).visits) :
    W = { V with item? := none, undone := true } ∨ ∃ V' ∈ S.visits, V'.fiber ≠ V.fiber ∧ V'.Gains W := by
  have hleft {V' : Visit} (hV' : V' ∈ (S.revise (·.fiber = V.fiber) fun V => { V with item? := none, undone := true }).visits)
      (hgains : V'.Gains W) : W = { V with item? := none, undone := true } ∨ ∃ V' ∈ S.visits, V'.fiber ≠ V.fiber ∧ V'.Gains W := by
    obtain ⟨V₀, hV₀, rfl⟩ := mem_revise.1 hV'
    by_cases hsame : V₀.fiber = V.fiber
    · cases h.apart.eq_of_fiber hV hV₀ hsame
      rw [if_pos (decide_eq_true hsame)] at hgains
      cases hgains with
      | same => exact Or.inl rfl
      | item _ _ hundone => cases hundone
    · rw [if_neg (by simpa using hsame)] at hgains
      exact Or.inr ⟨V₀, hV₀, hsame, hgains⟩
  rw [h.giveBack_eq hV] at hW
  cases hitem : V.item? with
  | none =>
    rw [hitem] at hW
    exact hleft hW .same
  | some item =>
    rw [hitem] at hW
    have hout (l : DeferredId) (hl : V.latch? = some l) : l ∉ row.state.line := fun hline => by
      have hpoll := h.latched V hV hopen l hl
      rw [h.lined.opened l hline, hitem] at hpoll
      cases hpoll
    obtain ⟨V', hV', hgains⟩ := (h.giveUp hV hout).mem_bring hW
    exact hleft hV' hgains

/-- A closure that does not use the queue leaves the stock as it is. -/
theorem record_of_not_uses (huses : ¬ c.uses q) : S.record q p f c w = S := by
  unfold record
  split
  · exact if_neg (by rintro rfl; exact huses (Or.inr rfl))
  · exact if_neg (by rintro rfl; exact huses (Or.inl rfl))
  · exact if_neg (by rintro rfl; exact huses (Or.inl rfl))
  · exact if_neg (by rintro rfl; exact huses (Or.inl rfl))
  · rfl

namespace Housed

variable (h : Housed q p S L row start σ b s)
include h

theorem lined : s.Lined q L b row := ⟨h.withheld, h.kept.lined⟩

/-- What is known stays known. -/
theorem known_moves (stroke : Stroke) : (s.moves q p stroke S).Known q := by
  cases hcalls : s.calls? stroke with
  | none =>
    rw [Scene.moves_of_no_call hcalls]
    refine ⟨fun V hV => ?_, h.known.placed, h.known.ends⟩
    rcases List.mem_append.1 hV with hold | hnew
    · exact h.known.bases V hold
    · exact h.in_of_visit? (Option.mem_toList.1 hnew)
  | some call =>
    obtain ⟨f, run, c⟩ := call
    rw [Scene.moves_of_calls? hcalls]
    refine h.known.record fun v hv => ?_
    subst hv
    by_cases hinside : S.Inside f
    · obtain ⟨V, hV, rfl⟩ := hinside
      cases ((h.course V hV).uses h.orderly hcalls (Or.inl rfl)).1 with
      | request _ hc => cases hc
      | @undo draw _ _ hc => cases draw <;> cases hc
    · obtain ⟨v', hv', hin⟩ := h.offers hcalls (Or.inl rfl) hinside
      cases hv'
      exact hin

variable (hturn : Turn q S start σ b s stroke start' σ')
include hturn

/-- A take that is in progress after a stroke was so before, or begins with it. -/
theorem starts_moves (hV : V ∈ (s.moves q p stroke S).visits) :
    start' V.fiber ≤ (s.book stroke b).entries.length := by
  refine Nat.le_trans ?_ (s.since_book stroke b V.fiber).1
  rcases S.inside_moves.1 ⟨V, hV, rfl⟩ with hinside | ⟨W, hW, hfiber⟩
  · obtain ⟨W, hW, hfiber⟩ := hinside
    rw [hturn.keeps V.fiber ⟨W, hW, hfiber⟩, ← hfiber]
    exact h.starts W hW
  · rw [← hfiber, hturn.begins W hW]

/-- What has to be shown of a stroke. -/
theorem moved (hwithheld : (s.play stroke).Withheld (some q) L' (s.book stroke b))
    (hkept : (s.moves q p stroke S).Kept q L' row' [] (s.play stroke).moment.world) (hpolicy : row'.policy = row.policy)
    (hstages : ∀ V ∈ (s.moves q p stroke S).visits, V.Stage q (start' V.fiber) σ' (s.book stroke b) (s.play stroke) ∨
      V.Over (start' V.fiber) σ' (s.book stroke b) (s.play stroke)) :
    ∃ L' row', Moved q p (s.moves q p stroke S) L' row' start' σ' (s.book stroke b) (s.play stroke) :=
  ⟨L', row', hturn.advance.orderly, hwithheld, hkept, hpolicy.trans h.policy, h.known_moves stroke,
    h.veiled_play stroke, fun _ => h.starts_moves hturn, hstages⟩

omit h hturn in
/-- Nobody but the fiber that calls the closure uses the queue. -/
theorem not_uses_of_ne (hcalls : s.calls? stroke = some (f, run, c)) (hne : V.fiber ≠ f) (run' : Run) (c' : Call)
    (hcalls' : s.calls? stroke = some (V.fiber, run', c')) : ¬ c'.uses q := by
  cases hcalls.symm.trans hcalls'
  exact absurd rfl hne

/-- The use of the queue leaves the toll of a take as it is. -/
theorem clear_of_uses {paid : Option Nat} (hV : V ∈ S.visits) (hcalls : s.calls? stroke = some (V.fiber, run, c))
    (huses : c.uses q) (hclear : V.Clear (start V.fiber) paid σ b) :
    V.Clear (start' V.fiber) paid σ' (s.book stroke b) := by
  rw [hturn.keeps V.fiber ⟨V, hV, rfl⟩]
  have hadvance := hturn.advance
  obtain ⟨rfl, left, stand, ha, hdeed, -⟩ := Scene.of_calls? hcalls
  refine hclear.step ha hadvance (h.orderly.book_eq ha hclear.free fun c' run' hdeed' => ?_)
    fun _ => Stand.not_begins_of_call hdeed
  cases hdeed.symm.trans hdeed'
  exact Call.not_deals_of_uses huses

/-! ## A stroke that does not use the queue -/

omit h hturn in
/-- Nothing happens to the stock but that a take begins. -/
theorem moves_of_not_uses (huses : ∀ f run c, s.calls? stroke = some (f, run, c) → ¬ c.uses q) :
    s.moves q p stroke S = { S with visits := S.visits ++ (s.visit? q stroke S).toList } := by
  cases hcalls : s.calls? stroke with
  | none => exact Scene.moves_of_no_call hcalls
  | some call =>
    obtain ⟨f, run, c⟩ := call
    have hnone : s.visit? q stroke S = none := Option.eq_none_iff_forall_ne_some.2 fun V hV =>
      nomatch (Scene.calls?_of_visit? hV).symm.trans hcalls
    rw [Scene.moves_of_calls? hcalls, record_of_not_uses (huses f run c hcalls), hnone, Option.toList_none, List.append_nil]

/-- The fiber of a take that begins is on its way to the queue. -/
theorem stage_of_visit? (hvisit : s.visit? q stroke S = some V) :
    V.Stage q (start' V.fiber) σ' (s.book stroke b) (s.play stroke) := by
  rw [hturn.begins V hvisit]
  obtain ⟨rfl, ⟨left, ha⟩, hfresh, -⟩ := Scene.of_visit? hvisit
  obtain ⟨s', hdeed, hstands⟩ := Visit.stands_of_begin (q := q) hfresh
  obtain ⟨hmoment, hbook⟩ := Scene.play_of_goes ha b (.move hdeed)
  have hclear : V.Clear b.entries.length none σ b := .of_begin (h.orderly.free_of_take ha)
  exact .stands ((h.orderly.occurs.after [.next]).ready (congrArg Moment.activity hmoment)) hstands
    (hclear.step ha hturn.advance hbook fun _ => Stand.not_begins_take)

theorem spare (huses : ∀ f run c, s.calls? stroke = some (f, run, c) → ¬ c.uses q) :
    ∃ L' row', Moved q p (s.moves q p stroke S) L' row' start' σ' (s.book stroke b) (s.play stroke) := by
  obtain ⟨hpast, hlined⟩ := h.lined.spare huses
  have hmoves := moves_of_not_uses (p := p) (S := S) huses
  have hkept : (s.moves q p stroke S).Kept q L row [] (s.play stroke).moment.world := by
    rw [hmoves]
    cases hvisit : s.visit? q stroke S with
    | none =>
      rw [Option.toList_none, List.append_nil]
      exact h.kept.bypass hpast
    | some V =>
      obtain ⟨-, -, hfresh, hout⟩ := Scene.of_visit? hvisit
      exact (h.kept.bypass hpast).receive hfresh.latch hfresh.item fun W hW hsame => hout ⟨W, hW, hsame⟩
  refine h.moved hturn hlined.withheld hkept rfl fun V hV => ?_
  have hmem := hV
  rw [hmoves] at hmem
  rcases List.mem_append.1 hmem with hold | hnew
  · exact h.goes_on hturn hold .same (fun run c hcalls => huses V.fiber run c hcalls) hkept hV fun l hl =>
      Scene.rouses_of_polls (hpast.polls l hl)
  · exact Or.inl (h.stage_of_visit? hturn (Option.mem_toList.1 hnew))

/-! ## An offer -/

theorem offer (hcalls : s.calls? stroke = some (f, run, .thunk (.perform (.offerItem q v)))) (hout : ¬ S.Inside f) :
    ∃ L' row', Moved q p (s.moves q p stroke S) L' row' start' σ' (s.book stroke b) (s.play stroke) := by
  obtain ⟨hworld, _, hlined, -⟩ := h.lined.offer hcalls
  obtain ⟨row', hpolicy, hkept⟩ := h.kept.offer h.withheld.made v
  have hmoves : s.moves q p stroke S = S.place row.policy (s.moment.world.firstInLine? q) v := by
    rw [Scene.moves_of_calls? hcalls, h.policy]
    exact if_pos rfl
  rw [← hmoves, ← hworld] at hkept
  refine h.moved hturn hlined.withheld hkept hpolicy fun W hW => ?_
  have hbrought := hW
  rw [hmoves] at hbrought
  obtain ⟨V, hV, hgains⟩ := (h.kept.place v).mem_bring hbrought
  exact h.goes_on hturn hV hgains (not_uses_of_ne hcalls fun hf => hout ⟨V, hV, hf⟩) hkept hW fun l hl =>
    Scene.rouses_of_deliver h.orderly.occurs hcalls (h.withheld.made l hl) hworld

/-! ## A take comes to the queue -/

omit h hturn in
theorem moves_of_request (hcalls : s.calls? stroke = some (f, run, .thunk (.perform (.requestItem q)))) :
    s.moves q p stroke S = S.draw f s.moment.world.makeDeferred.1 := by
  rw [Scene.moves_of_calls? hcalls]
  exact if_pos rfl

theorem pop (hV : V ∈ S.visits) (hfresh : V.Fresh) (hclear : V.Clear (start V.fiber) (V.toll 0) σ b) (hrun : run = Take.asked (V.inside q))
    (hcalls : s.calls? stroke = some (V.fiber, run, .thunk (.perform (.requestItem q))))
    (hnext : s.moment.world.nextItem? q = some v) :
    ∃ L' row', Moved q p (s.moves q p stroke S) L' row' start' σ' (s.book stroke b) (s.play stroke) := by
  obtain ⟨items, hstate⟩ := state_of_nextItem? h.kept.lined.found hnext
  obtain ⟨item, rest, hbuffer, rfl, rfl⟩ : ∃ item rest, S.buffer = item :: rest ∧ item.value = v ∧ rest.map Item.value = items := by
    rcases h.kept.state with hready | hwaits
    · exact List.map_eq_cons_iff.1 (QueueState.ready.inj (hready.symm.trans hstate))
    · rw [hstate] at hwaits
      exact absurd rfl hwaits.2
  obtain ⟨hworld, hlined⟩ := h.lined.pop hcalls hstate
  have hkept := h.kept.pop s.moment.world.makeDeferred.1 hV hfresh.latch hfresh.item hbuffer
  have hmoves : s.moves q p stroke S = S.draw V.fiber s.moment.world.makeDeferred.1 := moves_of_request hcalls
  rw [← hmoves, ← hworld] at hkept
  have hclear' := h.clear_of_uses hturn hV hcalls (Or.inr rfl) hclear
  refine h.moved hturn hlined.withheld hkept rfl fun W hW => ?_
  have hdrawn := hW
  rw [hmoves, draw, hbuffer] at hdrawn
  obtain ⟨V', hV', hrevised⟩ := mem_revise.1 hdrawn
  by_cases hsame : V'.fiber = V.fiber
  · cases h.kept.apart.eq_of_fiber hV hV' hsame
    rw [if_pos (decide_eq_true hsame)] at hrevised
    subst hrevised
    have hticket : (s.moment.world.requestItem q).1 = Take.ticket ⟨V.inside q, q, .item item.value⟩ := by
      rw [requestItem_of_next ((queueState?_of_row h.kept.lined.found).trans (congrArg some hstate))]
      rfl
    exact Or.inl (.request (V := { V with item? := some item }) h.orderly.occurs hrun hcalls hticket
      (.item hfresh.latch rfl) hfresh.undone ⟨hclear'.free, hclear'.booked⟩)
  · rw [if_neg (by simpa using hsame)] at hrevised
    subst hrevised
    exact h.goes_on hturn hV' .same (not_uses_of_ne hcalls hsame) hkept hW fun l _ =>
      Scene.rouses_of_polls (by rw [hworld]; rfl)

theorem park (hV : V ∈ S.visits) (hfresh : V.Fresh) (hclear : V.Clear (start V.fiber) (V.toll 0) σ b) (hrun : run = Take.asked (V.inside q))
    (hcalls : s.calls? stroke = some (V.fiber, run, .thunk (.perform (.requestItem q))))
    (hnext : s.moment.world.nextItem? q = none) :
    ∃ L' row', Moved q p (s.moves q p stroke S) L' row' start' σ' (s.book stroke b) (s.play stroke) := by
  have hbuffer : S.buffer = [] := by
    rcases h.kept.state with hready | hwaits
    · cases hbuffer : S.buffer with
      | nil => rfl
      | cons item rest =>
        rw [hbuffer] at hready
        rw [nextItem?, queueState?_of_row h.kept.lined.found, hready] at hnext
        cases hnext
    · exact hwaits.1
  have hrequest := requestItem_of_none (queueState?_of_row h.kept.lined.found) hnext
  obtain ⟨left, hmoment, -⟩ := Scene.moment_of_calls? hcalls
  have hworld : (s.play stroke).moment.world = s.moment.world.makeDeferred.2.setQueueState q
      (.waiting (row.state.line ++ [s.moment.world.makeDeferred.1])) :=
    (congrArg Moment.world hmoment).trans (congrArg Prod.snd hrequest)
  have hkept := h.kept.park h.withheld.made hV hfresh.latch hfresh.item hfresh.undone hbuffer
  have hmoves : s.moves q p stroke S = S.draw V.fiber s.moment.world.makeDeferred.1 := moves_of_request hcalls
  rw [← hmoves, ← hworld] at hkept
  have hclear' := h.clear_of_uses hturn hV hcalls (Or.inr rfl) hclear
  refine h.moved hturn (h.lined.park hcalls hnext).withheld hkept rfl fun W hW => ?_
  have hdrawn := hW
  rw [hmoves, draw, hbuffer] at hdrawn
  obtain ⟨V', hV', hrevised⟩ := mem_revise.1 hdrawn
  by_cases hsame : V'.fiber = V.fiber
  · cases h.kept.apart.eq_of_fiber hV hV' hsame
    rw [if_pos (decide_eq_true hsame)] at hrevised
    subst hrevised
    have hticket : (s.moment.world.requestItem q).1 = Take.ticket ⟨V.inside q, q, .latch s.moment.world.makeDeferred.1⟩ := by
      rw [hrequest]
      rfl
    exact Or.inl (.request (V := { V with latch? := some s.moment.world.makeDeferred.1 }) h.orderly.occurs hrun hcalls
      hticket (.latch rfl) hfresh.undone ⟨hclear'.free, hclear'.booked⟩)
  · rw [if_neg (by simpa using hsame)] at hrevised
    subst hrevised
    refine h.goes_on hturn hV' .same (not_uses_of_ne hcalls hsame) hkept hW fun l hl =>
      Scene.rouses_of_polls ?_
    rw [hworld]
    exact congrArg (Option.bind · Deferred.exit?)
      ((Table.get?_push ..).trans (if_neg (Nat.ne_of_lt (h.withheld.made l hl))))

/-! ## A take gives up -/

/-- What a take gives up is brought to another take at most. -/
theorem undo (draw : Draw) (hV : V ∈ S.visits) (hopen : V.undone = false)
    (hclear : V.Clear (start V.fiber) (V.toll 0) σ b) (hrun : run = (V.inside q).releasing .interrupted)
    (hcalls : s.calls? stroke = some (V.fiber, run, .thunk (.perform (Take.undo ⟨V.inside q, q, draw⟩))))
    (hwithheld : (s.play stroke).Withheld (some q) L (s.book stroke b)) (hpolicy : row'.policy = row.policy)
    (hkept : (S.giveBack row.policy V.fiber (s.moment.world.firstInLine? q)).Kept q L row' [] (s.play stroke).moment.world)
    (hrouses : ∀ l ∈ L, s.Rouses stroke l) :
    ∃ L' row', Moved q p (s.moves q p stroke S) L' row' start' σ' (s.book stroke b) (s.play stroke) := by
  have hmoves : s.moves q p stroke S = S.giveBack row.policy V.fiber (s.moment.world.firstInLine? q) := by
    rw [Scene.moves_of_calls? hcalls, h.policy]
    cases draw <;> exact if_pos rfl
  rw [← hmoves] at hkept
  refine h.moved hturn hwithheld hkept hpolicy fun W hW => ?_
  have hleft := hW
  rw [hmoves] at hleft
  rcases h.kept.mem_giveBack hV hopen hleft with rfl | ⟨V', hV', hne, hgains⟩
  · have hclear' := h.clear_of_uses hturn hV hcalls (by cases draw <;> exact Or.inl rfl) hclear
    exact Or.inl (.undo h.orderly.occurs hrun hcalls hclear')
  · exact h.goes_on hturn hV' hgains (not_uses_of_ne hcalls hne) hkept hW hrouses

theorem putBack (hV : V ∈ S.visits) (hlatch : V.latch? = none) (hitem : V.item? = some item) (hopen : V.undone = false)
    (hclear : V.Clear (start V.fiber) (V.toll 0) σ b) (hrun : run = (V.inside q).releasing .interrupted)
    (hcalls : s.calls? stroke = some (V.fiber, run, .thunk (.perform (.putBackItem q item.value)))) :
    ∃ L' row', Moved q p (s.moves q p stroke S) L' row' start' σ' (s.book stroke b) (s.play stroke) := by
  obtain ⟨hworld, _, hlined, -⟩ := h.lined.putBack hcalls
  obtain ⟨row', hpolicy, hkept⟩ := h.kept.putBack h.withheld.made hV hitem fun l hl => nomatch hlatch.symm.trans hl
  rw [← hworld] at hkept
  exact h.undo hturn (.item item.value) hV hopen hclear hrun hcalls hlined.withheld hpolicy hkept fun l hl =>
    Scene.rouses_of_deliver h.orderly.occurs hcalls (h.withheld.made l hl) hworld

theorem abandon (hV : V ∈ S.visits) (hlatch : V.latch? = some latch) (hopen : V.undone = false)
    (hclear : V.Clear (start V.fiber) (V.toll 0) σ b) (hrun : run = (V.inside q).releasing .interrupted)
    (hcalls : s.calls? stroke = some (V.fiber, run, .thunk (.perform (.abandonItem q latch)))) :
    ∃ L' row', Moved q p (s.moves q p stroke S) L' row' start' σ' (s.book stroke b) (s.play stroke) := by
  obtain ⟨hworld, _, hlined, -⟩ := h.lined.abandon hcalls
  obtain ⟨row', hpolicy, hkept⟩ := h.kept.abandon h.withheld.made hV hopen hlatch
  rw [← hworld] at hkept
  exact h.undo hturn (.latch latch) hV hopen hclear hrun hcalls hlined.withheld hpolicy hkept fun l hl =>
    Scene.rouses_of_abandon h.orderly.occurs hcalls (h.withheld.made l hl) hworld

/-! ## Every stroke -/

/-- A fiber in a take uses the queue. -/
theorem visit (hV : V ∈ S.visits) (hcalls : s.calls? stroke = some (V.fiber, run, c)) (huses : c.uses q) :
    ∃ L' row', Moved q p (s.moves q p stroke S) L' row' start' σ' (s.book stroke b) (s.play stroke) := by
  obtain ⟨huses, hclear⟩ := (h.course V hV).uses h.orderly hcalls huses
  cases huses with
  | request hfresh hc hrun =>
    subst hc
    cases hnext : s.moment.world.nextItem? q with
    | some v => exact h.pop hturn hV hfresh hclear hrun hcalls hnext
    | none => exact h.park hturn hV hfresh hclear hrun hcalls hnext
  | undo hdrawn hopen hc hrun =>
    subst hc
    cases hdrawn with
    | item hlatch hitem => exact h.putBack hturn hV hlatch hitem hopen hclear hrun hcalls
    | latch hlatch => exact h.abandon hturn hV hlatch hopen hclear hrun hcalls

/-- **Every stroke keeps the stock of a queue.** -/
theorem play : ∃ L' row', Housed q p (s.stock q p stroke S) L' row' start' σ' (s.book stroke b) (s.play stroke) := by
  have hmoved : ∃ L' row', Moved q p (s.moves q p stroke S) L' row' start' σ' (s.book stroke b) (s.play stroke) := by
    by_cases huses : ∃ f run c, s.calls? stroke = some (f, run, c) ∧ c.uses q
    · obtain ⟨f, run, c, hcalls, huses⟩ := huses
      by_cases hinside : S.Inside f
      · obtain ⟨V, hV, rfl⟩ := hinside
        exact h.visit hturn hV hcalls huses
      · obtain ⟨v, rfl, -⟩ := h.offers hcalls huses hinside
        exact h.offer hturn hcalls hinside
    · exact h.spare hturn fun f run c hcalls huses' => huses ⟨f, run, c, hcalls, huses'⟩
  obtain ⟨L', row', hmoved⟩ := hmoved
  exact ⟨L', row', hmoved.leave⟩

end Housed

/-- With every stroke some acquires come, and some places of the books. -/
theorem exists_turn (h : Orderly σ b s) (S : Stock) (start : FiberId → Nat) (stroke : Stroke) :
    ∃ start' σ', Turn q S start σ b s stroke start' σ' := by
  obtain ⟨σ', hadvance, hothers⟩ := h.play_others stroke
  cases hvisit : s.visit? q stroke S with
  | none => exact ⟨start, σ', hadvance, hothers, fun _ _ => rfl,
      fun V hV => nomatch hvisit.symm.trans hV⟩
  | some V =>
    refine ⟨Function.update start V.fiber b.entries.length, σ', hadvance, hothers, fun f hf => ?_, ?_⟩
    · refine Function.update_of_ne ?_ ..
      rintro rfl
      exact (Scene.of_visit? hvisit).2.2.2 hf
    · rintro W hW
      cases hvisit.symm.trans hW
      exact Function.update_self ..

end Stock

end FiberLoop
