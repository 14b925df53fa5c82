import FiberLoop.Proofs.Queues.Acting
import FiberLoop.Proofs.Queues.Keeping

/-!
# Stocks in runs

In every run the stock is kept at its queue, each take in progress is at one of the places of its course, nobody else
can ask for an item or give one back, and a take that is over has ended with what it has got (`Stock.Housed`).

A stroke is treated in two steps: what it does to the queue, which leaves each take on its course or lets its fiber
come out of it (`Stock.Moved`), and the end of the takes out of which their fibers have come (`Moved.leave`).
-/

namespace FiberLoop

open World

/-- What can be known of a queue while some fibers are in takes. -/
abbrev Scope.outside (q : QueueId) (veiled : FiberId → Prop) : Scope := .veil q none True veiled

/-- A fiber that runs is held by nobody. -/
theorem Scene.Occurs.bare {s : Scene} (h : s.Occurs) {f : FiberId} {left : Nat} {stand : Stand}
    (ha : s.moment.activity = .running f left stand) :
    s.moment.world.Bare f ∧ (s.moment.world.fiber? f).isSome = true := by
  obtain ⟨p, hp, hready⟩ := h.ready ha
  obtain ⟨-, htokens⟩ := (hp.held_of_activity ha rfl).of_running
  obtain ⟨home, hrecord⟩ := hp.record
  obtain ⟨fiber, hf, -⟩ := World.fiber?_of_record hrecord
  refine ⟨⟨fun r hr => ?_, htokens⟩, Option.isSome_of_eq_some hf⟩
  have hphase : s.moment.world.phase? f = some p.standing.phase := hp.phase?_eq
  rw [hready, World.phase?, hr] at hphase
  exact Option.some.inj hphase

namespace Stock

variable {S S' : Stock} {q : QueueId} {p : Overflow} {L L' : List DeferredId} {row row' : Queue} {σ σ' : Engagements}
  {b b' : Books} {s s' : Scene} {stroke : Stroke} {V W : Visit} {f : FiberId} {run : Run} {c : Call} {l : DeferredId}
  {item : Item} {v : Value} {start : FiberId → Nat}

/-- A fiber is in a take. -/
def Inside (S : Stock) (f : FiberId) : Prop := ∃ V ∈ S.visits, V.fiber = f

/-- What is known of the values in a stock, and of takes that are over. -/
structure Known (q : QueueId) (S : Stock) : Prop where
  bases : ∀ V ∈ S.visits, V.base.In (.outside q fun _ => False)
  placed : ∀ v ∈ S.placed, v.In (.outside q fun _ => False)
  ends : ∀ e ∈ S.ended, e.1.Ends e.2

/-- A stock after what a stroke has done to the queue, with the places of the books at which the takes began. -/
structure Moved (q : QueueId) (p : Overflow) (S : Stock) (L : List DeferredId) (row : Queue) (start : FiberId → Nat)
    (σ : Engagements) (b : Books) (s : Scene) : Prop where
  orderly : Orderly σ b s
  withheld : s.Withheld (some q) L b
  kept : S.Kept q L row [] s.moment.world
  policy : row.policy = p
  known : S.Known q
  veiled : s.Veiled (.outside q S.Inside)
  starts : ∀ V ∈ S.visits, start V.fiber ≤ b.entries.length
  /-- A take is on its course, or its fiber comes out of it. -/
  stages : ∀ V ∈ S.visits, V.Stage q (start V.fiber) σ b s ∨ V.Over (start V.fiber) σ b s

/-- A stock in a run. -/
structure Housed (q : QueueId) (p : Overflow) (S : Stock) (L : List DeferredId) (row : Queue) (start : FiberId → Nat)
    (σ : Engagements) (b : Books) (s : Scene) : Prop extends Moved q p S L row start σ b s where
  course : ∀ V ∈ S.visits, V.Stage q (start V.fiber) σ b s

/-! ## Takes that are over -/

/-- A take out of which its fiber comes ends with what it has got. -/
theorem Moved.ends (h : Moved q p S L row start σ b s) (hV : V ∈ S.visits) {x : Exit Value Value}
    (hexit : s.moment.activity.exitFrom? V.fiber V.base.frames.length = some x) :
    V.Ends x ∧ ∃ left, s.moment.activity = .running V.fiber left ⟨V.base, .ofExit x⟩ := by
  rcases h.stages V hV with hstage | ⟨left, y, ha, hends, -⟩
  · cases (hstage.evaluates h.orderly).exitFrom?_eq_none.symm.trans hexit
  · have hsame := hexit
    rw [ha, Activity.exitFrom?_of_exit] at hsame
    cases hsame
    exact ⟨hends, left, ha⟩

/-- Any other take is on its course. -/
theorem Moved.stage (h : Moved q p S L row start σ b s) (hV : V ∈ S.visits)
    (hnone : s.moment.activity.exitFrom? V.fiber V.base.frames.length = none) :
    V.Stage q (start V.fiber) σ b s := by
  refine (h.stages V hV).resolve_right ?_
  rintro ⟨left, x, ha, -⟩
  rw [ha, Activity.exitFrom?_of_exit] at hnone
  cases hnone

/-- A value that a take has got was placed. -/
theorem Kept.in_of_item (h : S.Kept q L row [] w) (hknown : S.Known q) (hV : V ∈ S.visits) (hitem : V.item? = some item) :
    item.value.In (.outside q fun _ => False) := by
  have hheld : item ∈ S.held := List.mem_filterMap.2 ⟨V, hV, hitem⟩
  have hall : item ∈ S.all := List.mem_append_left _ (List.mem_append_right _ hheld)
  have hitems : item ∈ S.items := h.balanced.all.mem_iff.1 hall
  obtain ⟨i, hi, hvalue⟩ := List.mem_mapIdx.1 hitems
  rw [← hvalue]
  exact hknown.placed _ (List.getElem_mem hi)

theorem Kept.in_of_ends (h : S.Kept q L row [] w) (hknown : S.Known q) (hV : V ∈ S.visits) {x : Exit Value Value}
    (hends : V.Ends x) : Value.ExitIn (.outside q fun _ => False) x := by
  cases hends with
  | value hitem => exact h.in_of_item hknown hV hitem
  | interrupted => exact Scope.nothing

/-- A fiber that comes out of a take is veiled no more. -/
theorem Moved.unveil (h : Moved q p S L row start σ b s) : s.Veiled (.outside q (S.leave s.moment.activity).Inside) := by
  refine h.veiled.rescope h.orderly.quiet (fun f hf => ?_) (fun f hf => ?_) ?_
  · obtain ⟨V, hV, hfiber⟩ := hf
    exact Or.inl ⟨V, (List.mem_filter.1 hV).1, hfiber⟩
  · obtain ⟨V, hV, rfl⟩ := hf
    cases hexit : s.moment.activity.exitFrom? V.fiber V.base.frames.length with
    | none => exact Or.inl ⟨V, List.mem_filter.2 ⟨hV, Option.isNone_iff_eq_none.2 hexit⟩, rfl⟩
    | some x =>
      obtain ⟨-, left, ha⟩ := h.ends hV hexit
      exact Or.inr (h.orderly.occurs.bare ha).1
  · by_cases hout : ∃ V ∈ S.visits, ∃ x, s.moment.activity.exitFrom? V.fiber V.base.frames.length = some x
    · obtain ⟨V, hV, x, hexit⟩ := hout
      obtain ⟨hends, left, ha⟩ := h.ends hV hexit
      rw [ha]
      exact fun _ => ⟨h.known.bases V hV, Next.in_ofExit (h.kept.in_of_ends h.known hV hends)⟩
    · refine h.veiled.within.activity.mono (Scope.veil_grows id) fun f _ hf => fun hinside => hf ?_
      obtain ⟨V, hV, hfiber⟩ := hinside
      refine ⟨V, List.mem_filter.2 ⟨hV, Option.isNone_iff_eq_none.2 ?_⟩, hfiber⟩
      exact Option.eq_none_iff_forall_not_mem.2 fun x hx => hout ⟨V, hV, x, hx⟩

/-- **The takes out of which their fibers have come are over.** -/
theorem Moved.leave (h : Moved q p S L row start σ b s) : Housed q p (S.leave s.moment.activity) L row start σ b s := by
  have hleave (V : Visit) (hV : V ∈ (S.leave s.moment.activity).visits) :
      V ∈ S.visits ∧ V.Stage q (start V.fiber) σ b s := by
    obtain ⟨hV, hnone⟩ := List.mem_filter.1 hV
    exact ⟨hV, h.stage hV (Option.isNone_iff_eq_none.1 hnone)⟩
  exact {
    orderly := h.orderly
    withheld := h.withheld
    kept := h.kept.leave fun V hV x hexit => (h.ends hV hexit).1
    policy := h.policy
    known := ⟨fun V hV => h.known.bases V (hleave V hV).1, h.known.placed, fun e he => by
      rcases List.mem_append.1 he with hold | hnew
      · exact h.known.ends e hold
      · obtain ⟨V, hV, hsome⟩ := List.mem_filterMap.1 hnew
        obtain ⟨x, hexit, rfl⟩ := Option.map_eq_some_iff.1 hsome
        exact (h.ends hV hexit).1⟩
    veiled := h.unveil
    starts := fun V hV => h.starts V (hleave V hV).1
    stages := fun V hV => Or.inl (hleave V hV).2
    course := fun V hV => (hleave V hV).2 }

/-! ## What a stroke does to the queue -/

theorem mem_inside : S.Inside f ↔ f ∈ S.visits.map Visit.fiber := List.mem_map.symm

theorem bring_visits {α : Type} (get : Visit → α) (hget : ∀ V item?, get { V with item? := item? } = get V)
    (first? : Option DeferredId) (keep spill : List Item → Item → List Item) (item : Item) (S : Stock) :
    (S.bring first? keep spill item).visits.map get = S.visits.map get := by
  cases first? with
  | none => rfl
  | some l => exact map_revise get fun V => hget V _

/-- What a closure does to the stock leaves the takes with their fibers and runs. -/
theorem record_visits {α : Type} (get : Visit → α)
    (hget : ∀ V latch? item? undone, get { V with latch? := latch?, item? := item?, undone := undone } = get V)
    (f : FiberId) (c : Call) (w : World) (S : Stock) : (S.record q p f c w).visits.map get = S.visits.map get := by
  have hitem (V : Visit) (item? : Option Item) : get { V with item? := item? } = get V := hget V V.latch? item? V.undone
  have hgive : (S.giveBack p f (w.firstInLine? q)).visits.map get = S.visits.map get := by
    have hleft : (S.revise (·.fiber = f) fun V => { V with item? := none, undone := true }).visits.map get =
        S.visits.map get := map_revise get fun V => hget V V.latch? none true
    unfold giveBack
    dsimp only
    split
    · exact (bring_visits get hitem ..).trans hleft
    · exact hleft
  unfold record
  split
  · split
    · unfold draw
      split
      · exact map_revise (S := { S with buffer := _ }) get fun V => hget V V.latch? _ V.undone
      · exact map_revise get fun V => hget V _ V.item? V.undone
    · rfl
  · split
    · exact bring_visits get hitem ..
    · rfl
  · split
    · exact hgive
    · rfl
  · split
    · exact hgive
    · rfl
  · rfl

theorem bring_parts (first? : Option DeferredId) (keep spill : List Item → Item → List Item) (item : Item) (S : Stock) :
    (S.bring first? keep spill item).ended = S.ended ∧ (S.bring first? keep spill item).placed = S.placed := by
  cases first? <;> exact ⟨rfl, rfl⟩

/-- Takes are over with a stroke only when their fibers come out of them, and only an offer places an item. -/
theorem record_parts (f : FiberId) (c : Call) (w : World) (S : Stock) : (S.record q p f c w).ended = S.ended ∧
    ((S.record q p f c w).placed = S.placed ∨ ∃ v, c = .thunk (.perform (.offerItem q v)) ∧
      (S.record q p f c w).placed = S.placed ++ [v]) := by
  have hgive : (S.giveBack p f (w.firstInLine? q)).ended = S.ended ∧
      (S.giveBack p f (w.firstInLine? q)).placed = S.placed := by
    unfold giveBack
    dsimp only
    split
    · exact bring_parts ..
    · exact ⟨rfl, rfl⟩
  unfold record
  split
  · split
    · unfold draw
      split <;> exact ⟨rfl, Or.inl rfl⟩
    · exact ⟨rfl, Or.inl rfl⟩
  · rename_i q' v
    split
    · rename_i hq
      subst hq
      obtain ⟨hover, hplaced⟩ := bring_parts (w.firstInLine? q') p.push p.spill ⟨S.placed.length, v⟩
        { S with placed := S.placed ++ [v] }
      exact ⟨hover, Or.inr ⟨v, rfl, hplaced⟩⟩
    · exact ⟨rfl, Or.inl rfl⟩
  · split
    · exact ⟨hgive.1, Or.inl hgive.2⟩
    · exact ⟨rfl, Or.inl rfl⟩
  · split
    · exact ⟨hgive.1, Or.inl hgive.2⟩
    · exact ⟨rfl, Or.inl rfl⟩
  · exact ⟨rfl, Or.inl rfl⟩

theorem Known.record (h : S.Known q) {w : World} (hin : ∀ v, c = .thunk (.perform (.offerItem q v)) → v.In (.outside q fun _ => False)) :
    (S.record q p f c w).Known q := by
  obtain ⟨hover, hplaced⟩ := record_parts (q := q) (p := p) f c w S
  refine ⟨fun V hV => ?_, fun v hv => ?_, fun e he => h.ends e (hover ▸ he)⟩
  · have hbase : V.base ∈ (S.record q p f c w).visits.map Visit.base := List.mem_map_of_mem hV
    rw [record_visits Visit.base fun _ _ _ _ => rfl] at hbase
    obtain ⟨W, hW, hsame⟩ := List.mem_map.1 hbase
    exact hsame ▸ h.bases W hW
  · rcases hplaced with hsame | ⟨v', rfl, hsame⟩
    · exact h.placed v (hsame ▸ hv)
    · rw [hsame] at hv
      rcases List.mem_append.1 hv with hold | hlast
      · exact h.placed v hold
      · exact List.mem_singleton.1 hlast ▸ hin v' rfl

end Stock

/-! ## Takes that begin -/

namespace Scene

variable {s : Scene} {q : QueueId} {stroke : Stroke} {S : Stock} {V : Visit} {f : FiberId} {left : Nat} {stand : Stand}

/-- Where a take begins. -/
theorem of_visit? (h : s.visit? q stroke S = some V) : stroke = .next ∧
    (∃ left, s.moment.activity = .running V.fiber (left + 1) ⟨V.base, .eval (.takeItem q V.gate)⟩) ∧ V.Fresh ∧
      ¬ S.Inside V.fiber := by
  unfold visit? at h
  split at h
  · rename_i g left run e ha
    split at h
    · cases h
    · rename_i hnot
      obtain ⟨⟨q', gate⟩, htaken, hsome⟩ := Option.bind_eq_some_iff.1 h
      split at hsome
      · rename_i hq
        cases hq
        cases hsome
        refine ⟨rfl, ⟨left, ?_⟩, ⟨rfl, rfl, rfl⟩, fun ⟨W, hW, hfiber⟩ => hnot (List.any_eq_true.2 ⟨W, hW, decide_eq_true hfiber⟩)⟩
        rw [ha, Effect.taken?_eq_some htaken]
      · cases hsome
  · cases h

/-- Whoever asks for an item is in a take, or begins with one. -/
theorem inside_of_draws (ha : s.moment.activity = .running f (left + 1) stand) (hdraws : stand.Draws q) :
    S.Inside f ∨ ∃ V, s.visit? q .next S = some V ∧ V.fiber = f := by
  obtain ⟨run, next⟩ := stand
  cases hdraws
  by_cases hinside : S.Inside f
  · exact Or.inl hinside
  · refine Or.inr ⟨{ fiber := f, base := run, gate := none }, ?_, rfl⟩
    have hnot : ¬ S.visits.any (·.fiber = f) = true := fun hany => by
      obtain ⟨W, hW, hfiber⟩ := List.any_eq_true.1 hany
      exact hinside ⟨W, hW, of_decide_eq_true hfiber⟩
    unfold visit?
    rw [ha]
    dsimp only
    rw [if_neg hnot, Effect.taken?_takeItem]
    exact if_pos rfl

theorem moves_of_calls? {p : Overflow} {run : Run} {c : Call} (h : s.calls? stroke = some (f, run, c)) :
    s.moves q p stroke S = S.record q p f c s.moment.world := by
  rw [moves, h]

theorem moves_of_no_call {p : Overflow} (h : s.calls? stroke = none) :
    s.moves q p stroke S = { S with visits := S.visits ++ (s.visit? q stroke S).toList } := by
  rw [moves, h]

/-- No closure is called where a take begins. -/
theorem calls?_of_visit? (h : s.visit? q stroke S = some V) : s.calls? stroke = none := by
  obtain ⟨rfl, ⟨left, ha⟩, hfresh, -⟩ := of_visit? h
  obtain ⟨s', hdeed, -⟩ := Visit.stands_of_begin (q := q) hfresh
  unfold calls?
  rw [ha]
  dsimp only
  rw [hdeed]

end Scene

end FiberLoop
