import FiberLoop.Proofs.Closures.Plain
import FiberLoop.Proofs.Interruption
import FiberLoop.Proofs.Runtime.Definitions
import FiberLoop.Proofs.Runtime.Lifetime

/-!
# Requests stop loops

A fiber whose program neither waits, nor opens a region, nor recovers from interruption is stopped by a request to
interrupt it at the next leaf that looks for one, however the program loops. Leaves that end with a cause and leaves
that yield the loop do not look: a program that comes to nothing else can go on for ever.

The main results of this module are `Scene.Occurs.stops_interrupted`, that there is no other way to go on for ever, and
`Scene.not_stops_of_overlooking`, that there is this one.
-/

namespace FiberLoop

/-! ## Stands of plain programs -/

/-- A leaf at which a request to interrupt is not looked for. -/
def Stand.overlooks (s : Stand) : Bool :=
  match s.next with
  | .eval (.caused _) | .eval .currentLoop => true
  | _ => false

/-- A stand on the way of a plain program. -/
structure Stand.Plain (calls : List Name) (s : Stand) : Prop where
  masks : s.run.masks.isInterruptible = true
  frames : ∀ frame ∈ s.run.frames, frame.isPlain calls = true
  next : s.next.isPlain calls = true

/-- The number of frames that are pushed before the first leaf. -/
def Effect.height : Effect → Nat
  | .chain source _ | .fold source _ _ => source.height + 1
  | _ => 0

/-- How far a stand is from the next leaf, or from the exit if it is being interrupted. -/
def Stand.rank (s : Stand) : Nat × Nat :=
  match s.next with
  | .cause .interrupted => (0, s.run.frames.length)
  | .eval e => (1, e.height)
  | _ => (2, s.run.frames.length)

/-- A plain recovery passes interruption on. -/
theorem Recovery.apply_interrupted {calls : List Name} {r : Recovery} (h : r.isPlain calls = true) :
    r.apply .interrupted = return .cause .interrupted := by
  cases r with
  | onFailed | mapFailed => rfl
  | _ => exact nomatch h

/-- A stand is nearer to a leaf, or to the exit, than another one. -/
def Stand.Nearer (s' s : Stand) : Prop := Prod.Lex (· < ·) (· < ·) s'.rank s.rank

namespace Stand

variable {calls : List Name} {s s' : Stand} {c : Call} {run : Run} {r : Registration} {w : World} {e : Effect}
  {frame : Frame} {rest : List Frame} {masks : Masks} {cause : Cause Value}

theorem Nearer.of_pop (next : Next) (hrank : s.rank = (2, rest.length + 1)) : Nearer ⟨⟨rest, masks⟩, next⟩ s := by
  unfold Nearer
  rw [hrank]
  unfold rank
  split
  · exact .left _ _ (by decide)
  · exact .left _ _ (by decide)
  · exact .right _ (Nat.lt_succ_self _)

theorem Nearer.of_interrupted (hlength : run.frames.length < s.run.frames.length) (h : s.next = .cause .interrupted) :
    Nearer ⟨run, .cause .interrupted⟩ s := by
  unfold Nearer
  rw [show s.rank = (0, s.run.frames.length) by rw [rank, h]]
  exact .right _ hlength

/-- A run that is being interrupted is past all leaves. -/
theorem Nearer.of_cut (h : s.next = .eval e) : Nearer ⟨run, .cause .interrupted⟩ s := by
  unfold Nearer
  rw [show s.rank = (1, e.height) by rw [rank, h]]
  exact .left _ _ (by decide)

theorem not_overlooks_of_isNode (h : s.isNode = true) : ¬ s.overlooks = true := by
  obtain ⟨run, next⟩ := s
  intro hlooks
  cases next with
  | eval e => cases e with
    | caused | currentLoop => cases h
    | _ => cases hlooks
  | _ => cases hlooks

theorem nearer_wf : WellFounded Nearer := InvImage.wf rank (Prod.lex Nat.lt_wfRel Nat.lt_wfRel).wf

theorem exit_of_interrupted {x : Exit Value Value} (h : s.next = .cause .interrupted) (hdeed : s.deed = .exit x) :
    x = .interrupted := by
  obtain ⟨⟨frames, masks⟩, next⟩ := s
  cases h
  cases frames with
  | nil => cases hdeed; rfl
  | cons frame rest => cases frame <;> cases hdeed

/-- What is nearer than a stand that is being interrupted is being interrupted. -/
theorem Nearer.interrupted (h : s'.Nearer s) (hs : s.next = .cause .interrupted) : s'.next = .cause .interrupted := by
  have hfirst : s'.rank.1 = 0 := by
    unfold Nearer at h
    rw [show s.rank = (0, s.run.frames.length) by rw [rank, hs]] at h
    generalize s'.rank = rank at h
    cases h with
    | left _ _ h => exact absurd h (Nat.not_lt_zero _)
    | right => rfl
  unfold rank at hfirst
  split at hfirst
  · rename_i hnext
    exact hnext
  · cases hfirst
  · cases hfirst

theorem rank_of_cause (hcause : cause ≠ .interrupted) (h : s.next = .cause cause) :
    s.rank = (2, s.run.frames.length) := by
  rw [rank, h]
  cases cause with
  | interrupted => exact absurd rfl hcause
  | _ => rfl

namespace Plain

theorem not_register (h : s.Plain calls) : s.deed ≠ .register r := by
  obtain ⟨⟨frames, masks⟩, next⟩ := s
  intro hdeed
  cases next with
  | eval e => cases e with
    | async registration => exact nomatch h.next
    | _ => cases hdeed
  | value v | cause c => cases frames with
    | nil => cases hdeed
    | cons frame rest => cases frame <;> cases hdeed

theorem cut (h : s.Plain calls) (hdeed : s.deed = .call c run) : Plain calls ⟨run, .cause .interrupted⟩ := by
  obtain ⟨⟨frames, masks⟩, next⟩ := s
  cases next with
  | eval e => cases e <;> cases hdeed <;> exact ⟨h.masks, h.frames, rfl⟩
  | value v | cause c => cases frames with
    | nil => cases hdeed
    | cons frame rest =>
      cases frame <;> cases hdeed <;> exact ⟨h.masks, fun frame hframe => h.frames frame (List.mem_cons_of_mem _ hframe), rfl⟩

theorem call (h : s.Plain calls) (hclosed : areClosed calls w.session.definitions = true)
    (hdeed : s.deed = .call c run) : (w.called c run).1.Plain calls := by
  have hcut := h.cut hdeed
  refine ⟨hcut.masks, hcut.frames, Act.SaysPlain.ofExcept ?_⟩
  obtain ⟨⟨frames, masks⟩, next⟩ := s
  cases next with
  | eval e => cases e with
    | succeeded v | caused c => cases hdeed; exact .pure rfl
    | complete x =>
      cases hdeed
      refine .pure ?_
      cases x <;> rfl
    | suspend t => cases hdeed; exact .thunk h.next hclosed
    | _ => cases hdeed
  | value v => cases frames with
    | nil => cases hdeed
    | cons frame rest =>
      have hframe := h.frames _ List.mem_cons_self
      cases frame with
      | chain next => cases hdeed; exact .continuation hframe hclosed v
      | fold onValue onCause => cases hdeed; exact .continuation (Bool.and_eq_true_iff.1 hframe).1 hclosed v
      | region => cases hdeed
  | cause c => cases frames with
    | nil => cases hdeed
    | cons frame rest =>
      have hframe := h.frames _ List.mem_cons_self
      cases frame with
      | fold onValue onCause => cases hdeed; exact .recovery (Bool.and_eq_true_iff.1 hframe).2 hclosed c
      | chain | region => cases hdeed

theorem move (h : s.Plain calls) (hdeed : s.deed = .move s') : s'.Plain calls := by
  obtain ⟨⟨frames, masks⟩, next⟩ := s
  cases next with
  | eval e => cases e with
    | chain source next =>
      cases hdeed
      obtain ⟨hsource, hnext⟩ := Bool.and_eq_true_iff.1 h.next
      exact ⟨h.masks, List.forall_mem_cons.2 ⟨hnext, h.frames⟩, hsource⟩
    | fold source onValue onCause =>
      cases hdeed
      obtain ⟨hsource, hclosures⟩ := Bool.and_eq_true_iff.1 h.next
      exact ⟨h.masks, List.forall_mem_cons.2 ⟨hclosures, h.frames⟩, hsource⟩
    | currentLoop => cases hdeed; exact ⟨h.masks, h.frames, rfl⟩
    | region body status => exact nomatch h.next
    | _ => cases hdeed
  | value v | cause c => cases frames with
    | nil => cases hdeed
    | cons frame rest =>
      obtain ⟨hframe, hrest⟩ := List.forall_mem_cons.1 h.frames
      cases frame with
      | region => exact nomatch hframe
      | chain | fold => cases hdeed <;> exact ⟨h.masks, hrest, rfl⟩

/-! ### Each step brings it nearer -/

theorem nearer_move (h : s.Plain calls) (hlooks : s.overlooks = false) (hdeed : s.deed = .move s') : s'.Nearer s := by
  obtain ⟨⟨frames, masks⟩, next⟩ := s
  cases next with
  | eval e => cases e with
    | chain | fold => cases hdeed; exact .right _ (Nat.lt_succ_self _)
    | currentLoop => cases hlooks
    | region body status => exact nomatch h.next
    | _ => cases hdeed
  | value v => cases frames with
    | nil => cases hdeed
    | cons frame rest => cases frame with
      | region => exact nomatch h.frames _ List.mem_cons_self
      | _ => cases hdeed
  | cause cause => cases frames with
    | nil => cases hdeed
    | cons frame rest => cases frame with
      | region => exact nomatch h.frames _ List.mem_cons_self
      | fold => cases hdeed
      | chain next =>
        cases hdeed
        by_cases hcause : cause = .interrupted
        · subst hcause
          exact .of_interrupted (Nat.lt_succ_self _) rfl
        · exact .of_pop _ (rank_of_cause hcause rfl)

theorem nearer_call (h : s.Plain calls) (hlooks : s.overlooks = false) (hdeed : s.deed = .call c run)
    (hyields : c.yields = false) : (w.called c run).1.Nearer s := by
  obtain ⟨⟨frames, masks⟩, next⟩ := s
  cases next with
  | eval e => cases e with
    | caused cause => cases hlooks
    | _ => cases hdeed <;> cases hyields
  | value v => cases frames with
    | nil => cases hdeed
    | cons frame rest => cases frame <;> cases hdeed <;> exact .of_pop _ rfl
  | cause cause => cases frames with
    | nil => cases hdeed
    | cons frame rest => cases frame with
      | fold onValue onCause =>
        cases hdeed
        by_cases hcause : cause = .interrupted
        · subst hcause
          have hpasses := Recovery.apply_interrupted (Bool.and_eq_true_iff.1 (h.frames _ List.mem_cons_self)).2
          have hcalled : (w.called (.recover onCause .interrupted) ⟨rest, masks⟩).1 = ⟨⟨rest, masks⟩, .cause .interrupted⟩ := by
            rw [World.called, Call.act, hpasses]
            rfl
          rw [hcalled]
          exact .of_interrupted (Nat.lt_succ_self _) rfl
        · exact .of_pop _ (rank_of_cause hcause rfl)
      | chain | region => cases hdeed

theorem nearer_cut (hdeed : s.deed = .call c run) (hyields : c.yields = true) :
    Nearer ⟨run, .cause .interrupted⟩ s := by
  obtain ⟨⟨frames, masks⟩, next⟩ := s
  cases next with
  | eval e => exact .of_cut rfl
  | value v | cause cause => cases frames with
    | nil => cases hdeed
    | cons frame rest => cases frame <;> cases hdeed <;> cases hyields

end Plain

end Stand

/-! ## Fibers of plain programs -/

/-- How far a fiber can be that runs a plain program. -/
inductive Standing.Plain (calls : List Name) : Standing → Prop where
  | fresh {root : Effect} (h : root.isPlain calls = true) : Plain calls (.fresh root)
  | ready {stand : Stand} (h : stand.Plain calls) : Plain calls (.ready stand)
  | ended {standing : Standing} {x : Exit Value Value} (h : standing.exit? = some x) : Plain calls standing

namespace Scene

/-- The fiber runs a plain program, and the definitions on the list are plain. -/
structure Plain (calls : List Name) (f : FiberId) (s : Scene) : Prop where
  closed : areClosed calls s.moment.world.session.definitions = true
  place : ∃ p, Fits f (s.moment.view f) p ∧ p.standing.Plain calls

variable {calls : List Name} {s : Scene} {f : FiberId} {stroke : Stroke} {stand : Stand} {left : Nat} {root : Effect}

/-- A fiber that was created with a plain effect runs a plain program. -/
theorem Occurs.plain_of_created (h : s.Occurs) (hphase : s.moment.world.phase? f = some (.created root))
    (hroot : root.isPlain calls = true) (hclosed : areClosed calls s.moment.world.session.definitions = true) :
    s.Plain calls f := by
  refine ⟨hclosed, ?_⟩
  rcases h.absent_or_fits f with habsent | ⟨p, hp⟩
  · have hnone : s.moment.world.record f = none := habsent.record
    rw [World.phase?, World.fiber?_of_record_none hnone] at hphase
    cases hphase
  · have hstanding := Standing.phase_eq_created (Option.some.inj (hp.phase?_eq.symm.trans hphase))
    exact ⟨p, hp, hstanding ▸ .fresh hroot⟩

theorem Plain.of_ready (h : s.Plain calls f) (hready : s.Ready f stand) : stand.Plain calls := by
  obtain ⟨p, hp, hplain⟩ := h.place
  obtain ⟨q, hq, hstanding⟩ := hready
  rw [hq.ready_unique hp hstanding] at hplain
  cases hplain with
  | ready hplain => exact hplain
  | ended hexit => cases hexit

/-- With a step a fiber of a plain program goes to another stand, or ends. If it is flagged, the step brings it nearer
unless it comes from a leaf that overlooks the flag, and at any other leaf the interrupt takes effect. -/
theorem Occurs.plain_step (h : s.Occurs) (hs : s.Plain calls f)
    (ha : s.moment.activity = .running f (left + 1) stand) :
    (∃ stand', (s.play .next).Ready f stand' ∧ stand'.Plain calls ∧ (s.moment.world.flagged f = true →
      (stand.overlooks = false → stand'.Nearer stand) ∧ (stand.isNode = true → stand'.next = .cause .interrupted))) ∨
    ∃ x, stand.deed = .exit x ∧ (s.play .next).Exits f x := by
  have hafter : (s.play .next).Occurs := h.after [.next]
  have hplain := hs.of_ready (h.ready ha)
  have hnode {d : Deed} (hdeed : stand.deed = d) (hnode : stand.isNode = true) :
      ∃ c, d = .call c stand.run ∧ c.yields = true := by
    rcases Stand.deed_of_isNode hnode with ⟨c, hcall, hyields⟩ | ⟨r, hregister⟩
    · exact ⟨c, hdeed.symm.trans hcall, hyields⟩
    · exact absurd hregister hplain.not_register
  cases hdeed : stand.deed with
  | move stand' =>
    refine Or.inl ⟨stand', hafter.ready (congrArg Moment.activity (play_of_goes (b := {}) ha (.move hdeed)).1),
      hplain.move hdeed, fun _ => ⟨fun hlooks => hplain.nearer_move hlooks hdeed, fun hisNode => ?_⟩⟩
    obtain ⟨c, hcall, -⟩ := hnode hdeed hisNode
    cases hcall
  | call c run =>
    cases hcuts : s.moment.world.cuts f c run with
    | true =>
      have hyields : c.yields = true := (Bool.and_eq_true_iff.1 hcuts).1
      exact Or.inl ⟨_, hafter.ready (congrArg Moment.activity (play_of_cut ha {} hdeed hcuts).1), hplain.cut hdeed,
        fun _ => ⟨fun _ => Stand.Plain.nearer_cut hdeed hyields, fun _ => rfl⟩⟩
    | false =>
      have hframe (hflag : s.moment.world.flagged f = true) : c.yields = false := by
        rw [World.cuts, World.interruptPending, (hplain.cut hdeed).masks, Bool.true_and] at hcuts
        rcases Bool.and_eq_false_iff.1 hcuts with hyields | hunflagged
        · exact hyields
        · exact absurd (hunflagged.symm.trans hflag) Bool.false_ne_true
      refine Or.inl ⟨_, hafter.ready (congrArg Moment.activity (play_of_call ha {} hdeed hcuts).1),
        hplain.call hs.closed hdeed, fun hflag =>
          ⟨fun hlooks => hplain.nearer_call hlooks hdeed (hframe hflag), fun hisNode => ?_⟩⟩
      obtain ⟨c', hcall, hyields⟩ := hnode hdeed hisNode
      cases hcall
      exact absurd ((hframe hflag).symm.trans hyields) Bool.false_ne_true
  | register r => exact absurd hdeed hplain.not_register
  | exit x => exact Or.inr ⟨x, rfl, h.exits_step ha hdeed⟩

/-- **A fiber of a plain program goes on with it until it ends.** -/
theorem Occurs.plain_play (h : s.Occurs) (hs : s.Plain calls f) (stroke : Stroke) : (s.play stroke).Plain calls f := by
  have hclosed : areClosed calls (s.play stroke).moment.world.session.definitions = true := by
    rw [h.keepsDefinitions_play stroke]
    exact hs.closed
  refine ⟨hclosed, ?_⟩
  by_cases hstep : s.stepper? stroke = some f
  · obtain ⟨rfl, left, stand, ha⟩ := of_stepper? hstep
    rcases h.plain_step hs ha with ⟨stand', ⟨q, hq, hready⟩, hplain, -⟩ | ⟨x, -, q, hq, hexit⟩
    · exact ⟨q, hq, hready ▸ .ready hplain⟩
    · exact ⟨q, hq, .ended hexit⟩
  · obtain ⟨p, hp, hplain⟩ := hs.place
    generalize hstanding : p.standing = standing at hplain
    cases hplain with
    | fresh hroot =>
      obtain ⟨q, hq, hfresh | hready⟩ := h.begins_play hp hstanding stroke
      · exact ⟨q, hq, hfresh ▸ .fresh hroot⟩
      · exact ⟨q, hq, hready ▸ .ready ⟨rfl, nofun, hroot⟩⟩
    | @ready stand hplain =>
      obtain ⟨q, hq, hready⟩ := Ready.still ⟨p, hp, hstanding⟩ h hstep
      exact ⟨q, hq, hready ▸ .ready hplain⟩
    | ended hexit =>
      obtain ⟨q, hq, hexit'⟩ := h.exits_play ⟨p, hp, hstanding ▸ hexit⟩ stroke
      exact ⟨q, hq, .ended hexit'⟩

/-! ## Going on for ever -/

/-- What has become of a scene after so many strokes. -/
def along (s : Scene) (σ : Nat → Stroke) : Nat → Scene
  | 0 => s
  | n + 1 => (s.along σ n).play (σ n)

/-- With this stroke the fiber takes a step. -/
def Steps (s : Scene) (σ : Nat → Stroke) (f : FiberId) (n : Nat) : Prop := (s.along σ n).stepper? (σ n) = some f

/-- With this stroke the fiber takes a step from a leaf that overlooks a request. -/
def Overlooks (s : Scene) (σ : Nat → Stroke) (f : FiberId) (n : Nat) : Prop :=
  s.Steps σ f n ∧ ∃ stand, (s.along σ n).Ready f stand ∧ stand.overlooks = true

/-- The fiber has not begun, or it is ready to go on. -/
def Due (f : FiberId) (s : Scene) : Prop :=
  ∃ p, Fits f (s.moment.view f) p ∧ ((∃ root, p.standing = .fresh root) ∨ ∃ stand, p.standing = .ready stand)

/-- The fiber is stopped at a leaf: it is there, or unwinds after the interruption, or has ended with it. -/
def StopsAt (stand : Stand) (f : FiberId) (s : Scene) : Prop :=
  s.Ready f stand ∨ (∃ stand', s.Ready f stand' ∧ stand'.next = .cause .interrupted) ∨ s.Exits f .interrupted

/-- A fiber is stopped, unless it goes on for ever by leaves that overlook the request. -/
structure Stops (f : FiberId) (s : Scene) (σ : Nat → Stroke) : Prop where
  /-- It never waits for anything but its turn. -/
  due : ∀ n, (s.along σ n).Due f ∨ ∃ x, (s.along σ n).Exits f x
  /-- It takes finitely many steps, or comes again and again to leaves that overlook the request, and to no other. -/
  ends : (∃ n, ∀ m, n ≤ m → ¬ s.Steps σ f m) ∨
    (∀ n, ∃ m, n ≤ m ∧ s.Overlooks σ f m) ∧ ∀ n stand, (s.along σ n).Ready f stand → stand.isNode = false
  /-- At any other leaf it is stopped. -/
  stops : ∀ n stand, (s.along σ n).Ready f stand → stand.isNode = true → ∀ m, n ≤ m → (s.along σ m).StopsAt stand f

variable {σ : Nat → Stroke} {stand' : Stand} {n m : Nat}

theorem Occurs.along (h : s.Occurs) : ∀ n, (s.along σ n).Occurs
  | 0 => h
  | n + 1 => (h.along n).after [σ n]

theorem Occurs.plain_along (h : s.Occurs) (hs : s.Plain calls f) : ∀ n, (s.along σ n).Plain calls f
  | 0 => hs
  | n + 1 => (h.along n).plain_play (h.plain_along hs n) (σ n)

theorem Occurs.plain_after (h : s.Occurs) (hs : s.Plain calls f) (strokes : List Stroke) :
    (s.after strokes).Plain calls f := by
  induction strokes generalizing s with
  | nil => exact hs
  | cons stroke rest ih => exact ih (h.after [stroke]) (h.plain_play hs stroke)

theorem Occurs.flagged_along (h : s.Occurs) (hflag : s.moment.world.flagged f = true) :
    ∀ n, (s.along σ n).moment.world.flagged f = true
  | 0 => hflag
  | n + 1 => (h.along n).flagged_play (h.flagged_along hflag n) (σ n)

theorem Occurs.exits_along {x : Exit Value Value} (h : s.Occurs) (hexits : (s.along σ n).Exits f x) (hle : n ≤ m) :
    (s.along σ m).Exits f x := by
  induction hle with
  | refl => exact hexits
  | @step m _ ih => exact (h.along m).exits_play ih (σ m)

/-- A fiber of a plain program never waits for anything but its turn. -/
theorem Plain.due (h : s.Plain calls f) : s.Due f ∨ ∃ x, s.Exits f x := by
  obtain ⟨p, hp, hplain⟩ := h.place
  generalize hstanding : p.standing = standing at hplain
  cases hplain with
  | fresh => exact Or.inl ⟨p, hp, Or.inl ⟨_, hstanding⟩⟩
  | ready => exact Or.inl ⟨p, hp, Or.inr ⟨_, hstanding⟩⟩
  | ended hexit => exact Or.inr ⟨_, p, hp, hstanding ▸ hexit⟩

/-! ### Stopping at a leaf -/

/-- A fiber that is stopped at a leaf stays so until it has ended. -/
theorem Occurs.stopsAt_play (h : s.Occurs) (hs : s.Plain calls f) (hflag : s.moment.world.flagged f = true)
    (hnode : stand.isNode = true) (hstops : s.StopsAt stand f) (stroke : Stroke) :
    (s.play stroke).StopsAt stand f := by
  by_cases hstep : s.stepper? stroke = some f
  · obtain ⟨rfl, left, stand₀, ha⟩ := of_stepper? hstep
    rcases hstops with hready | ⟨stand', hready, hinterrupted⟩ | hexits
    · rw [hready.eq ha] at ha
      rcases h.plain_step hs ha with ⟨stand', hready', -, hflagged⟩ | ⟨x, hdeed, -⟩
      · exact Or.inr (Or.inl ⟨stand', hready', (hflagged hflag).2 hnode⟩)
      · rcases Stand.deed_of_isNode hnode with ⟨c, hcall, -⟩ | ⟨r, hregister⟩
        · cases hdeed.symm.trans hcall
        · cases hdeed.symm.trans hregister
    · rw [hready.eq ha] at ha
      have hlooks : stand'.overlooks = false := by rw [Stand.overlooks, hinterrupted]
      rcases h.plain_step hs ha with ⟨stand'', hready', -, hflagged⟩ | ⟨x, hdeed, hexits⟩
      · exact Or.inr (Or.inl ⟨stand'', hready', ((hflagged hflag).1 hlooks).interrupted hinterrupted⟩)
      · exact Or.inr (Or.inr (Stand.exit_of_interrupted hinterrupted hdeed ▸ hexits))
    · exact absurd hstep (hexits.not_step .next)
  · rcases hstops with hready | ⟨stand', hready, hinterrupted⟩ | hexits
    · exact Or.inl (hready.still h hstep)
    · exact Or.inr (Or.inl ⟨stand', hready.still h hstep, hinterrupted⟩)
    · exact Or.inr (Or.inr (h.exits_play hexits stroke))

/-! ### Coming to an end -/

/-- A fiber that takes a step later takes its next step from where it is. -/
theorem Occurs.first_step (h : s.Occurs) (hready : (s.along σ n).Ready f stand) (hle : n ≤ m) (hstep : s.Steps σ f m) :
    ∃ k, n ≤ k ∧ s.Steps σ f k ∧ (s.along σ k).Ready f stand := by
  obtain ⟨d, rfl⟩ := Nat.le.dest hle
  induction d generalizing n with
  | zero => exact ⟨n, Nat.le_refl n, hstep, hready⟩
  | succ d ih =>
    by_cases hnow : s.Steps σ f n
    · exact ⟨n, Nat.le_refl n, hnow, hready⟩
    · obtain ⟨k, hle', hstep', hready'⟩ := ih (n := n + 1) (hready.still (h.along n) hnow) (Nat.le_add_right _ _)
        (by rwa [Nat.add_right_comm])
      exact ⟨k, Nat.le_of_succ_le hle', hstep', hready'⟩

/-- A fiber that no longer comes to leaves that overlook the request takes finitely many steps. -/
theorem Occurs.quiets (h : s.Occurs) (hs : s.Plain calls f) (hflag : s.moment.world.flagged f = true)
    (hready : (s.along σ n).Ready f stand) (hnone : ∀ m, n ≤ m → ¬ s.Overlooks σ f m) :
    ∃ k, ∀ m, k ≤ m → ¬ s.Steps σ f m := by
  induction stand using Stand.nearer_wf.induction generalizing n with
  | _ stand ih =>
    by_cases hsteps : ∃ m, n ≤ m ∧ s.Steps σ f m
    · obtain ⟨m, hle, hstep⟩ := hsteps
      obtain ⟨k, hk, hstep', hready'⟩ := h.first_step hready hle hstep
      have hlooks : stand.overlooks = false :=
        Bool.eq_false_iff.2 fun hoverlooks => hnone k hk ⟨hstep', stand, hready', hoverlooks⟩
      obtain ⟨hnext, left, stand₀, ha⟩ := of_stepper? hstep'
      rw [hready'.eq ha] at ha
      have hplay : s.along σ (k + 1) = (s.along σ k).play .next := congrArg _ hnext
      rcases (h.along k).plain_step (h.plain_along hs k) ha with ⟨stand', hready'', -, hflagged⟩ | ⟨x, -, hexits⟩
      · rw [← hplay] at hready''
        exact ih stand' ((hflagged (h.flagged_along hflag k)).1 hlooks) hready''
          fun m hm => hnone m (Nat.le_trans hk (Nat.le_of_succ_le hm))
      · rw [← hplay] at hexits
        exact ⟨k + 1, fun m hm => (h.exits_along hexits hm).not_step (σ m)⟩
    · exact ⟨n, fun m hm hstep => hsteps ⟨m, hm, hstep⟩⟩

/-- **A request to interrupt it stops a fiber of a plain program, unless it goes on for ever by leaves that overlook the
request.** -/
theorem Occurs.stops_interrupted (h : s.Occurs) (hs : s.Plain calls f) (strokes : List Stroke)
    (hflag : (s.after strokes).moment.world.flagged f = true) (σ : Nat → Stroke) : (s.after strokes).Stops f σ := by
  have ho : (s.after strokes).Occurs := h.after strokes
  have hplain : (s.after strokes).Plain calls f := h.plain_after hs strokes
  have hstops (n : Nat) (stand : Stand) (hready : ((s.after strokes).along σ n).Ready f stand)
      (hnode : stand.isNode = true) (m : Nat) (hle : n ≤ m) : ((s.after strokes).along σ m).StopsAt stand f := by
    induction hle with
    | refl => exact Or.inl hready
    | @step m _ ih =>
      exact (ho.along m).stopsAt_play (ho.plain_along hplain m) (ho.flagged_along hflag m) hnode ih (σ m)
  refine ⟨fun n => (ho.plain_along hplain n).due, ?_, hstops⟩
  by_cases hends : ∃ n, ∀ m, n ≤ m → ¬ (s.after strokes).Steps σ f m
  · exact Or.inl hends
  have hoverlooks (n : Nat) : ∃ m, n ≤ m ∧ (s.after strokes).Overlooks σ f m := by
    refine Classical.byContradiction fun hnone => ?_
    have hsteps : ∃ m, n ≤ m ∧ (s.after strokes).Steps σ f m :=
      Classical.byContradiction fun hsteps => hends ⟨n, fun m hle hstep => hsteps ⟨m, hle, hstep⟩⟩
    obtain ⟨m, hle, hstep⟩ := hsteps
    obtain ⟨-, left, stand, ha⟩ := of_stepper? hstep
    exact hends (ho.quiets hplain hflag ((ho.along m).ready ha)
      fun k hk hoverlooks => hnone ⟨k, Nat.le_trans hle hk, hoverlooks⟩)
  refine Or.inr ⟨hoverlooks, fun n stand hready => Bool.eq_false_iff.2 fun hnode => ?_⟩
  obtain ⟨m, hle, hstep, stand', hready', hlooks⟩ := hoverlooks n
  rcases hstops n stand hready hnode m hle with hstill | ⟨stand'', hunwinds, hinterrupted⟩ | hexits
  · cases hready'.unique hstill
    exact stand.not_overlooks_of_isNode hnode hlooks
  · cases hready'.unique hunwinds
    rw [Stand.overlooks, hinterrupted] at hlooks
    cases hlooks
  · exact hexits.not_ready hready'

/-- A fiber is launched that goes round by a definition that calls itself. -/
def looping (config : Config) (leaf : Program) : Scene :=
  (initial config [("spin", ⟨"x", .chain leaf "n" (.call "spin" (.const .null))⟩)]).after
    [.demand (.scenario (.run "a" (.call "spin" (.const .null)) false))]

theorem stops_of_succeed :
    (looping {} (.succeed (.const .null))).Plain ["spin"] ⟨0⟩ ∧
      (((looping {} (.succeed (.const .null))).after [.next, .demand (.interrupt ⟨0⟩)]).Stops ⟨0⟩ fun _ => .next) ∧
      ((looping {} (.succeed (.const .null))).after
        (.next :: .demand (.interrupt ⟨0⟩) :: List.replicate 6 .next)).moment.world.phase? ⟨0⟩ = some .done := by
  have hoccurs : (looping {} (.succeed (.const .null))).Occurs := (Occurs.initial _ _).after _
  have hplain : (looping {} (.succeed (.const .null))).Plain ["spin"] ⟨0⟩ :=
    hoccurs.plain_of_created rfl rfl rfl
  exact ⟨hplain, hoccurs.stops_interrupted hplain [.next, .demand (.interrupt ⟨0⟩)] rfl _, rfl⟩

/-- The loop yields after five steps, and the fiber goes round by the yield budget. It has begun and is flagged. -/
def spinning (dispatched : Nat) : Scene :=
  let s := (looping { yieldBudget := 5 } .budget).after [.next, .demand (.interrupt ⟨0⟩)]
  { s with moment.world.loop.dispatched := dispatched }

/-- After a round everything is as before, apart from the number of tasks that were queued. -/
theorem after_spinning (n : Nat) : (spinning n).after (List.replicate 7 .next) = spinning (n + 1) := rfl

theorem along_spinning (n k : Nat) : (spinning n).along (fun _ => .next) (7 * k) = spinning (n + k) := by
  induction k with
  | zero => rfl
  | succ k ih =>
    show ((spinning n).along (fun _ => .next) (7 * k)).after (List.replicate 7 .next) = spinning (n + (k + 1))
    rw [ih]
    exact after_spinning (n + k)

/-- A fiber that goes round by leaves that overlook the request is not stopped. -/
theorem not_stops_of_overlooking : ¬ ∀ (calls : List Name) (s : Scene) (f : FiberId) (strokes : List Stroke)
    (σ : Nat → Stroke), s.Occurs → s.Plain calls f → (s.after strokes).moment.world.flagged f = true →
      ∃ n, ∀ m, n ≤ m → ¬ (s.after strokes).Steps σ f m := by
  intro hall
  have hoccurs : (looping { yieldBudget := 5 } .budget).Occurs := (Occurs.initial _ _).after _
  have hplain : (looping { yieldBudget := 5 } .budget).Plain ["spin"] ⟨0⟩ := hoccurs.plain_of_created rfl rfl rfl
  have hspinning : (looping { yieldBudget := 5 } .budget).after [.next, .demand (.interrupt ⟨0⟩)] = spinning 1 := rfl
  obtain ⟨n, hn⟩ := hall ["spin"] _ ⟨0⟩ [.next, .demand (.interrupt ⟨0⟩)] (fun _ => .next) hoccurs hplain rfl
  refine hn (7 * n) (by omega) ?_
  rw [hspinning, Steps, along_spinning]
  rfl

end Scene

end FiberLoop
