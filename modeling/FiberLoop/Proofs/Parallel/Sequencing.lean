import FiberLoop.Proofs.Evaluation.Undisturbed
import FiberLoop.Proofs.Parallel.Pairings
import FiberLoop.Proofs.Turns.RoundRobin

/-!
# Pairings of synchronous effects

The two fibers of a pairing wait on the same loop for their first turns, the left one ahead of the right one. If both
effects are synchronous and take less than a turn, the left fiber has ended before the right one begins. So the two
effects are evaluated one after the other, and the fiber that waits is given what they amount to in turn.

The main results of this module are `InTurn.agree`, that in parallel or one after the other the two effects come to the
same exit, and `Scene.not_agree_of_observing`, that they need not do so if one of them depends on the fiber that waits
or on what others do meanwhile.
-/

namespace FiberLoop

namespace Scene

variable {s : Scene} {f g : FiberId} {home : LoopName} {root : Effect}

/-! ## Before the first turn -/

/-- A fiber waits on a loop for its first turn. -/
structure Awaits (f : FiberId) (home : LoopName) (root : Effect) (s : Scene) : Prop where
  lives : s.Lives f home
  task : .task (.start f) ∈ (s.moment.world.loopAt home).inbox
  fresh : ∃ p, Fits f (s.moment.view f) p ∧ p.standing = .fresh root

namespace Awaits

theorem inactive (h : s.Awaits f home root) (ho : s.Occurs) : s.moment.activity.fiber? ≠ some f :=
  ho.inactive_of_task h.task rfl

/-- A fiber goes on waiting for its first turn, or begins with its root. -/
theorem play (h : s.Awaits f home root) (ho : s.Occurs) (stroke : Stroke) : (s.play stroke).Awaits f home root ∨
    (s.play stroke).moment.activity = .running f (s.budgetAt home) ⟨{}, .eval root⟩ := by
  have hafter : (s.play stroke).Occurs := ho.after [stroke]
  have hlives := ho.lives_play h.lives stroke
  obtain ⟨p, hp, hfresh⟩ := h.fresh
  rcases (ho.turn stroke).starts hp hfresh h.task with hstill | ⟨left, ha⟩
  · obtain ⟨es, q, hmoves, hq⟩ := ho.moves_play hp stroke
    exact Or.inl ⟨hlives, hstill, q, hq, hmoves.fresh_of_task hfresh hq hstill⟩
  · have hactive : (s.play stroke).moment.activity.fiber? = some f := congrArg Activity.fiber? ha
    have hleft := ho.left?_of_takesUp ⟨h.inactive ho, hactive⟩
    rw [left?_of_active hactive, ha, hafter.budget_eq hlives hactive] at hleft
    have hbudget : (s.play stroke).budgetAt home = s.budgetAt home := ho.budgetAt_after home [stroke]
    rw [ha, Option.some.inj hleft, hbudget]
    exact Or.inr rfl

/-- A loop that goes on comes to the first turn of a fiber that waits there. -/
theorem comesTo (h : s.Awaits f home root) (ho : s.Occurs) (hhere : s.moment.world.here = home) :
    ∃ n, (s.after (List.replicate n .next)).moment.world.loop.stopped = true ∨
      ¬ (s.after (List.replicate n .next)).Awaits f home root := by
  have htask := h.task
  rw [← hhere, World.loopAt_here] at htask
  obtain ⟨before, after, hinbox⟩ := List.append_of_mem htask
  obtain ⟨n, hn⟩ := ho.comesTo hinbox
  rcases hn with hstopped | ⟨v, htaken⟩
  · exact ⟨n, Or.inl hstopped⟩
  refine ⟨n + 1, Or.inr fun hstill => ?_⟩
  have hinactive := hstill.inactive (ho.after (List.replicate (n + 1) .next))
  obtain ⟨p, hp, hfresh⟩ := hstill.fresh
  have hphase := hp.phase?_eq.trans (congrArg (some ∘ Standing.phase) hfresh)
  rw [List.replicate_succ', after_append, after_cons, after_nil, htaken] at hinactive hphase
  unfold World.takeUp at hinactive hphase
  dsimp only at hinactive hphase
  split at hinactive
  · exact hinactive rfl
  · rename_i hnot
    split at hphase
    · rename_i heq
      exact hnot _ heq
    · exact hnot root hphase

/-- A fiber goes on waiting for its first turn while another one is in the middle of something. -/
theorem still (h : s.Awaits f home root) (ho : s.Occurs) (hactive : s.moment.activity.fiber? = some g) (stroke : Stroke) :
    (s.play stroke).Awaits f home root := by
  refine (h.play ho stroke).resolve_right fun ha => h.inactive ho ?_
  have hbusy : s.moment.activity ≠ .idle := fun hidle => by
    rw [hidle] at hactive
    cases hactive
  by_cases hstroke : stroke = .next
  · subst hstroke
    rcases Moment.activity_next hbusy with hidle | hsame
    · cases ha.symm.trans hidle
    · exact hsame.symm.trans (congrArg Activity.fiber? ha)
  · exact congrArg Activity.fiber? ((activity_play rfl hbusy hstroke).symm.trans ha)

end Awaits

end Scene

/-! ## What decides a pairing -/

/-- The combining function, called for the second value. -/
theorem Call.result_combineLeft (v v' : Value) (f : Combine) (w : World) :
    (Call.bind (.combineLeft v f) v').result w = .ofExit (f.exit v v' w) := by
  unfold Call.result Combine.exit
  rw [Act.caught_fst, Act.caught_fst]
  have hrun : ((Call.bind (.combineLeft v f) v').act.run w).1 = ((f.apply v v').run w).1.map Next.value := by
    show ((do return Next.value (← f.apply v v') : Act Next).run w).1 = _
    rw [bind_pure_comp, ExceptT.run_map]
    rfl
  rw [hrun]
  cases ((f.apply v v').run w).1 <;> rfl

theorem Aloof.ends {σ : Type} {part : World → σ} (h : Aloof part) {j : Joint} {w w' : World} (hends : w.Ends j w') :
    part w' = part w := by
  obtain ⟨races, pairings, rfl⟩ := hends.stores
  exact h.joints w races pairings

namespace Tandem

/-- A pairing has not ended and has that row, and neither its two fibers nor the one that waits was interrupted. -/
structure Undecided (t : Tandem) (p : PairingId) (row : Pairing) (s : Scene) : Prop where
  runs : t.Runs s
  joint : t.joint = .pairing p
  stored : s.moment.world.pairing? p = some row
  callback : row.callback = some t.callback
  waiting : s.moment.world.flagged t.fiber = false
  unflagged : ∀ side, s.moment.world.flagged (t.side side) = false

variable {σ : Type} {part : World → σ} {t : Tandem} {p : PairingId} {row : Pairing} {s : Scene} {stroke : Stroke}
  {side : Side} {x y : Exit Value Value} {hook : ExitHook} {f : FiberId} {home : LoopName} {c : Cause Value} {v v' : Value}
  {a b : σ}

/-- A fiber whose resumption is queued has come to the end of its wait. -/
theorem Runs.ends (h : t.Runs s) (htask : s.moment.world.tokens t.fiber = [.resume t.fiber t.run (.ofExit x)]) :
    s.Ends t.fiber t.run x := by
  obtain ⟨q, hq, -⟩ := h.place
  have hheld : Held t.fiber q.epoch q.hook q.standing (s.moment.world.tokens t.fiber) (s.moment.activity.of t.fiber) := hq.held
  rw [htask] at hheld
  exact ⟨q, hq, hheld.of_resume.1⟩

namespace Undecided

variable (h : t.Undecided p row s)

include h

theorem pending : t.Pending s := Runs.pending_pairing h.joint h.stored h.callback

theorem waits : t.Waits s :=
  (h.runs.waits_of_pending h.pending).resolve_right fun hleft => nomatch h.waiting.symm.trans hleft.1

/-- The fiber that waits is in the epoch of its callback and has been given no result. -/
theorem holds : ∃ r, s.moment.world.fiber? t.fiber = some r ∧ r.epoch = t.epoch ∧ r.phase.waits = true := by
  obtain ⟨r, hr, hholds⟩ := h.runs.occurs.joined.holds t.joint t.callback h.pending
  have hr : s.moment.world.fiber? t.fiber = some r := hr
  refine ⟨r, hr, hholds.resolve_right fun hpast => ?_⟩
  have hwaiting := h.waiting
  rw [World.flagged, hr] at hwaiting
  cases hwaiting.symm.trans hpast.2

theorem runsFor (side : Side) : s.moment.world.RunsFor t.fiber (t.side side) := by
  obtain ⟨r, hr, hepoch, -⟩ := h.holds
  refine Or.inr ⟨t.joint, ?_, h.runs.sides ▸ t.mem_fibers.2 ⟨side, rfl⟩⟩
  rw [World.epoch_of_fiber? hr, hepoch]
  exact h.pending

/-- Only its two fibers run for the fiber that waits. -/
theorem of_runsFor (hruns : s.moment.world.RunsFor t.fiber f) : f = t.fiber ∨ ∃ side, f = t.side side := by
  refine hruns.imp_right fun ⟨j, hj, hf⟩ => ?_
  obtain ⟨r, hr, hepoch, -⟩ := h.holds
  rw [World.epoch_of_fiber? hr, hepoch] at hj
  cases h.runs.occurs.joined.single j t.joint t.callback hj h.pending
  rw [h.runs.sides] at hf
  exact t.mem_fibers.1 hf

/-- The fiber that waits has not come to the end of what it evaluates. -/
theorem evaluates : s.Evaluates t.fiber t.run := by
  rcases h.waits with ⟨left, ha⟩ | ⟨r, hr, -, hphase⟩
  · exact h.runs.occurs.evaluates_of_activity (congrArg Activity.fiber? ha) (congrArg Activity.run? ha) .refl
      fun _ _ ha' => nomatch ha.symm.trans ha'
  · obtain ⟨q, hq, -⟩ := h.runs.place
    have hasleep : s.moment.world.Asleep t.fiber r.home t.run t.canceler := ⟨r, hr, rfl, hphase⟩
    have hparked : q.standing = .parked t.run t.canceler := hasleep.standing hq
    exact ⟨q, hq, .waits (fun stand hready => nomatch hparked.symm.trans hready) (congrArg Standing.run? hparked) .refl⟩

/-- The pairing goes on unless one of its two fibers tells its exit or somebody is interrupted. -/
theorem play (hended : s.ended? stroke ≠ some t.joint)
    (hflags : ∀ f, s.moment.world.RunsFor t.fiber f → s.moment.world.flagged f = false →
      (s.play stroke).moment.world.flagged f = false) : t.Undecided p row (s.play stroke) where
  runs := h.runs.play stroke
  joint := h.joint
  stored := by
    have hsame := h.runs.occurs.rows_play h.runs.sides_ne_nil fun he => absurd he hended
    rw [h.joint] at hsame
    exact Eq.trans hsame h.stored
  callback := h.callback
  waiting := hflags t.fiber (Or.inl rfl) h.waiting
  unflagged side := hflags _ (h.runsFor side) (h.unflagged side)

theorem not_ended (hnot : ∀ side x hook, s.moment.activity ≠ .exiting (t.side side) x hook) :
    s.ended? stroke ≠ some t.joint := by
  intro hended
  obtain ⟨-, f, x, hook, hf, ha⟩ := h.runs.tells_of_ended hended
  obtain ⟨side, rfl⟩ := t.mem_fibers.1 hf
  exact hnot side x hook ha

/-- The only thing that is left to do for the fiber that waits is to be parked. -/
theorem parks (hactive : s.moment.activity.fiber? = some t.fiber) : ∃ canceler, (s.play .next).moment =
    ⟨s.moment.world.modifyFiber t.fiber fun r => { r with phase := .suspended t.run canceler }, .idle⟩ := by
  obtain ⟨r, hr, -, hphase⟩ := h.holds
  obtain ⟨q, hq⟩ := h.runs.occurs.fits_of_activity hactive
  have hq' : s.moment.world.phase? t.fiber = some q.standing.phase := hq.phase?_eq
  have hsame : r.phase = q.standing.phase := by
    rw [World.phase?, hr] at hq'
    exact Option.some.inj hq'
  rcases h.waits with ⟨left, ha⟩ | ⟨r', hr', -, hsuspended⟩
  · obtain ⟨early, hreturned⟩ := (hq.held_of_activity ha rfl).of_returning.1
    rw [hreturned] at hsame
    rw [hsame] at hphase
    cases early with
    | some x => cases hphase
    | none =>
      have hregistering : (s.moment.world.fiber? t.fiber).map Fiber.phase = some (.registering none) := by
        rw [hr, Option.map_some, hsame]
        rfl
      have hpending := World.interruptPending_of_unflagged h.waiting t.run.masks
      refine ⟨t.canceler, ?_⟩
      obtain ⟨⟨w, a⟩, kept⟩ := s
      cases ha
      simp only [Scene.play, Moment.next, World.leaveRegistration, hregistering, hpending, Bool.false_eq_true, if_false]
  · have hasleep : s.moment.world.Asleep t.fiber r'.home t.run t.canceler := ⟨r', hr', rfl, hsuspended⟩
    have hheld := hq.held_of_activity rfl hactive
    rw [hasleep.standing hq] at hheld
    rw [hheld.of_parked.2] at hactive
    cases hactive

/-- While its two fibers do nothing a pairing is left alone if it is undisturbed. -/
theorem idles (hpart : Aloof part) (hinactive : ∀ side, s.moment.activity.fiber? ≠ some (t.side side))
    (hall : s.Acts t.fiber stroke ∨ s.LeavesAlone part t.fiber (s.play stroke)) :
    t.Undecided p row (s.play stroke) ∧ part (s.play stroke).moment.world = part s.moment.world := by
  have hended : s.ended? stroke ≠ some t.joint :=
    h.not_ended fun side _ _ ha => hinactive side (congrArg Activity.fiber? ha)
  rcases hall with ⟨rfl, f, hruns, hactive⟩ | halone
  · obtain rfl : f = t.fiber := (h.of_runsFor hruns).resolve_right fun ⟨side, hside⟩ => hinactive side (hside ▸ hactive)
    obtain ⟨canceler, hnext⟩ := h.parks hactive
    refine ⟨h.play hended fun f _ hf => ?_, ?_⟩
    · rw [hnext]
      refine (World.flagged_modifyFiber ?_ _ t.fiber f).trans hf
      exact fun _ => rfl
    · rw [hnext]
      exact hpart.modifyFiber ..
  · exact ⟨h.play hended halone.flags, halone.part⟩

/-! ## Exits -/

/-- The first cause is given to the fiber that waits. -/
theorem ends_of_cause (ha : s.moment.activity = .exiting (t.side side) (.cause c) hook) :
    (s.play .next).Ends t.fiber t.run (.cause c) := by
  have hstops := h.runs.stops_pairing h.joint h.stored h.callback ha
  exact (h.runs.play .next).ends (hstops.resumed h.waits).task

/-- What the combining function says of the two values is given to the fiber that waits. -/
theorem ends_of_second (hpart : Aloof part) (hleft : row.left = some v)
    (ha : s.moment.activity = .exiting t.right (.value v') hook) (hpart' : part s.moment.world = a)
    (hcombine : (Call.bind (.combineLeft v row.combine) v').Gives part a (.ofExit x) b) :
    (s.play .next).Ends t.fiber t.run x := by
  have hkept : row.value? (Side.other .right) = some v := hleft
  have hcombines : t.Combines row.combine v v' s := h.runs.combines_pairing h.joint h.stored h.callback hkept ha
  obtain ⟨w, hends, -, hresumed⟩ := hcombines.called
  have hresult := hcombine.result w ((hpart.ends hends).trans hpart')
  rw [Call.result_combineLeft] at hresult
  have hexit := Next.ofExit_injective hresult
  exact hexit ▸ (h.runs.play .next).ends (hresumed h.waits).task

/-- The first value is kept. -/
theorem keeps_first (hpart : Aloof part) (hother : row.value? side.other = none)
    (ha : s.moment.activity = .exiting (t.side side) (.value v) hook) :
    t.Undecided p (row.store side v) (s.play .next) ∧ part (s.play .next).moment.world = part s.moment.world := by
  have hdone := h.runs.finishes_pairing h.joint ha
  rw [World.finishPairing_of_first h.stored h.callback side hother v] at hdone
  refine ⟨⟨h.runs.play .next, h.joint, ?_, (row.callback_store side v).trans h.callback, ?_, fun side => ?_⟩, ?_⟩
  · rw [hdone, World.pairing?_modifyPairing, if_pos rfl, h.stored, Option.map_some]
  · rw [hdone]
    exact h.waiting
  · rw [hdone]
    exact h.unflagged side
  · rw [hdone]
    exact hpart.joints s.moment.world s.moment.world.stores.races _

/-! ## Turns -/

end Undecided

section Turns

variable {K : Scene → Prop} {z : Exit Value Value} {left right root : Effect} {g : Combine} {stand : Stand}
  {n m budget spare : Nat} {d e : σ}

section Turn

variable (side) (hK : ∀ s stroke, t.Undecided p row s → K s → s.moment.activity.fiber? = some (t.side side) → K (s.play stroke))

include hK

/-- One of the two fibers takes steps for the fiber that waits. -/
theorem accompanies_undecided :
    Scene.Accompanies t.fiber t.run (t.side side) {} fun s => t.Undecided p row s ∧ K s where
  occurs _ h := h.1.runs.occurs
  unflagged _ h := h.1.unflagged side
  runsFor _ h := h.1.runsFor side
  evaluates _ h _ := h.1.evaluates
  play s stroke h hactive hnot hflags := by
    refine ⟨h.1.play (h.1.not_ended fun side' x hook ha => ?_) hflags, hK s stroke h.1 h.2 hactive⟩
    rw [ha] at hactive
    exact hnot x hook (Option.some.inj hactive ▸ ha)

variable (hnext : ∀ s hook, t.Undecided p row s → K s → s.moment.activity = .exiting (t.side side) y hook →
  part s.moment.world = b → (s.play .next).Delivers part t.fiber t.run z home)

include hnext

theorem Undecided.delivers_exiting (h : t.Undecided p row s) (hk : K s)
    (ha : s.moment.activity = .exiting (t.side side) y hook) (hpart' : part s.moment.world = b) :
    s.Delivers part t.fiber t.run z home := by
  let S (s : Scene) : Prop := t.Undecided p row s ∧ K s ∧ s.moment.activity = .exiting (t.side side) y hook ∧
    part s.moment.world = b
  refine Scene.Delivers.of_busy (S := S) (fun s hS => ⟨hS.1.runs.occurs, hS.1.evaluates⟩) (fun s hS => ?_)
    (fun s stroke hS hstroke halone => ?_) ⟨h, hk, ha, hpart'⟩ <;> obtain ⟨h, hk, ha, hpart'⟩ := hS
  · exact hnext s hook h hk ha hpart'
  · have hended : s.ended? stroke ≠ some t.joint := by
      cases stroke with
      | next => exact absurd rfl hstroke
      | _ => nofun
    exact ⟨h.play hended halone.flags, hK s stroke h hk (congrArg Activity.fiber? ha),
      Scene.activity_play ha Activity.noConfusion hstroke, halone.part.trans hpart'⟩

/-- **One of the two fibers comes to its exit in its first turn.** -/
theorem Undecided.delivers_turn (hpart : Aloof part) (h : t.Undecided p row s) (hk : K s)
    (ha : s.moment.activity = .running (t.side side) spare stand) (hpart' : part s.moment.world = a)
    (hwalk : Walks part {} n stand a ⟨{}, .ofExit y⟩ b) (hn : n < spare) : s.Delivers part t.fiber t.run z home := by
  have haccompanies := accompanies_undecided side hK
  induction n generalizing s stand spare a with
  | zero =>
    cases hwalk
    obtain ⟨spare, rfl⟩ := Nat.exists_eq_succ_of_ne_zero (Nat.ne_of_gt hn)
    let S (s : Scene) : Prop := (t.Undecided p row s ∧ K s) ∧
      s.moment.activity = .running (t.side side) (spare + 1) ⟨{}, .ofExit y⟩ ∧ part s.moment.world = b
    refine Scene.Delivers.of_busy (S := S) (fun s hS => ⟨hS.1.1.runs.occurs, hS.1.1.evaluates⟩) (fun s hS => ?_)
      (fun s stroke hS hstroke halone => ?_) ⟨⟨h, hk⟩, ha, hpart'⟩ <;> obtain ⟨hs, ha, hpart'⟩ := hS
    · obtain ⟨q, hq⟩ := hs.1.runs.occurs.fits_of_activity (congrArg Activity.fiber? ha)
      have hexit := Scene.play_of_exit hq ha (x := y) (by cases y <;> rfl)
      obtain ⟨h', hk'⟩ := haccompanies.goes hs (congrArg Activity.fiber? ha) (fun _ _ ha' => nomatch ha.symm.trans ha')
        fun f => by
          rw [hexit]
          refine World.flagged_modifyFiber ?_ s.moment.world (t.side side) f
          exact fun _ => rfl
      refine h'.delivers_exiting side hK hnext hk' (congrArg Moment.activity hexit) ?_
      rw [hexit]
      exact (hpart.modifyFiber ..).trans hpart'
    · obtain ⟨hs', ha'⟩ := haccompanies.stays hs ha rfl nofun hstroke halone
      exact ⟨hs', ha', halone.part.trans hpart'⟩
  | succ n ih =>
    obtain ⟨spare, rfl⟩ := Nat.exists_eq_succ_of_ne_zero (Nat.ne_of_gt (Nat.zero_lt_of_lt hn))
    exact haccompanies.delivers_step hpart ⟨h, hk⟩ ha hpart' hwalk fun s stand a hs ha hpart' hwalk =>
      ih hs.1 hs.2 ha hpart' hwalk (Nat.lt_of_succ_lt_succ hn)

end Turn

/-- One of the two fibers has its first turn at last, while the other one does nothing. -/
theorem Undecided.delivers_waiting (side : Side) (hpart : Aloof part)
    (hother : ∀ s, t.Undecided p row s → K s → s.moment.activity.fiber? ≠ some (t.side side.other))
    (hK : ∀ s stroke, t.Undecided p row s → K s → s.Awaits (t.side side) home root →
      (s.play stroke).Awaits (t.side side) home root → K (s.play stroke))
    (hbegins : ∀ s stroke, t.Undecided p row s → K s → t.Undecided p row (s.play stroke) →
      (s.play stroke).moment.activity = .running (t.side side) budget ⟨{}, .eval root⟩ →
        (s.play stroke).budgetAt home = budget → part (s.play stroke).moment.world = a →
          (s.play stroke).Delivers part t.fiber t.run z home)
    (h : t.Undecided p row s) (hk : K s) (hawaits : s.Awaits (t.side side) home root) (hbudget : s.budgetAt home = budget)
    (hpart' : part s.moment.world = a) : s.Delivers part t.fiber t.run z home := by
  let S (s : Scene) : Prop := t.Undecided p row s ∧ K s ∧ s.Awaits (t.side side) home root ∧ s.budgetAt home = budget ∧
    part s.moment.world = a
  refine Scene.Delivers.of_stage (S := S) (fun s hS => ⟨hS.1.runs.occurs, hS.1.evaluates⟩) (fun s stroke hS hall => ?_)
    (fun s hS hhere => ?_) ⟨h, hk, hawaits, hbudget, hpart'⟩ <;> obtain ⟨h, hk, hawaits, hbudget, hpart'⟩ := hS
  · have hinactive (side' : Side) : s.moment.activity.fiber? ≠ some (t.side side') := by
      have hself := hawaits.inactive h.runs.occurs
      have hother := hother s h hk
      cases side <;> cases side' <;> assumption
    obtain ⟨h', hsame⟩ := h.idles hpart hinactive hall
    have hbudget' : (s.play stroke).budgetAt home = budget := (h.runs.occurs.budgetAt_after home [stroke]).trans hbudget
    rcases hawaits.play h.runs.occurs stroke with hstill | ha
    · exact Or.inl ⟨h', hK s stroke h hk hawaits hstill, hstill, hbudget', hsame.trans hpart'⟩
    · exact Or.inr (hbegins s stroke h hk h' (hbudget ▸ ha) hbudget' (hsame.trans hpart'))
  · obtain ⟨n, hn⟩ := hawaits.comesTo h.runs.occurs hhere
    exact ⟨n, fun _ => hn.imp_right fun hnot hS => absurd hS.2.2.1 hnot⟩

/-- A pairing has just begun: its two fibers wait for their first turns, the left one ahead of the right one. -/
structure Poised (t : Tandem) (home : LoopName) (left right : Effect) (g : Combine) (s : Scene) : Prop where
  undecided : ∃ p, t.Undecided p { callback := some t.callback, fibers := t.fibers, combine := g } s
  left : s.Awaits t.left home left
  right : s.Awaits t.right home right
  precedes : s.moment.world.Precedes home t.left t.right

/-- The exit of the right fiber decides a pairing that has kept a value. -/
inductive Decides (part : World → σ) (f : Combine) (v : Value) (b : σ) : Exit Value Value → Exit Value Value → Prop where
  | cause (c : Cause Value) : Decides part f v b (.cause c) (.cause c)
  | value {v' : Value} {x : Exit Value Value} {e : σ}
    (hcombine : (Call.bind (.combineLeft v f) v').Gives part b (.ofExit x) e) : Decides part f v b (.value v') x

/-- The right fiber has its turn when the left one has told a value. -/
theorem Undecided.delivers_right (hpart : Aloof part) (h : t.Undecided p row s) (hleft : row.left = some v)
    (hawaits : s.Awaits t.right home right) (htold : ∃ q, Fits t.left (s.moment.view t.left) q ∧ q.tellings ≠ [])
    (hbudget : s.budgetAt home = budget) (hpart' : part s.moment.world = a)
    (hright : Yields part (.eval right) a n y b) (hn : n < budget) (hdecides : Decides part row.combine v b y z) :
    s.Delivers part t.fiber t.run z home := by
  refine Undecided.delivers_waiting .right hpart (K := fun s => ∃ q, Fits t.left (s.moment.view t.left) q ∧ q.tellings ≠ [])
    (fun s _ ⟨q, hq, htold⟩ => hq.inactive_of_told htold) (fun s stroke h ⟨q, hq, htold⟩ _ _ => ?_)
    (fun s stroke _ _ h ha _ hpart' => ?_) h htold hawaits hbudget hpart'
  · obtain ⟨es, q', hmoves, hq'⟩ := h.runs.occurs.moves_play hq stroke
    exact ⟨q', hq', hmoves.tellings_ne_nil htold⟩
  · refine Undecided.delivers_turn .right (K := fun _ => True) (fun _ _ _ _ _ => trivial)
      (fun s hook h _ ha hpart' => ?_) hpart h trivial ha hpart' (hright.walks {}) hn
    cases hdecides with
    | cause c => exact .of_ends (h.ends_of_cause ha)
    | value hcombine => exact .of_ends (h.ends_of_second hpart hleft ha hpart' hcombine)

/-- The left fiber has its turn first. -/
theorem Undecided.delivers_left (hpart : Aloof part) (h : t.Undecided p row s) (hleft : s.Awaits t.left home left)
    (hright : s.Awaits t.right home right) (hprecedes : s.moment.world.Precedes home t.left t.right)
    (hbudget : s.budgetAt home = budget) (hpart' : part s.moment.world = a)
    (hyields : Yields part (.eval left) a n y b) (hn : n < budget)
    (hnext : ∀ s hook, t.Undecided p row s → s.Awaits t.right home right ∧ s.budgetAt home = budget →
      s.moment.activity = .exiting (t.side .left) y hook → part s.moment.world = b →
        (s.play .next).Delivers part t.fiber t.run z home) : s.Delivers part t.fiber t.run z home := by
  refine Undecided.delivers_waiting .left hpart
    (K := fun s => s.Awaits t.right home right ∧ s.moment.world.Precedes home t.left t.right)
    (fun s h hk => hk.1.inactive h.runs.occurs) (fun s stroke h ⟨hright, hprecedes⟩ hleft hstill => ?_)
    (fun s stroke h ⟨hright, _⟩ h' ha hbudget hpart' => ?_) h ⟨hright, hprecedes⟩ hleft hbudget hpart'
  · have hoccurs := h.runs.occurs
    have hahead := hoccurs.precedes_play h.runs.apart hleft.lives hright.lives hprecedes stroke
    refine ⟨(hright.play hoccurs stroke).resolve_right fun ha => ?_, hahead.2.resolve_left fun htakes => ?_⟩
    · exact hahead.1 ⟨hright.inactive hoccurs, congrArg Activity.fiber? ha⟩
    · exact hstill.inactive (hoccurs.after [stroke]) htakes.2
  · refine Undecided.delivers_turn .left (K := fun s => s.Awaits t.right home right ∧ s.budgetAt home = budget)
      (fun s stroke h hk hactive => ?_) hnext hpart h' ⟨?_, hbudget⟩ ha hpart' (hyields.walks {}) hn
    · exact ⟨hk.1.still h.runs.occurs hactive stroke, (h.runs.occurs.budgetAt_after home [stroke]).trans hk.2⟩
    · refine (hright.play h.runs.occurs stroke).resolve_right fun ha' => h.runs.apart ?_
      exact Option.some.inj (congrArg Activity.fiber? (ha.symm.trans ha'))

/-- **The two fibers of a pairing do what their effects amount to in turn.** -/
theorem Poised.delivers (h : t.Poised home left right g s) (hpart : Aloof part) (hbudget : s.budgetAt home = budget)
    (hpart' : part s.moment.world = a) (hturn : InTurn part budget left right g a z) :
    s.Delivers part t.fiber t.run z home := by
  obtain ⟨p, hundecided⟩ := h.undecided
  have hsecond {v : Value} {y : Exit Value Value} {b d : σ} {m : Nat} (hyields : Yields part (.eval right) b m y d)
      (hm : m < budget) (hdecides : Decides part g v d y z) (s : Scene) (hook : ExitHook)
      (h : t.Undecided p { callback := some t.callback, fibers := t.fibers, combine := g } s)
      (hk : s.Awaits t.right home right ∧ s.budgetAt home = budget)
      (ha : s.moment.activity = .exiting (t.side .left) (.value v) hook) (hpart' : part s.moment.world = b) :
      (s.play .next).Delivers part t.fiber t.run z home := by
    have hoccurs := h.runs.occurs
    obtain ⟨h', hsame⟩ := h.keeps_first hpart rfl ha
    exact h'.delivers_right hpart rfl (hk.1.still hoccurs (congrArg Activity.fiber? ha) .next) (hoccurs.told ha)
      ((hoccurs.budgetAt_after home [.next]).trans hk.2) (hsame.trans hpart') hyields hm hdecides
  cases hturn with
  | leftCause hyields hn =>
    exact hundecided.delivers_left hpart h.left h.right h.precedes hbudget hpart' hyields hn fun s hook h _ ha _ =>
      .of_ends (h.ends_of_cause ha)
  | rightCause hyields hn hyields' hm =>
    exact hundecided.delivers_left hpart h.left h.right h.precedes hbudget hpart' hyields hn
      (hsecond hyields' hm (.cause _))
  | combined hyields hn hyields' hm hcombine =>
    exact hundecided.delivers_left hpart h.left h.right h.precedes hbudget hpart' hyields hn
      (hsecond hyields' hm (.value hcombine))

end Turns

end Tandem

/-! ## Beginnings -/

section Beginnings

variable {σ : Type} {part : World → σ} {s : Scene} {f : FiberId} {base : Run} {home : LoopName} {left right root : Effect}
  {g : Combine} {a : σ} {x : Exit Value Value} {budget spare epoch : Nat}

/-- A fiber that was launched waits for its first turn. -/
theorem Scene.Occurs.awaits (h : s.Occurs) {r : Fiber} (hr : s.moment.world.fiber? f = some r) (hhome : r.home = home)
    (hphase : r.phase = .created root) (htask : .task (.start f) ∈ (s.moment.world.loopAt home).inbox) :
    s.Awaits f home root := by
  have hlives : s.Lives f home := (World.home?_of_fiber? hr).trans (congrArg some hhome)
  obtain ⟨p, hp⟩ := h.fits_of_lives hlives
  obtain ⟨root', hfresh⟩ := hp.fresh_of_task htask
  have hsame : s.moment.world.phase? f = some (.created root') :=
    hp.phase?_eq.trans (congrArg (some ∘ Standing.phase) hfresh)
  rw [World.phase?, hr, Option.map_some, hphase] at hsame
  cases hsame
  exact ⟨hlives, htask, p, hp, hfresh⟩

theorem Aloof.launch (h : Aloof part) (root : Effect) (hook : ExitHook) (notice : Option ExitNotice) (w : World) :
    part (w.launch root hook notice).2 = part w := (h.queue ..).trans (h.fibers ..)

theorem Aloof.startPairing (h : Aloof part) (left right : Effect) (g : Combine) (callback : Callback) (w : World) :
    part (w.startPairing left right g callback).2 = part w := by
  obtain ⟨races, pairings, hlaunched⟩ := (World.starts_startPairing left right g callback w).launched
  rw [hlaunched]
  exact (h.joints _ races pairings).trans ((h.launch ..).trans (h.launch ..))

/-- The registration of a pairing has its two fibers wait for their first turns. -/
theorem Scene.Intact.begins_pairing (h : s.Intact f home budget)
    (ha : s.moment.activity = .registering f spare base (.parZip left right g) epoch) :
    (s.tandem (.pairing ⟨s.moment.world.stores.pairings.size⟩) f base epoch).Poised home left right g (s.play .next) ∧
      (s.play .next).moment.world = (s.moment.world.startPairing left right g ⟨f, epoch⟩).2 := by
  have hstarts := World.starts_startPairing left right g ⟨f, epoch⟩ s.moment.world
  have hfibers := World.startPairing_fst left right g ⟨f, epoch⟩ s.moment.world
  have hnext : (s.play .next).moment = ⟨(s.moment.world.startPairing left right g ⟨f, epoch⟩).2, .returning f spare base
      (s.tandem (.pairing ⟨s.moment.world.stores.pairings.size⟩) f base epoch).canceler⟩ := by
    obtain ⟨⟨w, a⟩, kept⟩ := s
    cases ha
    show Moment.mk _ (.returning f spare base (.interrupt (w.startPairing left right g ⟨f, epoch⟩).1)) = _
    rw [hfibers]
    rfl
  have hworld := congrArg Moment.world hnext
  obtain ⟨hbegins, hruns⟩ := h.occurs.begins ha hstarts hnext
  have hhere : s.moment.world.here = home :=
    h.lives.unique (h.occurs.atHome.active f (congrArg Activity.fiber? ha))
  have hinbox : ((s.play .next).moment.world.loopAt home).inbox = s.moment.world.loop.inbox ++
      [.task (.start ⟨s.moment.world.fibers.size⟩), .task (.start ⟨s.moment.world.fibers.size + 1⟩)] := by
    rw [← hhere, ← h.occurs.here_next, World.loopAt_here]
    exact hbegins.queued
  have hrow : (s.play .next).moment.world.pairing? ⟨s.moment.world.stores.pairings.size⟩ =
      some { callback := some ⟨f, epoch⟩
             fibers := [⟨s.moment.world.fibers.size⟩, ⟨s.moment.world.fibers.size + 1⟩]
             combine := g } := by
    rw [hworld, World.pairing?_startPairing, if_pos rfl]
  -- none of the tasks that wait already goes on with the right fiber, which is new
  have hnew : s.moment.world.loop.inbox.filterMap (Message.token? ⟨s.moment.world.fibers.size + 1⟩) = [] := by
    rcases h.occurs.absent_or_fits ⟨s.moment.world.fibers.size + 1⟩ with habsent | ⟨p, hp⟩
    · exact (List.append_eq_nil_iff.1 habsent.tokens).1
    · obtain ⟨home', hrecord⟩ := hp.record
      exact nomatch hrecord.symm.trans (congrArg (Option.map Fiber.core) (hbegins.new .right))
  refine ⟨⟨⟨_, hruns, rfl, hrow, rfl, ?_, fun side => ?_⟩, hruns.occurs.awaits hbegins.left hhere rfl ?_,
    hruns.occurs.awaits hbegins.right hhere rfl ?_, _, _, _, hinbox, rfl, hnew⟩, hworld⟩
  · have hself := hbegins.others f fun side => (hruns.alone side).symm
    exact (congrArg (Option.any Fiber.interruptRequested) hself).trans h.unflagged
  · cases side with
    | left => exact congrArg (Option.any Fiber.interruptRequested) hbegins.left
    | right => exact congrArg (Option.any Fiber.interruptRequested) hbegins.right
  · rw [hinbox]
    exact List.mem_append_right _ List.mem_cons_self
  · rw [hinbox]
    exact List.mem_append_right _ (List.mem_cons_of_mem _ List.mem_cons_self)

/-- A fiber that registers a pairing is given what the two effects amount to in turn. -/
theorem Scene.Intact.delivers_registering (h : s.Intact f home budget) (hpart : Aloof part)
    (ha : s.moment.activity = .registering f spare base (.parZip left right g) epoch) (hpart' : part s.moment.world = a)
    (hturn : InTurn part budget left right g a x) : s.Delivers part f base x home := by
  let S (s : Scene) : Prop := s.Intact f home budget ∧
    s.moment.activity = .registering f spare base (.parZip left right g) epoch ∧ part s.moment.world = a
  refine Scene.Delivers.of_busy (S := S) (fun s hS => ?_) (fun s hS => ?_) (fun s stroke hS hstroke halone => ?_)
    ⟨h, ha, hpart'⟩ <;> obtain ⟨h, ha, hpart'⟩ := hS
  · refine ⟨h.occurs, h.occurs.evaluates_of_activity (congrArg Activity.fiber? ha) (congrArg Activity.run? ha) .refl ?_⟩
    exact fun _ _ ha' => nomatch ha.symm.trans ha'
  · obtain ⟨hpoised, hworld⟩ := h.begins_pairing ha
    refine hpoised.delivers hpart ((h.occurs.budgetAt_after home [.next]).trans h.budget) ?_ hturn
    rw [hworld]
    exact (hpart.startPairing ..).trans hpart'
  · obtain ⟨h', ha'⟩ := (Scene.accompanies_intact f base home budget).stays h ha rfl nofun hstroke halone
    exact ⟨h', ha', halone.part.trans hpart'⟩

/-- A fiber that is about to evaluate a pairing is given what the two effects amount to in turn. -/
theorem Scene.Intact.delivers_pairing (h : s.Intact f home budget) (hpart : Aloof part) (hbudget : 0 < budget)
    (hready : s.Ready f ⟨base, .eval (.async (.parZip left right g))⟩) (hpart' : part s.moment.world = a)
    (hturn : InTurn part budget left right g a x) : s.Delivers part f base x home := by
  refine Scene.Delivers.of_ready hpart hbudget (Stand.above_eval .refl _) (fun s spare h ha hpart' => ?_) h hready hpart'
  let S (s : Scene) : Prop := s.Intact f home budget ∧
    s.moment.activity = .running f (spare + 1) ⟨base, .eval (.async (.parZip left right g))⟩ ∧ part s.moment.world = a
  refine Scene.Delivers.of_busy (S := S) (fun s hS => ?_) (fun s hS => ?_) (fun s stroke hS hstroke halone => ?_)
    ⟨h, ha, hpart'⟩ <;> obtain ⟨h, ha, hpart'⟩ := hS
  · exact ⟨h.occurs, (h.occurs.ready ha).evaluates (Stand.above_eval .refl _)⟩
  · have hnext := Scene.play_of_register ha rfl h.unflagged
    have hafter := (Scene.accompanies_intact f base home budget).goes h (congrArg Activity.fiber? ha)
      (fun _ _ ha' => nomatch ha.symm.trans ha') fun g => by
        rw [hnext]
        exact World.flagged_advanceEpoch _ f _ g
    refine hafter.delivers_registering hpart (congrArg Moment.activity hnext) ?_ hturn
    rw [hnext]
    exact (hpart.modifyFiber ..).trans hpart'
  · obtain ⟨h', ha'⟩ := (Scene.accompanies_intact f base home budget).stays h ha rfl nofun hstroke halone
    exact ⟨h', ha', halone.part.trans hpart'⟩

/-! ## In parallel or one after the other -/

/-- The loop is asked for before an effect is evaluated. -/
theorem Walks.proceed (base : Run) (e : Effect) (a : σ) :
    Walks part base 3 ⟨base, .eval (.chain .currentLoop (.proceed e))⟩ a ⟨base, .eval e⟩ a := by
  have hloop : Walks part _ 1 _ a _ a := (Yields.currentLoop a).walks (base.push (.chain (.proceed e)))
  have hcall : (Call.bind (.proceed e) .null).Gives part a (.eval e) a := .of_pure rfl a
  have habove := Stand.above_of_length (Run.Within.chain .refl (.proceed e)) (Nat.lt_succ_self base.frames.length) (.value .null)
  exact .around rfl (.chain .refl _) hloop (.call habove rfl hcall (.refl _ a))

/-- Wherever a fiber begins with an effect that is not interrupted, on a loop whose turns have so many steps and in a
world with that part, it comes to that exit as long as it is undisturbed. -/
def Effect.Delivers (part : World → σ) (budget : Nat) (e : Effect) (a : σ) (x : Exit Value Value) : Prop :=
  ∀ (f : FiberId) (base : Run) (home : LoopName) (spare : Nat) (s : Scene), s.Intact f home budget →
    s.moment.activity = .running f spare ⟨base, .eval e⟩ → part s.moment.world = a → s.Delivers part f base x home

/-- **In parallel or one after the other, two synchronous effects come to the same exit.** -/
theorem InTurn.agree (h : InTurn part budget left right g a x) (hpart : Aloof part) :
    (left.zipWith right g).Delivers part budget a x ∧ (left.parZipWith right g).Delivers part budget a x := by
  have hbudget : 0 < budget := by
    cases h with
    | leftCause _ hn | rightCause _ hn | combined _ hn => exact Nat.zero_lt_of_lt hn
  refine ⟨fun f base home spare s hs ha hpart' => ?_, fun f base home spare s hs ha hpart' => ?_⟩
  · obtain ⟨n, b, hyields⟩ := h.yields
    exact hs.delivers hpart hbudget hyields (hs.occurs.ready ha) hpart'
  · exact Scene.Delivers.of_walks hpart hbudget (fun s hs hready hpart' => hs.delivers_pairing hpart hbudget hready hpart' h)
      hs (hs.occurs.ready ha) hpart' (.proceed base _ a)

end Beginnings

namespace Scene

/-! ### One effect writes to a cell, the other one reads it -/

/-- The run below a combinator that hands its value on once more. -/
def converting : Run := ({} : Run).push (.chain (.transform .same))

/-- A fiber is about to combine an effect that writes to a cell with one that reads it. -/
def sharing (pair : Program → Program → Program) : Scene :=
  (initial {} []).after [.demand (.scenario (.newCell "c" (.const (.int 0)))),
    .demand (.scenario (.run "a" (pair (.cell (.set (.var "c") (.const (.int 5)))) (.cell (.get (.var "c")))) false)),
    .next, .next]

/-- The write tells nothing, and the read what was written. -/
def sharedExit : Exit Value Value := .value (.pair .null (.ofDatum (.int 5)))

theorem agree_of_sharing :
    Aloof (fun w => w.stores.cells) ∧
      InTurn (fun w => w.stores.cells) 1024 (Effect.perform (.setCell ⟨0⟩ (.ofDatum (.int 5)))).convert
        (.perform (.getCell ⟨0⟩)) .pair (({} : Table Value).push (.ofDatum (.int 0))) sharedExit ∧
      (∃ n, ((sharing .zip).after (List.replicate n .next)).Ends ⟨0⟩ converting sharedExit) ∧
      ∃ n, ((sharing .parZip).after (List.replicate n .next)).Ends ⟨0⟩ converting sharedExit := by
  have hturn : InTurn (fun w => w.stores.cells) 1024 (Effect.perform (.setCell ⟨0⟩ (.ofDatum (.int 5)))).convert
      (.perform (.getCell ⟨0⟩)) .pair (({} : Table Value).push (.ofDatum (.int 0))) sharedExit :=
    .combined (Yields.setCell ⟨0⟩ (.ofDatum (.int 5)) _).convert (by decide) (.getCell ⟨0⟩ _) (by decide) (.of_pure rfl _)
  have hintact (pair : Program → Program → Program) (hlives : (sharing pair).Lives ⟨0⟩ .own)
      (hunflagged : (sharing pair).moment.world.flagged ⟨0⟩ = false) (hbudget : (sharing pair).budgetAt .own = 1024) :
      (sharing pair).Intact ⟨0⟩ .own 1024 := ⟨(Occurs.initial _ _).after _, hlives, hunflagged, hbudget⟩
  obtain ⟨hzip, hparZip⟩ := hturn.agree Aloof.cells
  refine ⟨Aloof.cells, hturn, ?_, ?_⟩
  · have hdelivers := hzip ⟨0⟩ converting .own 1023 (sharing .zip) (hintact _ rfl rfl rfl) rfl rfl
    have hall : (sharing .zip).Undisturbed (fun w => w.stores.cells) ⟨0⟩ (List.replicate 11 .next) :=
      undisturbed_of_proceeds (j := .pairing ⟨0⟩) Aloof.cells rfl
    obtain ⟨first, rest, hsplit, hends⟩ := hdelivers.ends_of_done hall rfl
    rw [(List.replicate_eq_append_iff.1 hsplit).2.1] at hends
    exact ⟨_, hends⟩
  · have hdelivers := hparZip ⟨0⟩ converting .own 1023 (sharing .parZip) (hintact _ rfl rfl rfl) rfl rfl
    have hall : (sharing .parZip).Undisturbed (fun w => w.stores.cells) ⟨0⟩ (List.replicate 20 .next) :=
      undisturbed_of_proceeds (j := .pairing ⟨0⟩) Aloof.cells rfl
    obtain ⟨first, rest, hsplit, hends⟩ := hdelivers.ends_of_done hall rfl
    rw [(List.replicate_eq_append_iff.1 hsplit).2.1] at hends
    exact ⟨_, hends⟩

/-! ### Effects that look at what others do -/

/-- A fiber was handed itself, and is about to combine its own state with a number. -/
def introspecting (pair : Program → Program → Program) : Scene :=
  let state : Program := .fiber (.state (.var "me"))
  let root : Program := .chain (.deferred (.wait (.var "d"))) "me" (pair state (.succeed (.const (.int 1))))
  let handsOut : Program := .chain (.deferred (.done (.var "d") (.var "h"))) "u" (.fiber (.join (.var "h")))
  (initial {} []).after (.demand (.scenario (.newDeferred "d")) ::
    .demand (.scenario (.run "a" (.chain (.fork root) "h" handsOut) false)) :: List.replicate 25 .next)

/-- A fiber is about to combine what a cell holds with a number, while another one that writes to the cell waits for its
turn. -/
def overtaken (pair : Program → Program → Program) : Scene :=
  (initial {} []).after [.demand (.scenario (.newCell "c" (.const (.int 0)))),
    .demand (.scenario (.run "a" (pair (.cell (.get (.var "c"))) (.succeed (.const (.int 1)))) false)),
    .demand (.scenario (.run "b" (.cell (.set (.var "c") (.const (.int 5)))) false)), .next, .next]

/-- In two sessions a fiber that is not interrupted is about to combine two effects of one step each, in the first one
after the other and in the second in parallel. Then the loop is left to itself, and the two come to different exits. -/
structure Differ (f : FiberId) (spare : Nat) (left right : Effect) (x x' : Exit Value Value) (s s' : Scene) : Prop where
  occurs : s.Occurs
  occurs' : s'.Occurs
  unflagged : s.moment.world.flagged f = false
  unflagged' : s'.moment.world.flagged f = false
  leaves : left.leaf?.isSome = true ∧ right.leaf?.isSome = true
  inTurn : s.moment.activity = .running f spare ⟨converting, .eval (left.zip right)⟩
  inParallel : s'.moment.activity = .running f spare ⟨converting, .eval (left.parZip right)⟩
  ends : ∃ n, (s.after (List.replicate n .next)).Ends f converting x
  ends' : ∃ n, (s'.after (List.replicate n .next)).Ends f converting x'
  ne : x ≠ x'

/-- The state of the fiber that waits is another one, and others have their turns meanwhile. -/
theorem not_agree_of_observing :
    Differ ⟨1⟩ 1020 (.perform (.fiberState ⟨1⟩)) (.succeed (.ofDatum (.int 1)))
        (.value (.pair (.str "Running") (.ofDatum (.int 1)))) (.value (.pair (.str "Suspended") (.ofDatum (.int 1))))
        (introspecting .zip) (introspecting .parZip) ∧
      Differ ⟨0⟩ 1023 (.perform (.getCell ⟨0⟩)) (.succeed (.ofDatum (.int 1)))
        (.value (.pair (.ofDatum (.int 0)) (.ofDatum (.int 1)))) (.value (.pair (.ofDatum (.int 5)) (.ofDatum (.int 1))))
        (overtaken .zip) (overtaken .parZip) := by
  have hends {s : Scene} {f : FiberId} {x : Exit Value Value} {strokes : List Stroke} (left : Nat) (h : s.Occurs)
      (ha : (s.after strokes).moment.activity = .running f left ⟨converting, .ofExit x⟩) :
      (s.after strokes).Ends f converting x := (h.after strokes).ready ha
  have hintrospecting (pair : Program → Program → Program) : (introspecting pair).Occurs := (Occurs.initial _ _).after _
  have hovertaken (pair : Program → Program → Program) : (overtaken pair).Occurs := (Occurs.initial _ _).after _
  refine ⟨⟨hintrospecting _, hintrospecting _, rfl, rfl, ⟨rfl, rfl⟩, rfl, rfl, ⟨6, ?_⟩, ⟨15, ?_⟩, by simp [Value.pair]⟩,
    ⟨hovertaken _, hovertaken _, rfl, rfl, ⟨rfl, rfl⟩, rfl, rfl, ⟨6, ?_⟩, ⟨21, ?_⟩, by simp [Value.pair, Value.ofDatum]⟩⟩
  · exact hends 1014 (hintrospecting _) rfl
  · exact hends 1024 (hintrospecting _) rfl
  · exact hends 1017 (hovertaken _) rfl
  · exact hends 1024 (hovertaken _) rfl

end Scene

end FiberLoop
