import FiberLoop.Proofs.Permits.Nesting

/-!
# Mutual exclusion

A semaphore that is used only to run bodies with a permit lets so many of them be in progress at a time as it was made
with permits, and it is as it was when no such effect is in progress (`Guarded.exclusive`). The guards account for its
permits (`Guarding.count`): each permit that somebody has taken for good is held by an effect or was released.
-/

namespace FiberLoop

open Engagement Semaphore

variable {sem : SemaphoreId} {n : Nat} {σ σ' : Engagements} {b b' : Books} {s : Scene} {f g : FiberId} {left : Nat}
  {stand : Stand} {G : Guard} {γ rest stack : List Guard} {E : Engagement} {p q : Place} {x : Exit Value Value}
  {stroke : Stroke} {row : Semaphore}

/-! ## What other fibers do -/

/-- An acquire of a fiber begins or is over only with a step of that fiber. -/
theorem Advance.of_other (h : Advance σ b s σ' b' (s.play .next))
    (hstand : s.moment.activity = .running g (left + 1) stand) (hfg : f ≠ g) : σ' f = σ f := by
  cases hf : σ f with
  | none =>
    cases hf' : σ' f with
    | none => rfl
    | some E =>
      obtain ⟨-, left', hbegan⟩ := h.began f E hf hf'
      cases hstand.symm.trans hbegan
      exact absurd rfl hfg
  | some E =>
    rcases h.ended f E hf with hsame | ⟨-, -, left', t, v, hactivity, -⟩
    · exact hsame
    · have hbusy : s.moment.activity ≠ .idle := by
        rw [hstand]
        exact Activity.noConfusion
      have hnext : s.moment.next.activity = .running f left' ⟨E.base, .ofExit v.exit⟩ := hactivity
      rcases Moment.activity_next hbusy with hidle | hsame
      · cases hidle.symm.trans hnext
      · rw [hnext, hstand] at hsame
        cases hsame
        exact absurd rfl hfg

/-- **What a stroke does to the fibers that take no step in it.** -/
theorem Orderly.play_others (h : Orderly σ b s) (stroke : Stroke) :
    ∃ σ', Advance σ b s σ' (s.book stroke b) (s.play stroke) ∧ ∀ f, s.stepper? stroke ≠ some f →
      σ' f = σ f ∧ ∀ start ≤ b.entries.length, (s.book stroke b).since f start = b.since f start := by
  cases hstep : s.stepper? stroke with
  | none =>
    rw [Scene.book_of_quiet hstep]
    exact ⟨σ, (h.quietly hstep).advance, fun _ _ => ⟨rfl, fun _ _ => rfl⟩⟩
  | some g =>
    obtain ⟨rfl, left, stand, hstand⟩ := Scene.of_stepper? hstep
    obtain ⟨σ', hadvance⟩ := h.step hstand
    refine ⟨σ', hadvance, fun f hf => ?_⟩
    have hfg : f ≠ g := fun hsame => hf (congrArg some hsame.symm)
    obtain ⟨sem, new, hadds, -⟩ := Scene.book_adds hstand b
    exact ⟨hadvance.of_other hstand hfg, fun start hstart => hadds.since_of_ne hfg hstart⟩

/-- A fiber that has a place goes on having one. -/
theorem Scene.Occurs.fits_play (h : s.Occurs) (hp : Fits f (s.moment.view f) p) (stroke : Stroke) :
    ∃ q, Fits f ((s.play stroke).moment.view f) q := by
  obtain ⟨es, htransitions⟩ := leadsTo_play h.timersQuiet stroke
  obtain ⟨q, -, hq⟩ := htransitions.fits hp
  exact ⟨q, hq⟩

/-- The guards of a fiber that takes no step stay as they are. -/
theorem Nested.still (h : Nested sem σ b s f stack) (hσ : Orderly σ b s) (hf : s.stepper? stroke ≠ some f)
    (hsame : σ' f = σ f)
    (hsince : ∀ start ≤ b.entries.length, (s.book stroke b).since f start = b.since f start) :
    Nested sem σ' (s.book stroke b) (s.play stroke) f stack := by
  cases h with
  | inside hother hstack =>
    refine .inside (fun E hE => hother E (hsame ▸ hE)) fun hne => ?_
    obtain ⟨p, run, hp, hrun, haround⟩ := hstack hne
    obtain ⟨q, hq⟩ := hσ.occurs.fits_play hp stroke
    exact ⟨q, run, hq, (hσ.occurs.stays hp hq hf).run run hrun, haround⟩
  | @acquiring G rest E hE hbase hsem hfiber hstage hholds haround =>
    obtain ⟨ask, ws, p, hat⟩ := hσ.engaged f E hE
    exact .acquiring (hsame.trans hE) hbase hsem hfiber hstage (by rwa [hsince _ hat.start]) haround
  | @passing G rest p stand hfree hp hready hfiber hstands haround =>
    obtain ⟨q, hq⟩ := hσ.occurs.fits_play hp stroke
    have hflagged (hflag : s.moment.world.flagged f = true) := hσ.occurs.flagged_play hflag stroke
    exact .passing (hsame.trans hfree) hq ((hσ.occurs.stays hp hq hf).ready stand hready) hfiber
      (hstands.mono hflagged) haround

/-! ## The guards of a run -/

/-- The guards of a scene, and what they have to do with the books. -/
structure Guarding (sem : SemaphoreId) (n : Nat) (σ : Engagements) (b : Books) (γ : List Guard) (s : Scene) : Prop where
  orderly : Orderly σ b s
  row : ∃ row, s.moment.world.semaphore? sem = some row ∧ Dealt n (b.of sem) row ∧ Balanced n (b.of sem) row
  /-- Whoever has taken a permit for good holds it or has released it. -/
  count : γ.countP (·.holds) + (b.of sem).countP Booking.isRelease = (b.of sem).countP Booking.isTaken
  nested : ∀ f, Nested sem σ b s f (γ.filter (·.fiber = f))

theorem Guarded.made {b : Books} {γ : List Guard} {s : Scene} (h : Guarded sem n b γ s) : Made sem n b s := by
  induction h with
  | make h stroke hnone hmade => exact .make h stroke hnone hmade
  | play _ stroke _ ih => exact ih.play stroke

/-- The semaphore stays balanced while no more permits are released than were taken. -/
theorem Advance.balanced (h : Advance σ b s σ' b' (s.play stroke)) (hn : n < wordLimit)
    (hrow : s.moment.world.semaphore? sem = some row) (hdealt : Dealt n (b.of sem) row)
    (hbalanced : Balanced n (b.of sem) row)
    (hreleases : (b'.of sem).countP Booking.isRelease ≤ (b'.of sem).countP Booking.isTaken) :
    ∃ row', (s.play stroke).moment.world.semaphore? sem = some row' ∧ Dealt n (b'.of sem) row' ∧
      Balanced n (b'.of sem) row' := by
  obtain ⟨new, row', hrow', hof, ⟨rfl, rfl⟩ | hdeal⟩ := h.deals sem row hrow
  · rw [hof, List.append_nil]
    exact ⟨row', hrow', hdealt, hbalanced⟩
  · have hdealt' : Dealt n (b'.of sem) row' := hof ▸ hdealt.deal hdeal
    have hgrants := h.orderly.books.grants_eq hdealt'
    have hwaiters := h.orderly.books.length_waiters_le hrow' hdealt'.line.line_nodup
    have hbacks := countP_comesBack (b'.of sem)
    refine ⟨row', hrow', hdealt', ?_⟩
    rw [hof] at hgrants hbacks hreleases ⊢
    exact hdeal.balanced hbalanced (by omega)

namespace Guard

theorem filter_onStack_self {change : List Guard → List Guard}
    (h : ∀ G ∈ change (γ.filter (·.fiber = f)), G.fiber = f) :
    (onStack f change γ).filter (·.fiber = f) = change (γ.filter (·.fiber = f)) := by
  have hmine : (change (γ.filter (·.fiber = f))).filter (·.fiber = f) = change (γ.filter (·.fiber = f)) :=
    List.filter_eq_self.2 fun G hG => decide_eq_true (h G hG)
  have hothers : (γ.filter (·.fiber ≠ f)).filter (·.fiber = f) = [] := by
    rw [List.filter_filter]
    exact List.filter_eq_nil_iff.2 fun G _ => by simp
  rw [onStack, List.filter_append, hmine, hothers, List.append_nil]

theorem filter_onStack_of_ne {change : List Guard → List Guard}
    (h : ∀ G ∈ change (γ.filter (·.fiber = f)), G.fiber = f) (hg : g ≠ f) :
    (onStack f change γ).filter (·.fiber = g) = γ.filter (·.fiber = g) := by
  have hmine : (change (γ.filter (·.fiber = f))).filter (·.fiber = g) = [] :=
    List.filter_eq_nil_iff.2 fun G hG => by
      rw [h G hG]
      simpa using hg.symm
  have hothers : (γ.filter (·.fiber ≠ f)).filter (·.fiber = g) = γ.filter (·.fiber = g) := by
    rw [List.filter_filter]
    refine List.filter_congr fun G _ => ?_
    by_cases hG : G.fiber = g
    · simp [hG, hg]
    · simp [hG]
  rw [onStack, List.filter_append, hmine, hothers, List.nil_append]

theorem countP_onStack (P : Guard → Bool) (change : List Guard → List Guard) :
    (onStack f change γ).countP P + (γ.filter (·.fiber = f)).countP P =
      (change (γ.filter (·.fiber = f))).countP P + γ.countP P := by
  have hsplit : γ.countP P = (γ.filter (·.fiber = f)).countP P + (γ.filter (·.fiber ≠ f)).countP P := by
    simpa using List.countP_eq_countP_filter_add γ P (·.fiber = f)
  rw [onStack, List.countP_append]
  omega

end Guard

theorem Scene.guards_of_quiet (h : s.stepper? stroke = none) : s.guards sem stroke b γ = γ := by
  obtain ⟨⟨w, a⟩, kept⟩ := s
  cases stroke with
  | next =>
    cases a with
    | running f left stand =>
      cases left with
      | zero => rfl
      | succ left => cases h
    | _ => rfl
  | _ => rfl

theorem Scene.guards_of_step (hstand : s.moment.activity = .running f (left + 1) stand) :
    s.guards sem .next b γ = Guard.onStack f (s.pass sem f stand b) γ := by
  unfold guards
  rw [hstand]

/-- A step that uses the semaphore belongs to the innermost effect. -/
theorem Scene.abides_of_step (hstand : s.moment.activity = .running f (left + 1) stand)
    (habides : s.abides sem γ = true) (htouches : stand.touches sem = true) :
    ∃ G rest, γ.filter (·.fiber = f) = G :: rest ∧ G.isInside = false := by
  rw [abides, hstand] at habides
  dsimp only at habides
  rw [htouches, Bool.not_true, Bool.false_or] at habides
  obtain ⟨G, hfind, hinside⟩ := (Option.any_eq_true _ _).1 habides
  rw [← List.head?_filter] at hfind
  obtain ⟨rest, hstack⟩ := List.head?_eq_some_iff.1 hfind
  exact ⟨G, rest, hstack, by simpa using hinside⟩

theorem Guarding.make (h : Recorded b s) (stroke : Stroke) (hnone : s.moment.world.semaphore? sem = none)
    (hmade : ((s.play stroke).moment.world.semaphore? sem).map Semaphore.permits = some n) :
    ∃ σ, Guarding sem n σ (s.book stroke b) [] (s.play stroke) := by
  obtain ⟨σ, hσ⟩ := h.orderly
  obtain ⟨σ', hadvance, hothers⟩ := hσ.play_others stroke
  obtain ⟨row, hrow, hpermits⟩ := Option.map_eq_some_iff.1 hmade
  have hempty : (s.book stroke b).of sem = [] := (hadvance.absent sem hnone).trans (hσ.books.unknown sem hnone)
  obtain ⟨n', hdealt⟩ := hadvance.orderly.books.dealt sem row hrow
  rw [hempty] at hdealt
  cases hdealt.of_nil
  cases hpermits
  -- An acquire of the semaphore can have begun neither before nor with the stroke that makes it.
  have hother (f : FiberId) (E : Engagement) (hE : σ' f = some E) : E.semaphore ≠ sem := by
    rintro rfl
    have hold (hE : σ f = some E) : False := by
      obtain ⟨ask, ws, p, hat⟩ := hσ.engaged f E hE
      have hthere := hat.there
      rw [hnone] at hthere
      cases hthere
    by_cases hstep : s.stepper? stroke = some f
    · obtain ⟨rfl, left, stand, hstand⟩ := Scene.of_stepper? hstep
      cases hf : σ f with
      | none =>
        obtain ⟨-, left', hbegan⟩ := hadvance.began f E hf hE
        obtain ⟨hmoment, -⟩ := Scene.play_of_goes hbegan b (.move rfl)
        rw [hmoment, hnone] at hrow
        cases hrow
      | some E' =>
        rcases hadvance.ended f E' hf with hsame | ⟨hgone, -⟩
        · cases hE.symm.trans hsame
          exact hold hf
        · cases hE.symm.trans hgone
    · exact hold ((hothers f hstep).1 ▸ hE)
  refine ⟨σ', hadvance.orderly, ⟨_, hrow, ?_⟩, by rw [hempty]; rfl, fun f => ?_⟩
  · rw [hempty]
    exact ⟨.made, rfl⟩
  · exact .inside (fun E hE => ⟨hother f E hE, .nil⟩) fun hne => absurd rfl hne

theorem Guarding.play (h : Guarding sem n σ b γ s) (hrecorded : Recorded b s) (hn : n < wordLimit) (stroke : Stroke)
    (habides : stroke = .next → s.abides sem γ = true) :
    ∃ σ', Guarding sem n σ' (s.book stroke b) (s.guards sem stroke b γ) (s.play stroke) := by
  obtain ⟨σ', hadvance, hothers⟩ := h.orderly.play_others stroke
  obtain ⟨row, hrow, hdealt, hbalanced⟩ := h.row
  cases hstep : s.stepper? stroke with
  | none =>
    have hbook : s.book stroke b = b := Scene.book_of_quiet hstep
    have hnested (f : FiberId) : Nested sem σ' (s.book stroke b) (s.play stroke) f (γ.filter (·.fiber = f)) := by
      have hf : s.stepper? stroke ≠ some f := fun hsame => nomatch hstep.symm.trans hsame
      exact (h.nested f).still h.orderly hf (hothers f hf).1 (hothers f hf).2
    have hcount := h.count
    rw [← hbook] at hcount
    rw [Scene.guards_of_quiet hstep]
    exact ⟨σ', hadvance.orderly, hadvance.balanced hn hrow hdealt hbalanced (by omega), hcount, hnested⟩
  | some f =>
    obtain ⟨rfl, left, stand, hstand⟩ := Scene.of_stepper? hstep
    have hsteps : Steps sem σ' b s f _ _ := (h.nested f).step hadvance hstand hrecorded h.orderly
      (Scene.abides_of_step hstand (habides rfl))
    have hmine (G : Guard) (hG : G ∈ s.pass sem f stand b (γ.filter (·.fiber = f))) : G.fiber = f := hsteps.nested.fiber hG
    have hnested (g : FiberId) : Nested sem σ' (s.book .next b) (s.play .next) g
        ((Guard.onStack f (s.pass sem f stand b) γ).filter (·.fiber = g)) := by
      by_cases hg : g = f
      · subst hg
        rw [Guard.filter_onStack_self hmine]
        exact hsteps.nested
      · have hquiet : s.stepper? .next ≠ some g := fun hsame => hg (Option.some.inj (hsame.symm.trans hstep))
        rw [Guard.filter_onStack_of_ne hmine hg]
        exact (h.nested g).still h.orderly hquiet (hothers g hquiet).1 (hothers g hquiet).2
    have hcount : (Guard.onStack f (s.pass sem f stand b) γ).countP (·.holds) +
        ((s.book .next b).of sem).countP Booking.isRelease = ((s.book .next b).of sem).countP Booking.isTaken := by
      have hstack := Guard.countP_onStack (γ := γ) (f := f) (·.holds) (s.pass sem f stand b)
      have hcount := h.count
      have hstepped := hsteps.count
      rw [(s.of_book hstand b sem).1, List.countP_append, List.countP_append]
      omega
    rw [Scene.guards_of_step hstand]
    exact ⟨σ', hadvance.orderly, hadvance.balanced hn hrow hdealt hbalanced (by omega), hcount, hnested⟩

theorem Guarded.guarding (h : Guarded sem n b γ s) (hn : n < wordLimit) : ∃ σ, Guarding sem n σ b γ s := by
  induction h with
  | make h stroke hnone hmade => exact Guarding.make h stroke hnone hmade
  | play h stroke habides ih =>
    obtain ⟨σ, hguarding⟩ := ih
    exact hguarding.play h.made.recorded hn stroke habides

/-! ## Where the fibers are -/

/-- A fiber is ready to go on from one stand at a time. -/
theorem Fits.ready_unique {v : View} (hp : Fits f v p) (hq : Fits f v q) (h : p.standing = .ready stand) :
    q.standing = .ready stand := by
  have hheld := hp.held
  rw [h] at hheld
  have hheld' := hq.held
  generalize v.tokens = tokens at hheld hheld'
  generalize v.activity = a at hheld hheld'
  cases hheld with
  | queued => exact hheld'.of_resume.1
  | running => exact hheld'.of_running.1

/-- A fiber in an acquire is on top of the run on which that is evaluated. -/
theorem Engagement.Acquiring.within {done : DeferredId → Prop} {ask : Ask} {ws : List (Nat × Callback)}
    (h : E.Acquiring f done ask ws p) : ∃ run, p.standing.run? = some run ∧ E.base.Within run := by
  have hinner (t : Option DeferredId) : E.base.Within (E.inner t) := .fold (.chain .refl _) _ _
  cases h with
  | ready hp hstands => exact ⟨_, by rw [hp]; rfl, hstands.within⟩
  | registering hp | answered _ hp | returned hp | parked hp | unwinding _ _ hp =>
    exact ⟨_, by rw [hp]; rfl, hinner _⟩

/-- The fiber of an effect stands where the effect has ended with an exit. -/
def Guard.Ends (G : Guard) (x : Exit Value Value) (s : Scene) : Prop :=
  ∃ p, Fits G.fiber (s.moment.view G.fiber) p ∧ p.standing = .ready ⟨G.base, .ofExit x⟩

namespace Nested

/-- A body that is in progress runs with a permit, on top of its effect. -/
theorem of_inside (h : Nested sem σ b s f stack) (hσ : Orderly σ b s) (hG : G ∈ stack) (hinside : G.isInside = true) :
    G.holds = true ∧ ∃ p run, Fits f (s.moment.view f) p ∧ p.standing.run? = some run ∧ (G.inner sem).Within run := by
  cases h with
  | inside hother hstack =>
    obtain ⟨p, run, hp, hrun, haround⟩ := hstack (List.ne_nil_of_mem hG)
    obtain ⟨-, -, hholds, hin⟩ := haround.of_mem hG
    exact ⟨hholds, p, run, hp, hrun, hin⟩
  | @acquiring G' rest E hE hbase hsem hfiber hstage hholds haround =>
    rcases List.mem_cons.1 hG with rfl | hrest
    · rw [Guard.isInside, hstage] at hinside
      cases hinside
    · obtain ⟨-, -, hholds', hin⟩ := haround.of_mem hrest
      obtain ⟨ask, ws, p, hat⟩ := hσ.engaged f E hE
      obtain ⟨run, hrun, hwithin⟩ := hat.acquiring.within
      have hwaiting : G'.base.Within E.base := hbase ▸ .chain .refl _
      exact ⟨hholds', p, run, hat.fits, hrun, hin.trans (hwaiting.trans hwithin)⟩
  | @passing G' rest p stand hfree hp hready hfiber hstands haround =>
    rcases List.mem_cons.1 hG with rfl | hrest
    · cases hinside.symm.trans hstands.not_inside
    · obtain ⟨-, -, hholds', hin⟩ := haround.of_mem hrest
      exact ⟨hholds', p, stand.run, hp, by rw [hready]; rfl, hin.trans hstands.within⟩

/-- An effect that has ended is the innermost one, and its permit was returned. -/
theorem of_ends (h : Nested sem σ b s f stack) (hσ : Orderly σ b s) (hG : G ∈ stack) (hends : G.Ends x s) :
    σ f = none ∧ G.Owes (s.moment.world.flagged f) x ∧ G.holds = false := by
  obtain ⟨q, hq, hready⟩ := hends
  rw [h.fiber hG] at hq
  have hnot {p : Place} {run run' : Run} (hp : Fits f (s.moment.view f) p) (hrun : p.standing.run? = some run)
      (hwithin : run'.Within run) (hlt : G.base.frames.length < run'.frames.length) : False := by
    rw [hq.ready_unique hp hready] at hrun
    cases hrun
    exact Nat.not_le_of_lt hlt hwithin.length_le
  have hinner : G.base.frames.length < (G.inner sem).frames.length := Nat.lt_add_of_pos_right (Nat.succ_pos 1)
  by_cases hinside : G.isInside = true
  · obtain ⟨-, p, run, hp, hrun, hin⟩ := h.of_inside hσ hG hinside
    exact (hnot hp hrun hin hinner).elim
  · cases h with
    | inside hother hstack =>
      obtain ⟨p, run, hp, hrun, haround⟩ := hstack (List.ne_nil_of_mem hG)
      exact absurd (haround.of_mem hG).2.1 hinside
    | acquiring hE hbase hsem hfiber hstage hholds haround =>
      rcases List.mem_cons.1 hG with rfl | hrest
      · obtain ⟨ask, ws, p, hat⟩ := hσ.engaged f _ hE
        obtain ⟨run, hrun, hwithin⟩ := hat.acquiring.within
        exact (hnot hat.fits hrun hwithin (hbase ▸ Nat.lt_succ_self _)).elim
      · exact absurd (haround.of_mem hrest).2.1 hinside
    | @passing G' rest p stand hfree hp hready' hfiber hstands haround =>
      rcases List.mem_cons.1 hG with rfl | hrest
      · cases hready'.symm.trans (hq.ready_unique hp hready)
        obtain ⟨howes, hholds⟩ := hstands.of_out
        exact ⟨hfree, howes, hholds⟩
      · exact absurd (haround.of_mem hrest).2.1 hinside

end Nested

/-- Nobody asks for a permit when every effect that uses the semaphore has ended. -/
theorem Guarding.unclaimed (h : Guarding sem n σ b γ s) (hends : ∀ G ∈ γ, ∃ x, G.Ends x s) :
    b.claims.countP (·.semaphore = sem) = 0 := by
  refine List.countP_eq_zero.2 fun c hc hsem => ?_
  obtain ⟨E, hE⟩ := Option.ne_none_iff_exists'.1 (h.orderly.books.engaged c hc)
  obtain ⟨ask, ws, p, hat⟩ := h.orderly.engaged c.fiber E hE
  have hclaim : c.semaphore = E.semaphore :=
    Ask.semaphore_of_claim? (hat.claim.symm.trans (h.orderly.books.claim?_of_mem hc))
  have hsame : E.semaphore = sem := hclaim.symm.trans (of_decide_eq_true hsem)
  have hnested := h.nested c.fiber
  generalize hstack : γ.filter (·.fiber = c.fiber) = stack at hnested
  cases hnested with
  | inside hother => exact (hother E hE).1 hsame
  | @acquiring G rest =>
    have hG : G ∈ γ := (List.mem_filter.1 (hstack ▸ List.mem_cons_self)).1
    obtain ⟨x, hx⟩ := hends G hG
    obtain ⟨hfree, -⟩ := (h.nested c.fiber).of_ends h.orderly (hstack ▸ List.mem_cons_self) hx
    cases hfree.symm.trans hE
  | passing hfree => cases hfree.symm.trans hE

/-! ## All together -/

/-- How a semaphore that was made with some permits bounds the effects that run with a permit of it. -/
structure Exclusive (sem : SemaphoreId) (n : Nat) (γ : List Guard) (s : Scene) (row : Semaphore) : Prop where
  /-- At most so many bodies are in progress. -/
  bodies : γ.countP Guard.isInside ≤ n
  /-- A body that is in progress runs with a permit, on top of its effect. -/
  inside : ∀ G ∈ γ, G.isInside = true → G.holds = true ∧
    ∃ p run, Fits G.fiber (s.moment.view G.fiber) p ∧ p.standing.run? = some run ∧ (G.inner sem).Within run
  /-- When every effect has ended, all the permits are free. -/
  free : (∀ G ∈ γ, ∃ x, G.Ends x s) → row.permits = n ∧ row.waiters = []
  /-- An effect that ends has returned its permit, and it ends with the exit of its body or, if the body has not begun,
  with the interruption that was requested. -/
  ends : ∀ G ∈ γ, ∀ x, G.Ends x s → G.holds = false ∧
    (G.stage = .after x ∨ G.stage = .before ∧ x = .interrupted ∧ s.moment.world.flagged G.fiber = true)

/-- **A semaphore that is used only to run bodies with a permit is a counting mutual exclusion.** -/
theorem Guarded.exclusive (h : Guarded sem n b γ s) (hn : n < wordLimit) :
    ∃ row, s.moment.world.semaphore? sem = some row ∧ Exclusive sem n γ s row := by
  obtain ⟨σ, hσ⟩ := h.guarding hn
  obtain ⟨row, hrow, hdealt, hbalanced⟩ := hσ.row
  have hmem {G : Guard} (hG : G ∈ γ) : G ∈ γ.filter (·.fiber = G.fiber) := List.mem_filter.2 ⟨hG, decide_eq_true rfl⟩
  have hcount := hσ.count
  have hgrants := hσ.orderly.books.grants_eq hdealt
  have hwaiters := hσ.orderly.books.length_waiters_le hrow hdealt.line.line_nodup
  have hbacks := countP_comesBack (b.of sem)
  have hpermits : row.permits + (b.of sem).countP Booking.isGrant = n + (b.of sem).countP Booking.comesBack := hbalanced
  refine ⟨row, hrow, {
    bodies := ?_
    inside := fun G hG => (hσ.nested G.fiber).of_inside hσ.orderly (hmem hG)
    free := fun hends => ?_
    ends := fun G hG x hends => ?_ }⟩
  · have hholds : γ.countP Guard.isInside ≤ γ.countP (·.holds) :=
      List.countP_mono_left fun G hG hinside => ((hσ.nested G.fiber).of_inside hσ.orderly (hmem hG) hinside).1
    omega
  · have hclaims := hσ.unclaimed hends
    have hholds : γ.countP (·.holds) = 0 := List.countP_eq_zero.2 fun G hG => by
      obtain ⟨x, hx⟩ := hends G hG
      simp [((hσ.nested G.fiber).of_ends hσ.orderly (hmem hG) hx).2.2]
    have hline : row.waiters.length = 0 := by omega
    exact ⟨by omega, List.eq_nil_of_length_eq_zero hline⟩
  · obtain ⟨-, howes, hholds⟩ := (hσ.nested G.fiber).of_ends hσ.orderly (hmem hG) hends
    exact ⟨hholds, howes⟩

/-- Two fibers run a body without end with the only permit of a semaphore. -/
def sharers : List Stroke :=
  [.demand (.scenario (.run "a" (.withPermit (.var "s") .never) false)),
    .demand (.scenario (.run "b" (.withPermit (.var "s") .never) false))] ++ List.replicate 44 .next

/-- One of them is in its body, and the other one waits. -/
theorem Guarded.exclusive_of_sharers :
    (contested.guardsAfter ⟨0⟩ sharers {} []).map (fun G => (G.fiber, G.isInside)) = [(⟨1⟩, false), (⟨0⟩, true)] ∧
      Exclusive ⟨0⟩ 1 (contested.guardsAfter ⟨0⟩ sharers {} []) (contested.after sharers) ⟨0, [⟨0⟩]⟩ := by
  have hmade : Guarded ⟨0⟩ 1 {} [] contested :=
    .make (.initial {} []) (.demand (.scenario (.newSemaphore "s" 1))) rfl rfl
  have habides : contested.abidesBy ⟨0⟩ sharers {} [] = true := by decide +kernel
  have hrow : (contested.after sharers).moment.world.semaphore? ⟨0⟩ = some ⟨0, [⟨0⟩]⟩ := rfl
  obtain ⟨row, hrow', hexclusive⟩ := Guarded.exclusive (hmade.after sharers habides) (by decide : 1 < wordLimit)
  cases hrow.symm.trans hrow'
  exact ⟨by decide +kernel, hexclusive⟩

end FiberLoop
