import FiberLoop.Proofs.Loop.Passing

/-!
# The order in which a loop works

Every run of the system writes a journal for each of its two loops (`Scene.journal`). Tasks may throw, callers from
outside may ask for anything at any moment, and the clock may be set to any time.

`Scene.ordered` is the main result. Messages are taken in the order in which they were posted; a timer runs once at
most, not before its deadline, not after it was cancelled, and not before another one with an earlier deadline that
was received too; no message is taken while a timer that was due at the beginning of the pass is left. A loop that
goes on takes every message up to the one that stops it, and none after that.
-/

namespace FiberLoop

/-! ## What happens in a stroke -/

/-- What happens at a loop in a stroke. -/
def Scene.happenings (name : LoopName) (s : Scene) (stroke : Stroke) : Journal :=
  let w := s.moment.world
  match s.moment.activity, stroke with
  | .idle, .next =>
    if name = w.here ∧ w.loop.stopped = false then w.firingDue name ++ w.fireDue.taking name w.clock
    else w.noted name (s.play .next).moment.world
  | .idle, .fire =>
    if name = w.here ∧ w.loop.stopped = false then w.firingDue name
    else w.noted name (s.play .fire).moment.world
  | _, stroke => w.noted name (s.play stroke).moment.world

/-- What happens at a loop in some strokes. -/
def Scene.journal (name : LoopName) (s : Scene) : List Stroke → Journal
  | [] => []
  | stroke :: rest => s.happenings name stroke ++ (s.play stroke).journal name rest

/-- The ways in which something happens at a loop. -/
inductive World.Happens (name : LoopName) (w : World) : Moment → Journal → Prop where
  | noted {m : Moment} (h : w.PostsAt name m.world) : Happens name w m (w.noted name m.world)
  | fired (hname : name = w.here) (hstopped : w.loop.stopped = false) :
    Happens name w ⟨w.fireDue, .idle⟩ (w.firingDue name)
  | took (hname : name = w.here) (hstopped : w.loop.stopped = false) {message : Message} {rest : List Message}
    (hinbox : w.fireDue.loop.inbox = message :: rest) :
    Happens name w (w.fireDue.dropMessage.takeUp message) (w.firingDue name ++ w.fireDue.taking name w.clock)

section

variable {name : LoopName} {w : World} {s : Scene} {j : Journal} {t : Timer} {now : Nat} {message : Message}

namespace World.PostsAt

/-- To the other loop the timers only post messages. -/
theorem fireDue (hquiet : w.TimersQuiet) (hname : name ≠ w.here) : w.PostsAt name w.fireDue := by
  have haside : w.loopAt name = w.takeDue.loopAt name := by
    rw [World.loopAt, World.loopAt, if_neg hname]
    exact (if_neg hname).symm
  have hlater : w.PostsAt name w.takeDue := ⟨haside ▸ .refl _, fun _ => id⟩
  exact hlater.trans (of_posts (.fireDue hquiet) name)

theorem takeNext (hname : name ≠ w.here) : w.PostsAt name w.takeNext.world := by
  unfold World.takeNext
  cases w.loop.inbox with
  | nil => exact refl name w
  | cons message rest =>
    have haside : w.loopAt name = (w.dropMessage.accept message).loopAt name := by
      rw [World.loopAt, if_neg hname]
      cases message with
      | _ => exact (if_neg hname).symm
    have haccept : w.PostsAt name (w.dropMessage.accept message) := by
      refine ⟨haside ▸ .refl _, fun timer h => ?_⟩
      cases message with
      | _ => exact h
    exact haccept.trans (of_posts (.takeUp message _) name)

end World.PostsAt

/-! ## In the middle of a task -/

theorem Scene.happenings_of_busy (hbusy : s.moment.activity ≠ .idle) {stroke : Stroke} :
    s.happenings name stroke = s.moment.world.noted name (s.play stroke).moment.world := by
  obtain ⟨⟨w, a⟩, kept⟩ := s
  cases a with
  | idle => exact absurd rfl hbusy
  | _ => rfl

/-- Nothing but messages comes to a loop, whoever is in the middle of a task. -/
theorem Scene.posts_of_busy (hbusy : s.moment.activity ≠ .idle) (stroke : Stroke) :
    s.moment.world.Posts (s.play stroke).moment.world := by
  cases stroke with
  | next => exact .next hbusy
  | demand d => exact .demand s d
  | _ =>
    obtain ⟨⟨w, a⟩, kept⟩ := s
    cases a with
    | idle => exact absurd rfl hbusy
    | _ => exact .refl w

/-! ## The three kinds of strokes -/

/-- **Everything that happens at a loop is a note, or timers run there, or a message is taken.** -/
theorem Scene.happens (hquiet : s.moment.world.TimersQuiet) (stroke : Stroke) :
    s.moment.world.Happens name (s.play stroke).moment (s.happenings name stroke) := by
  by_cases hbusy : s.moment.activity = .idle
  · obtain ⟨⟨w, a⟩, kept⟩ := s
    cases hbusy
    have hsame : w.PostsAt name w := .refl name w
    cases stroke with
    | next =>
      simp only [happenings]
      split
      · rename_i hruns
        have hplay : (Scene.play ⟨⟨w, .idle⟩, kept⟩ .next).moment = w.fireDue.takeNext := by
          simp only [play, Moment.next, hruns.2, Bool.false_eq_true, if_false]
        rw [hplay, World.takeNext]
        cases hinbox : w.fireDue.loop.inbox with
        | nil =>
          rw [World.taking, hinbox, List.append_nil]
          exact .fired hruns.1 hruns.2
        | cons message rest => exact .took hruns.1 hruns.2 hinbox
      · rename_i hruns
        refine .noted ?_
        simp only [play, Moment.next]
        split
        · exact hsame
        · rename_i hstopped
          have hname : name ≠ w.here := fun he => hruns ⟨he, Bool.eq_false_iff.2 hstopped⟩
          have hhere : w.fireDue.here = w.here := (World.Extends.fireDue hquiet).here
          exact (World.PostsAt.fireDue hquiet hname).trans (.takeNext (hhere ▸ hname))
    | fire =>
      simp only [happenings]
      split
      · rename_i hruns
        have hplay : (Scene.play ⟨⟨w, .idle⟩, kept⟩ .fire).moment = ⟨w.fireDue, .idle⟩ := by
          simp only [play, between, hruns.2, Bool.false_eq_true, if_false]
        rw [hplay]
        exact .fired hruns.1 hruns.2
      · rename_i hruns
        refine .noted ?_
        simp only [play, between]
        split
        · exact hsame
        · rename_i hstopped
          exact .fireDue hquiet fun he => hruns ⟨he, Bool.eq_false_iff.2 hstopped⟩
    | switch =>
      refine .noted ⟨?_, fun _ => id⟩
      rw [show (Scene.play ⟨⟨w, .idle⟩, kept⟩ .switch).moment.world = w.switch from rfl, World.loopAt_switch]
      exact .refl _
    | clock time => exact .noted ⟨.refl _, fun _ => id⟩
    | demand d => exact .noted (.of_posts (.demand _ d) name)
  · rw [happenings_of_busy hbusy]
    exact .noted (.of_posts (posts_of_busy hbusy stroke) name)

namespace Journal.Accords

/-- **A stroke keeps the loop in accord with its journal.** -/
theorem play (h : Accords name j [] s.moment.world) (hquiet : s.moment.world.TimersQuiet) (stroke : Stroke) :
    Accords name (j ++ s.happenings name stroke) [] (s.play stroke).moment.world := by
  have hhappens : s.moment.world.Happens name (s.play stroke).moment (s.happenings name stroke) :=
    s.happens hquiet stroke
  generalize s.happenings name stroke = i, (s.play stroke).moment = m at hhappens ⊢
  generalize s.moment.world = w at *
  cases hhappens with
  | noted hposts => exact h.note hposts
  | fired hname hstopped =>
    subst hname
    exact h.fireDue hquiet hstopped
  | took hname hstopped hinbox =>
    subst hname
    have hfires := World.Posts.fireDue hquiet
    have hhere : w.fireDue.here = w.here := hfires.here
    have hfired := h.fireDue hquiet hstopped
    rw [← List.append_assoc]
    rw [← hhere] at hfired ⊢
    refine hfired.take (hfires.loop.stopped.trans hstopped) hinbox fun t ht => ?_
    rw [hfires.loop.timers] at ht
    have hsorted := h.sorted
    rw [World.loopAt_here] at hsorted
    exact Timer.lt_of_mem_dropWhile hsorted ht

theorem after (hs : s.Occurs) (h : Accords name j [] s.moment.world) (strokes : List Stroke) :
    Accords name (j ++ s.journal name strokes) [] (s.after strokes).moment.world := by
  induction strokes generalizing s j with
  | nil =>
    rw [Scene.journal, List.append_nil]
    exact h
  | cons stroke rest ih =>
    rw [Scene.journal, ← List.append_assoc]
    exact ih (hs.after [stroke]) (h.play hs.timersQuiet stroke)

/-- What was in the inbox and was not taken is there, and more may follow. -/
theorem inbox_of_taken {i : Journal} {w' : World} {first rest : List Message} (h : Accords name j [] w)
    (h' : Accords name (j ++ i) [] w') (htaken : i.taken = first) (hinbox : (w.loopAt name).inbox = first ++ rest) :
    ∃ more, (w'.loopAt name).inbox = rest ++ more := by
  have hposted := h'.posted
  rw [posted_append, h.posted, hinbox, taken_append, htaken, List.append_assoc, List.append_assoc, List.append_assoc,
    List.append_right_inj, List.append_right_inj] at hposted
  exact ⟨i.posted, hposted.symm⟩

theorem running_of_taken {i : Journal} {w' : World} (h : Accords name j [] w) (h' : Accords name (j ++ i) [] w')
    (hrunning : (w.loopAt name).stopped = false) (htaken : .shutdown ∉ i.taken) :
    (w'.loopAt name).stopped = false := by
  rw [← Bool.not_eq_true, h'.stopped, taken_append, List.mem_append, ← h.stopped, hrunning]
  exact not_or.2 ⟨Bool.false_ne_true, htaken⟩

end Journal.Accords

/-! ## What the journal says is so -/

theorem World.not_took_noted {w' : World} : .took message now ∉ w.noted name w' := fun hmem => by
  have htaken : message ∈ (w.noted name w').taken := List.mem_filterMap.2 ⟨_, hmem, rfl⟩
  rw [World.taken_noted] at htaken
  cases htaken

theorem World.not_ran_noted {w' : World} : .ran t now ∉ w.noted name w' := fun hmem => by
  have hgone : t ∈ (w.noted name w').gone := List.mem_filterMap.2 ⟨_, hmem, rfl⟩
  rw [World.gone_noted] at hgone
  cases hgone

theorem World.taken_firing (name : LoopName) (now : Nat) (due : List Timer) (w : World) :
    (w.firing name now due).taken = [] := by
  induction due generalizing w with
  | nil => rfl
  | cons t rest ih =>
    have hfirst : LoopEvent.taken? (if w.isCancelled t.timer then .dropped t else .ran t now) = none := by
      split <;> rfl
    rw [World.firing, List.cons_append, Journal.taken, List.filterMap_cons_none hfirst]
    exact (Journal.taken_append ..).trans (by rw [World.taken_noted, ih, List.append_nil])

/-- A timer that ran was not cancelled when its turn came. -/
theorem World.uncancelled_of_firing {clock : Nat} {due : List Timer} (h : .ran t now ∈ w.firing name clock due) :
    now = clock ∧
      ∃ before later, due = before ++ t :: later ∧ (before.foldl World.fire w).isCancelled t.timer = false := by
  induction due generalizing w with
  | nil => cases h
  | cons u rest ih =>
    rw [World.firing, List.cons_append] at h
    rcases List.mem_cons.1 h with hfirst | hlater
    · split at hfirst
      · cases hfirst
      · rename_i hflag
        cases hfirst
        exact ⟨rfl, [], rest, rfl, Bool.eq_false_iff.2 hflag⟩
    · obtain ⟨hnow, before, later, rfl, hflag⟩ :=
        ih ((List.mem_append.1 hlater).resolve_left World.not_ran_noted)
      exact ⟨hnow, u :: before, later, rfl, hflag⟩

namespace World.Happens

variable {m : Moment} {i : Journal}

/-- A message that was taken is what the loop begins with. -/
theorem takes (h : w.Happens name m i) (hmem : .took message now ∈ i) :
    now = w.clock ∧ ∃ v : World, m = v.takeUp message := by
  have hfiring : .took message now ∉ w.firingDue name := fun hmem => by
    have htaken : message ∈ (w.firingDue name).taken := List.mem_filterMap.2 ⟨_, hmem, rfl⟩
    rw [firingDue, taken_firing] at htaken
    cases htaken
  cases h with
  | noted hposts => exact absurd hmem not_took_noted
  | fired hname hstopped => exact absurd hmem hfiring
  | took hname hstopped hinbox =>
    have htaking := (List.mem_append.1 hmem).resolve_left hfiring
    rw [taking, hinbox] at htaking
    rcases List.mem_cons.1 htaking with hfirst | hnoted
    · cases hfirst
      exact ⟨rfl, _, rfl⟩
    · exact absurd hnoted not_took_noted

/-- A timer that ran did so in its turn among those that were due. -/
theorem runs (h : w.Happens name m i) (hmem : .ran t now ∈ i) :
    now = w.clock ∧ ∃ (v : World) (later : List Timer), v.isCancelled t.timer = false ∧
      w.fireDue = later.foldl World.fire (v.runTask t.task) := by
  have hfires (hfiring : .ran t now ∈ w.firingDue name) : now = w.clock ∧ ∃ (v : World) (later : List Timer),
      v.isCancelled t.timer = false ∧ w.fireDue = later.foldl World.fire (v.runTask t.task) := by
    obtain ⟨hnow, before, later, hdue, hflag⟩ := uncancelled_of_firing hfiring
    refine ⟨hnow, before.foldl World.fire w.takeDue, later, hflag, ?_⟩
    have hfire : (before.foldl World.fire w.takeDue).fire t =
        (before.foldl World.fire w.takeDue).runTask t.task := by
      rw [fire, hflag]
      rfl
    rw [← hfire, ← List.foldl_cons, ← List.foldl_append, ← hdue]
    rfl
  cases h with
  | noted hposts => exact absurd hmem not_ran_noted
  | fired hname hstopped => exact hfires hmem
  | took hname hstopped hinbox =>
    refine hfires ((List.mem_append.1 hmem).resolve_right fun htaking => ?_)
    rw [taking, hinbox] at htaking
    rcases List.mem_cons.1 htaking with hfirst | hnoted
    · cases hfirst
    · exact not_ran_noted hnoted

end World.Happens

/-! ## The loop goes on -/

/-- The loop takes its first message, or it comes closer to the end of what it is in the middle of. -/
theorem Scene.takes_next (hquiet : s.moment.world.TimersQuiet) (hrunning : s.moment.world.loop.stopped = false)
    {rest : List Message} (hinbox : s.moment.world.loop.inbox = message :: rest) :
    (s.play .next).moment.world.here = s.moment.world.here ∧
      ((s.happenings s.moment.world.here .next).taken = [message] ∨
        (s.happenings s.moment.world.here .next).taken = [] ∧
          (s.play .next).moment.activity.rank < s.moment.activity.rank) := by
  obtain ⟨⟨w, a⟩, kept⟩ := s
  dsimp only at hquiet hrunning hinbox
  by_cases hbusy : a = .idle
  · subst hbusy
    have hextends := World.Extends.fireDue hquiet
    obtain ⟨more, hmore⟩ := hextends.loop.inbox
    have hfirst : w.fireDue.loop.inbox = message :: (rest ++ more) := by
      rw [← hmore, hinbox]
      rfl
    have hplay : (Scene.play ⟨⟨w, .idle⟩, kept⟩ .next).moment = w.fireDue.dropMessage.takeUp message := by
      simp only [play, Moment.next, hrunning, Bool.false_eq_true, if_false, World.takeNext, hfirst]
    constructor
    · rw [hplay]
      exact (World.Extends.takeUp message w.fireDue.dropMessage).here.trans hextends.here
    · refine Or.inl ?_
      simp only [happenings, hrunning, and_self, if_true, World.taking, hfirst]
      rw [Journal.taken_append, World.firingDue, World.taken_firing, List.nil_append]
      exact congrArg (message :: ·) World.taken_noted
  · refine ⟨(Scene.posts_of_busy (s := ⟨⟨w, a⟩, kept⟩) hbusy .next).here, Or.inr ⟨?_, Moment.rank_next hbusy⟩⟩
    rw [happenings_of_busy hbusy]
    exact World.taken_noted

/-- **A loop that goes on takes every message that no request to stop is ahead of.** -/
theorem Journal.Accords.comes {s : Scene} {j : Journal} {before after : List Message} (hs : s.Occurs)
    (hname : name = s.moment.world.here) (h : Accords name j [] s.moment.world)
    (hrunning : s.moment.world.loop.stopped = false)
    (hinbox : s.moment.world.loop.inbox = before ++ message :: after) (hbefore : .shutdown ∉ before) :
    ∃ n, (j ++ s.journal name (List.replicate n .next)).taken = j.taken ++ (before ++ [message]) := by
  have hquiet := hs.timersQuiet
  have hnext := h.play hquiet .next
  have hloop : s.moment.world.loopAt name = s.moment.world.loop := hname ▸ World.loopAt_here _
  -- whatever the loop takes now is taken from what is ahead of the message
  have hgoes {first rest : List Message} (htaken : (s.happenings name .next).taken = first)
      (hhere : (s.play .next).moment.world.here = s.moment.world.here) (hsplit : before = first ++ rest)
      (hless : rest.length < before.length ∨
        rest.length = before.length ∧ (s.play .next).moment.activity.rank < s.moment.activity.rank) :
      ∃ n, (j ++ s.journal name (List.replicate n .next)).taken = j.taken ++ (before ++ [message]) := by
    rw [hsplit] at hbefore
    have hfirst : .shutdown ∉ first := fun hmem => hbefore (List.mem_append_left _ hmem)
    rw [← hloop] at hrunning hinbox
    rw [hsplit, List.append_assoc] at hinbox
    obtain ⟨more, hmore⟩ := h.inbox_of_taken hnext htaken hinbox
    have hstill := h.running_of_taken hnext hrunning (htaken ▸ hfirst)
    have hname' : name = (s.play .next).moment.world.here := hname.trans hhere.symm
    have hloop' : (s.play .next).moment.world.loopAt name = (s.play .next).moment.world.loop :=
      hname' ▸ World.loopAt_here _
    rw [hloop'] at hmore hstill
    rw [List.append_assoc, List.cons_append] at hmore
    obtain ⟨n, hn⟩ := Accords.comes (s := s.play .next) (hs.after [.next]) hname' hnext hstill hmore
      fun hmem => hbefore (List.mem_append_right _ hmem)
    refine ⟨n + 1, ?_⟩
    rw [List.replicate_succ, Scene.journal, ← List.append_assoc, hn, taken_append, htaken, hsplit, List.append_assoc,
      List.append_assoc]
  subst hname
  cases before with
  | nil =>
    obtain ⟨hhere, hfirst | ⟨hnone, hrank⟩⟩ := Scene.takes_next hquiet hrunning hinbox
    · refine ⟨1, ?_⟩
      rw [List.replicate_one, Scene.journal, Scene.journal, List.append_nil, taken_append, hfirst]
      rfl
    · exact hgoes hnone hhere rfl (Or.inr ⟨rfl, hrank⟩)
  | cons message' rest =>
    obtain ⟨hhere, hfirst | ⟨hnone, hrank⟩⟩ := Scene.takes_next hquiet hrunning hinbox
    · exact hgoes hfirst hhere rfl (Or.inl (Nat.lt_succ_self _))
    · exact hgoes hnone hhere rfl (Or.inr ⟨rfl, hrank⟩)
termination_by (before.length, s.moment.activity.rank)
decreasing_by
  rcases hless with hless | ⟨hsame, hless⟩
  · exact Prod.Lex.left _ _ hless
  · rw [hsame]
    exact Prod.Lex.right _ hless

/-! ## The main result -/

/-- The order in which a loop works, as its journal has it. -/
structure Ordered (name : LoopName) (j : Journal) (s : Scene) : Prop where
  /-- Messages are taken in the order in which they were posted; the others are still in the inbox. -/
  fifo : j.posted = j.taken ++ (s.moment.world.loopAt name).inbox
  /-- What is taken in a stroke is what the loop begins with. -/
  takes : ∀ stroke message now, .took message now ∈ s.happenings name stroke →
    now = s.moment.world.clock ∧ ∃ v : World, (s.play stroke).moment = v.takeUp message
  /-- A loop that goes on takes every message that no request to stop is ahead of, whatever the others do. -/
  comes : name = s.moment.world.here → s.moment.world.loop.stopped = false → ∀ before message after,
    s.moment.world.loop.inbox = before ++ message :: after → .shutdown ∉ before →
      ∃ n, (j ++ s.journal name (List.replicate n .next)).taken = j.taken ++ (before ++ [message])
  /-- A message is taken only while no request to stop was taken and every timer is gone that was received and was due
  when the pass began. -/
  taken : ∀ (before : Journal) message now after, j = before ++ .took message now :: after →
    .shutdown ∉ before.taken ∧
      ∀ t ∈ before.received, t.deadline ≤ now → t ∈ before.ran ∨ t.timer ∈ before.cancelled
  /-- A timer that runs in a stroke does so in its turn among those that are due, and is not cancelled then. -/
  runs : ∀ stroke t now, .ran t now ∈ s.happenings name stroke →
    now = s.moment.world.clock ∧ ∃ (v : World) (later : List Timer), v.isCancelled t.timer = false ∧
      s.moment.world.fireDue = later.foldl World.fire (v.runTask t.task)
  once : j.ran.Nodup
  /-- A timer runs only after it was received, when it is due and was not cancelled, and while no request to stop was
  taken; those that were received too and go before it are gone. -/
  ran : ∀ (before : Journal) t now after, j = before ++ .ran t now :: after →
    .shutdown ∉ before.taken ∧ t ∈ before.received ∧ t.deadline ≤ now ∧ t.timer ∉ before.cancelled ∧
      ∀ u ∈ before.received, u.before t = true → u ∈ before.ran ∨ u.timer ∈ before.cancelled
  /-- The other timers that were received are held by the loop, but for some that were cancelled. -/
  held : (j.gone ++ (s.moment.world.loopAt name).timers).Perm j.received ∧
    ∀ t ∈ j.gone, t ∈ j.ran ∨ t.timer ∈ j.cancelled
  cancelled : ∀ timer, timer ∈ j.cancelled ↔ s.moment.world.isCancelled timer = true

theorem Journal.ran_sublist_gone (j : Journal) : j.ran.Sublist j.gone := by
  induction j with
  | nil => exact .slnil
  | cons e rest ih =>
    cases e with
    | ran t now => exact ih.cons_cons t
    | dropped t => exact ih.cons t
    | _ => exact ih

theorem Journal.Accords.keeps_order (hs : s.Occurs) (h : Accords name j [] s.moment.world) : Ordered name j s where
  fifo := h.posted
  takes stroke message now hmem := (s.happens hs.timersQuiet stroke).takes hmem
  comes hname hrunning before message after hinbox hbefore := h.comes hs hname hrunning hinbox hbefore
  taken before message now after hsplit := by
    obtain ⟨hrunning, hgone⟩ := h.lawful before _ after hsplit
    have hbefore : before.Lawful := (hsplit ▸ h.lawful).of_append
    exact ⟨hrunning, fun t ht hdue => hbefore.ran_or_cancelled (hgone t ht hdue)⟩
  runs stroke t now hmem := (s.happens hs.timersQuiet stroke).runs hmem
  once := by
    have hnodup := h.held.nodup_iff.2 j.nodup_received
    exact j.ran_sublist_gone.nodup (List.nodup_append.1 hnodup).1
  ran before t now after hsplit := by
    obtain ⟨hrunning, hreceived, -, hdue, hflag, hgone⟩ := h.lawful before _ after hsplit
    have hbefore : before.Lawful := (hsplit ▸ h.lawful).of_append
    exact ⟨hrunning, hreceived, hdue, hflag, fun u hu hub => hbefore.ran_or_cancelled (hgone u hu hub)⟩
  held := ⟨h.held, fun t ht => h.lawful.ran_or_cancelled ht⟩
  cancelled := h.cancelled

/-- **At every moment of every run each loop has worked in order.** -/
theorem Scene.ordered (config : Config) (definitions : List (Name × Definition)) (strokes : List Stroke)
    (name : LoopName) :
    Ordered name ((initial config definitions).journal name strokes) ((initial config definitions).after strokes) := by
  have hs := Occurs.initial config definitions
  have hstart : Journal.Accords name [] [] (initial config definitions).moment.world := .initial name config definitions
  exact (hstart.after hs strokes).keeps_order (hs.after strokes)

/-- Of two timers that are due in one pass the earlier one runs first, though it arrived last. -/
example : ((Scene.initial {} []).journal .own
    [.demand (.schedule 5), .demand (.schedule 3), .next, .next, .clock 5, .fire]).ran.map Timer.arrival = [2, 1] := rfl

end

end FiberLoop
