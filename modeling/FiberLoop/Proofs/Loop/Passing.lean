import FiberLoop.Proofs.Loop.Journal

/-!
# Passes and the journal

A world accords with the journal of a loop if the loop holds what the journal says: its inbox has the messages that
were posted and not taken, and its timers are those that were received and are not gone.

Three things happen. Somebody posts messages and cancels timers (`Accords.note`), a timer that is due runs
(`Accords.fire`), and a message is taken when no timer that is due is left (`Accords.take`). Each of them is lawful.
-/

namespace FiberLoop

namespace World

/-- The timers that were cancelled between two worlds. -/
def newlyCancelled (w w' : World) : List TimerId :=
  ((List.range w'.stores.timers.size).map TimerId.mk).filter fun timer => w'.isCancelled timer && !w.isCancelled timer

/-- What somebody has done to a loop between two worlds. -/
def noted (name : LoopName) (w w' : World) : Journal :=
  ((w'.loopAt name).inbox.drop (w.loopAt name).inbox.length).map LoopEvent.posted ++
    (w.newlyCancelled w').map LoopEvent.cancelled

/-- What happens at a loop while timers run that were due at a time. -/
def firing (name : LoopName) (now : Nat) : List Timer → World → Journal
  | [], _ => []
  | t :: due, w =>
    (if w.isCancelled t.timer then .dropped t else .ran t now) :: w.noted name (w.fire t) ++ firing name now due (w.fire t)

/-- What taking a message does to the loop itself. -/
def accept (message : Message) (w : World) : World :=
  match message with
  | .task _ => w
  | message => w.handle message

/-- What happens at a loop when it takes its first message in a pass that began at a time. -/
def taking (name : LoopName) (now : Nat) (w : World) : Journal :=
  match w.loop.inbox with
  | [] => []
  | message :: _ =>
    .took message now :: (w.dropMessage.accept message).noted name (w.dropMessage.takeUp message).world

/-- Take the timers that are due out of the loop. -/
def takeDue (w : World) : World :=
  { w with loop := { w.loop with timers := w.loop.timers.dropWhile (·.deadline ≤ w.clock) } }

/-- What happens at a loop when it runs the timers that are due. -/
def firingDue (name : LoopName) (w : World) : Journal :=
  w.takeDue.firing name w.clock (w.loop.timers.takeWhile (·.deadline ≤ w.clock))

variable {w w' : World} {name : LoopName} {timer : TimerId}

theorem index_lt_of_isCancelled (h : w.isCancelled timer = true) : timer.index < w.stores.timers.size := by
  unfold isCancelled at h
  rw [← Table.isSome_get?_iff]
  cases hrow : w.stores.timers.get? timer.index with
  | none =>
    rw [hrow] at h
    cases h
  | some b => rfl

theorem mem_newlyCancelled :
    timer ∈ w.newlyCancelled w' ↔ w'.isCancelled timer = true ∧ w.isCancelled timer = false := by
  unfold newlyCancelled
  rw [List.mem_filter, Bool.and_eq_true, Bool.not_eq_true', and_iff_right_iff_imp]
  intro h
  exact List.mem_map.2 ⟨timer.index, List.mem_range.2 (index_lt_of_isCancelled h.1), rfl⟩

theorem admits_noted {e : LoopEvent} (h : e ∈ w.noted name w') (before : Journal) : before.Admits e := by
  rcases List.mem_append.1 h with h | h
  · obtain ⟨message, -, rfl⟩ := List.mem_map.1 h
    trivial
  · obtain ⟨timer, -, rfl⟩ := List.mem_map.1 h
    trivial

theorem filterMap_noted {α : Type} (f : LoopEvent → Option α) : (w.noted name w').filterMap f =
    ((w'.loopAt name).inbox.drop (w.loopAt name).inbox.length).filterMap (fun message => f (.posted message)) ++
      (w.newlyCancelled w').filterMap fun timer => f (.cancelled timer) := by
  rw [noted, List.filterMap_append, List.filterMap_map, List.filterMap_map]
  rfl

@[simp] theorem posted_noted :
    (w.noted name w').posted = (w'.loopAt name).inbox.drop (w.loopAt name).inbox.length := by
  rw [Journal.posted, filterMap_noted]
  simp [LoopEvent.posted?]

@[simp] theorem taken_noted : (w.noted name w').taken = [] := by
  rw [Journal.taken, filterMap_noted]
  simp [LoopEvent.taken?]

@[simp] theorem gone_noted : (w.noted name w').gone = [] := by
  rw [Journal.gone, filterMap_noted]
  simp [LoopEvent.gone?]

@[simp] theorem cancelled_noted : (w.noted name w').cancelled = w.newlyCancelled w' := by
  rw [Journal.cancelled, filterMap_noted]
  simp [LoopEvent.cancelled?]

theorem Posts.fireDue (hquiet : w.TimersQuiet) : w.takeDue.Posts w.fireDue :=
  fireAll (fun t ht => hquiet.loop.timers t ((List.takeWhile_prefix _).subset ht)) w.takeDue

theorem Posts.takeUp (message : Message) (w : World) : (w.accept message).Posts (w.takeUp message).world := by
  cases message with
  | task task => exact takeTask task w
  | timer deadline timer task => exact refl _
  | shutdown => exact refl _

end World

/-- A loop holds what its journal says, besides timers that were taken out because they are due. -/
structure Journal.Accords (name : LoopName) (j : Journal) (due : List Timer) (w : World) : Prop where
  lawful : j.Lawful
  posted : j.posted = j.taken ++ (w.loopAt name).inbox
  cancelled : ∀ timer, timer ∈ j.cancelled ↔ w.isCancelled timer = true
  arrivals : (w.loopAt name).arrivals = j.received.length
  held : (j.gone ++ (due ++ (w.loopAt name).timers)).Perm j.received
  sorted : (due ++ (w.loopAt name).timers).Pairwise fun t u => t.before u = true
  stopped : (w.loopAt name).stopped = true ↔ .shutdown ∈ j.taken

namespace Journal.Accords

variable {name : LoopName} {j : Journal} {due : List Timer} {t : Timer} {w w' : World} {now : Nat} {message : Message}
  {rest : List Message}

theorem initial (name : LoopName) (config : Config) (definitions : List (Name × Definition)) :
    Accords name [] [] (Scenario.initial config definitions) := by
  cases name with
  | _ =>
    exact
      { lawful := lawful_nil
        posted := rfl
        cancelled := fun timer => ⟨nofun, nofun⟩
        arrivals := rfl
        held := .refl _
        sorted := .nil
        stopped := ⟨nofun, nofun⟩ }

/-! ## Notes -/

/-- **Messages are posted, and timers are cancelled.** -/
theorem note (h : Accords name j due w) (hposts : w.PostsAt name w') :
    Accords name (j ++ w.noted name w') due w' := by
  have hreceived : (j ++ w.noted name w').received = j.received := received_of_taken World.taken_noted
  have hgone : (j ++ w.noted name w').gone = j.gone := by rw [gone_append, World.gone_noted, List.append_nil]
  have htaken : (j ++ w.noted name w').taken = j.taken := by rw [taken_append, World.taken_noted, List.append_nil]
  refine
    { lawful := h.lawful.append fun e he => World.admits_noted he
      posted := ?_
      cancelled := fun timer => ?_
      arrivals := by rw [hreceived, hposts.loop.arrivals, h.arrivals]
      held := by
        rw [hreceived, hgone, hposts.loop.timers]
        exact h.held
      sorted := by
        rw [hposts.loop.timers]
        exact h.sorted
      stopped := by rw [htaken, hposts.loop.stopped, h.stopped] }
  · obtain ⟨more, hmore⟩ := hposts.loop.inbox
    rw [htaken, posted_append, h.posted, World.posted_noted, ← hmore, List.drop_left, List.append_assoc]
  · rw [cancelled_append, List.mem_append, h.cancelled, World.cancelled_noted, World.mem_newlyCancelled]
    constructor
    · rintro (hbefore | ⟨hnow, -⟩)
      · exact hposts.cancelled timer hbefore
      · exact hnow
    · intro hnow
      cases hbefore : w.isCancelled timer with
      | true => exact Or.inl rfl
      | false => exact Or.inr ⟨hnow, rfl⟩

/-! ## Timers -/

theorem not_gone (h : Accords name j (t :: due) w) : t ∈ j.received ∧ t ∉ j.gone := by
  have hmem : t ∈ t :: due ++ (w.loopAt name).timers := List.mem_append_left _ List.mem_cons_self
  refine ⟨h.held.subset (List.mem_append_right _ hmem), fun hgone => ?_⟩
  have hnodup := h.held.nodup_iff.2 j.nodup_received
  exact (List.nodup_append.1 hnodup).2.2 t hgone t hmem rfl

/-- A timer that goes before the first one of those that are left is gone. -/
theorem gone_of_before {u : Timer} (h : Accords name j (t :: due) w) (hu : u ∈ j.received)
    (hbefore : u.before t = true) : u ∈ j.gone := by
  rcases List.mem_append.1 (h.held.symm.subset hu) with hgone | hleft
  · exact hgone
  · exfalso
    have hself (v : Timer) (hv : v.before v = true) : False := by
      rw [Timer.not_before_self] at hv
      cases hv
    rcases List.mem_cons.1 hleft with rfl | hlater
    · exact hself u hbefore
    · exact hself u (Timer.before_trans hbefore ((List.pairwise_cons.1 h.sorted).1 u hlater))

/-- **The first timer that is due runs, or it is dropped.** -/
theorem fire (h : Accords name j (t :: due) w) (hstopped : (w.loopAt name).stopped = false) (hdue : t.deadline ≤ now)
    (hposts : w.PostsAt name (w.fire t)) :
    Accords name (j ++ ((if w.isCancelled t.timer then .dropped t else .ran t now) :: w.noted name (w.fire t))) due
      (w.fire t) := by
  obtain ⟨hreceived, hgone⟩ := h.not_gone
  have hshutdown : .shutdown ∉ j.taken := fun hmem => by
    rw [h.stopped.2 hmem] at hstopped
    cases hstopped
  generalize he : (if w.isCancelled t.timer then LoopEvent.dropped t else .ran t now) = e
  -- what the journal says of the timer, whichever of the two happens
  obtain ⟨hadmits, hgoes, htakes, hposted, hcancels⟩ : j.Admits e ∧ gone [e] = [t] ∧ taken [e] = [] ∧
      Journal.posted [e] = [] ∧ Journal.cancelled [e] = [] := by
    cases hflag : w.isCancelled t.timer with
    | true =>
      rw [hflag, if_pos rfl] at he
      subst he
      exact ⟨⟨hshutdown, hreceived, hgone, (h.cancelled _).2 hflag⟩, rfl, rfl, rfl, rfl⟩
    | false =>
      rw [hflag, if_neg Bool.false_ne_true] at he
      subst he
      refine ⟨⟨hshutdown, hreceived, hgone, hdue, fun hmem => ?_, fun u => h.gone_of_before⟩, rfl, rfl, rfl, rfl⟩
      rw [(h.cancelled _).1 hmem] at hflag
      cases hflag
  have hsame : (j ++ [e]).received = j.received := received_of_taken htakes
  have hnow : Accords name (j ++ [e]) due w :=
    { lawful := h.lawful.concat hadmits
      posted := by rw [posted_append, taken_append, hposted, htakes, List.append_nil, List.append_nil, h.posted]
      cancelled := by
        rw [cancelled_append, hcancels, List.append_nil]
        exact h.cancelled
      arrivals := by rw [hsame, h.arrivals]
      held := by
        rw [hsame, gone_append, hgoes, List.append_assoc]
        exact h.held
      sorted := (List.pairwise_cons.1 h.sorted).2
      stopped := by rw [taken_append, htakes, List.append_nil, h.stopped] }
  rw [List.append_cons]
  exact hnow.note hposts

theorem fireAll (h : Accords name j due w) (hstopped : (w.loopAt name).stopped = false)
    (hdue : ∀ t ∈ due, t.deadline ≤ now ∧ t.task.isErrand = true) :
    Accords name (j ++ w.firing name now due) [] (due.foldl World.fire w) := by
  induction due generalizing j w with
  | nil =>
    rw [World.firing, List.append_nil]
    exact h
  | cons t rest ih =>
    obtain ⟨hfirst, herrand⟩ := hdue t List.mem_cons_self
    have hposts : w.PostsAt name (w.fire t) := .of_posts (.fire herrand w) name
    rw [World.firing, ← List.append_assoc]
    exact ih (h.fire hstopped hfirst hposts) (hposts.loop.stopped.trans hstopped)
      fun u hu => hdue u (List.mem_cons_of_mem t hu)

/-- The timers that are due run, and none is left. -/
theorem fireDue (h : Accords w.here j [] w) (hquiet : w.TimersQuiet) (hstopped : w.loop.stopped = false) :
    Accords w.here (j ++ w.firingDue w.here) [] w.fireDue := by
  have htaken : Accords w.here j (w.loop.timers.takeWhile (·.deadline ≤ w.clock)) w.takeDue := by
    obtain ⟨hlawful, hposted, hcancelled, harrivals, hheld, hsorted, hstops⟩ := h
    rw [World.loopAt_here] at hposted harrivals hheld hsorted hstops
    have hlater : w.takeDue.loopAt w.here = w.takeDue.loop := w.takeDue.loopAt_here
    have hsplit : w.loop.timers.takeWhile (·.deadline ≤ w.clock) ++ w.takeDue.loop.timers = w.loop.timers :=
      List.takeWhile_append_dropWhile
    refine ⟨hlawful, ?_, hcancelled, ?_, ?_, ?_, ?_⟩
    all_goals rw [hlater]
    · exact hposted
    · exact harrivals
    · rwa [hsplit]
    · rwa [hsplit]
    · exact hstops
  refine htaken.fireAll (w.takeDue.loopAt_here ▸ hstopped) fun t ht => ⟨?_, ?_⟩
  · exact of_decide_eq_true (List.all_eq_true.1 List.all_takeWhile t ht)
  · exact hquiet.loop.timers t ((List.takeWhile_prefix _).subset ht)

/-! ## Messages -/

/-- What a message does to the timers of a loop, and whether the loop stops. -/
theorem accepted (h : Accords w.here j [] w) (message : Message) :
    (w.dropMessage.accept message).loop.arrivals = (Timer.receive j.received message).length ∧
      (j.gone ++ (w.dropMessage.accept message).loop.timers).Perm (Timer.receive j.received message) ∧
      ((w.dropMessage.accept message).loop.timers.Pairwise fun t u => t.before u = true) ∧
      ((w.dropMessage.accept message).loop.stopped = true ↔ .shutdown ∈ j.taken ∨ .shutdown = message) := by
  obtain ⟨-, -, -, harrivals, hheld, hsorted, hstops⟩ := h
  rw [World.loopAt_here] at harrivals hheld hsorted hstops
  rw [← hstops]
  cases message with
  | task task => exact ⟨harrivals, hheld, hsorted, (or_iff_left nofun).symm⟩
  | shutdown => exact ⟨harrivals, hheld, hsorted, iff_of_true rfl (Or.inr rfl)⟩
  | timer deadline timer task =>
    have hinsert := Timer.insert_perm ⟨deadline, w.loop.arrivals + 1, timer, task⟩ w.loop.timers
    refine ⟨?_, ?_, Timer.pairwise_insert hsorted fun u hu he => ?_, (or_iff_left nofun).symm⟩
    · rw [Timer.receive, List.length_append, ← harrivals]
      rfl
    · rw [Timer.receive, ← harrivals]
      exact ((hinsert.append_left j.gone).trans List.perm_middle).trans
        ((hheld.cons _).trans (List.perm_append_singleton _ _).symm)
    · have hle := arrival_le_of_received (hheld.subset (List.mem_append_right _ hu))
      rw [← harrivals, ← he] at hle
      exact Nat.not_succ_le_self _ hle

/-- The message is out of the inbox, and the loop has done what it says. -/
theorem accept (h : Accords w.here j [] w) (hadmits : j.Admits (.took message now))
    (hinbox : w.loop.inbox = message :: rest) :
    Accords w.here (j ++ [.took message now]) [] (w.dropMessage.accept message) := by
  obtain ⟨harrivals, hheld, hsorted, hstops⟩ := h.accepted message
  have htaken : taken (j ++ [.took message now]) = j.taken ++ [message] := taken_append ..
  have hgone : gone (j ++ [.took message now]) = j.gone := (gone_append ..).trans (List.append_nil _)
  have hloop : (w.dropMessage.accept message).loopAt w.here = (w.dropMessage.accept message).loop := by
    cases message with
    | _ => exact if_pos rfl
  have hrest : (w.dropMessage.accept message).loop.inbox = rest := by
    cases message with
    | _ => exact congrArg List.tail hinbox
  have hflags (timer : TimerId) : (w.dropMessage.accept message).isCancelled timer = w.isCancelled timer := by
    cases message with
    | _ => rfl
  refine ⟨h.lawful.concat hadmits, ?_, fun timer => ?_, ?_, ?_, ?_, ?_⟩
  · rw [hloop, hrest, htaken, posted_append, h.posted, World.loopAt_here, hinbox, List.append_cons]
    exact List.append_nil _
  · rw [hflags, ← h.cancelled, cancelled_append]
    exact List.mem_append.trans (or_iff_left nofun)
  · rw [hloop, received_took]
    exact harrivals
  · rw [hloop, received_took, hgone]
    exact hheld
  · rw [hloop]
    exact hsorted
  · rw [hloop, htaken, List.mem_append, List.mem_singleton]
    exact hstops

/-- **A message is taken when no timer that is due is left.** -/
theorem take (h : Accords w.here j [] w) (hstopped : w.loop.stopped = false) (hinbox : w.loop.inbox = message :: rest)
    (hlater : ∀ t ∈ w.loop.timers, now < t.deadline) :
    Accords w.here (j ++ w.taking w.here now) [] (w.dropMessage.takeUp message).world := by
  have hadmits : j.Admits (.took message now) := by
    constructor
    · intro hmem
      rw [← h.stopped, World.loopAt_here, hstopped] at hmem
      cases hmem
    · intro t ht hdue
      refine (List.mem_append.1 (h.held.symm.subset ht)).resolve_right fun hleft => ?_
      rw [World.loopAt_here] at hleft
      exact Nat.not_lt_of_le hdue (hlater t hleft)
  have haccept := h.accept hadmits hinbox
  have hposts := World.Posts.takeUp message w.dropMessage
  have hnote := haccept.note (.of_posts hposts w.here)
  rw [World.taking, hinbox, List.append_cons]
  exact hnote

end Journal.Accords

end FiberLoop
