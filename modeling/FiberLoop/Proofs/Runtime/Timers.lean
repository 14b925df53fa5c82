import FiberLoop.Proofs.Runtime.Accounting

/-!
# What timers go on with

A timer completes a callback or runs actions; no timer goes on with a fiber. So a fiber is never held by a
timer, and running the timers that are due is a sequence of requests.
-/

namespace FiberLoop

/-- No timer of a loop, arrived or not, goes on with a fiber. -/
structure EventLoop.TimersQuiet (l : EventLoop) : Prop where
  inbox : ∀ deadline timer task, Message.timer deadline timer task ∈ l.inbox → task.isErrand = true
  timers : ∀ t ∈ l.timers, t.task.isErrand = true

namespace EventLoop.TimersQuiet

variable {l l' : EventLoop}

theorem queue (h : l.TimersQuiet) (t : Task) : (l.queue t).TimersQuiet := by
  refine ⟨fun deadline timer task hmem => ?_, h.timers⟩
  rcases List.mem_append.1 hmem with hmem | hmem
  · exact h.inbox deadline timer task hmem
  · cases List.mem_singleton.1 hmem

theorem grows (h : l.TimersQuiet) (hgrows : l.Grows l') : l'.TimersQuiet := by
  obtain ⟨added, hquiet, hinbox⟩ := hgrows.inbox
  refine ⟨fun deadline timer task hmem => ?_, fun t ht => ?_⟩
  · rw [hinbox] at hmem
    rcases List.mem_append.1 hmem with hmem | hmem
    · exact h.inbox deadline timer task hmem
    · exact hquiet _ hmem
  · rw [hgrows.timers] at ht
    exact h.timers t ht

theorem tends (h : l.TimersQuiet) (htends : l.Tends l') : l'.TimersQuiet := by
  refine ⟨fun deadline timer task hmem => h.inbox deadline timer task ?_, htends.timers⟩
  rcases htends.inbox with hinbox | ⟨m, -, hinbox⟩
  · rwa [hinbox] at hmem
  · rw [hinbox]
    exact List.mem_cons_of_mem m hmem

theorem drop (h : l.TimersQuiet) : ({ l with inbox := l.inbox.tail } : EventLoop).TimersQuiet :=
  ⟨fun deadline timer task hmem => h.inbox deadline timer task (List.mem_of_mem_tail hmem), h.timers⟩

end EventLoop.TimersQuiet

/-- No timer of a world goes on with a fiber. -/
structure World.TimersQuiet (w : World) : Prop where
  loop : w.loop.TimersQuiet
  aside : w.aside.TimersQuiet

namespace World.TimersQuiet

variable {w w' : World} {es : Chronicle}

theorem dispatchTo (h : w.TimersQuiet) (name : LoopName) (t : Task) : (w.dispatchTo name t).TimersQuiet := by
  unfold World.dispatchTo
  split
  · exact ⟨h.loop.queue t, h.aside⟩
  · exact ⟨h.loop, h.aside.queue t⟩

theorem modifyFiber (h : w.TimersQuiet) (f : FiberId) (change : Fiber → Fiber) :
    (w.modifyFiber f change).TimersQuiet := ⟨h.loop, h.aside⟩

theorem drop (h : w.TimersQuiet) : w.dropMessage.TimersQuiet := ⟨h.loop.drop, h.aside⟩

theorem interrupt (h : w.TimersQuiet) (f : FiberId) : (w.interrupt f).TimersQuiet := by
  unfold World.interrupt
  split
  · exact h
  · split
    · exact h
    · split
      · split
        · exact (h.modifyFiber f _).dispatchTo _ _
        · exact h.modifyFiber f _
      · exact h.modifyFiber f _

theorem settle (h : w.TimersQuiet) (callback : Callback) (x : Exit Value Value) :
    (w.settle callback x).TimersQuiet := by
  unfold World.settle
  split
  · exact h
  · split
    · exact h
    · split
      · exact h.modifyFiber _ _
      · exact (h.modifyFiber _ _).dispatchTo _ _
      · exact h

theorem launch (h : w.TimersQuiet) (root : Effect) (hook : ExitHook) (notice : Option ExitNotice) :
    (w.launch root hook notice).2.TimersQuiet := ⟨h.loop.queue _, h.aside⟩

theorem request (h : w.TimersQuiet) (hrequest : Request w es w') : w'.TimersQuiet := by
  cases hrequest with
  | quiet hquiet => exact ⟨h.loop.grows hquiet.loop, h.aside.grows hquiet.aside⟩
  | interrupt f => exact h.interrupt f
  | settle callback x => exact h.settle callback x
  | launch root hook => exact h.launch root hook _

theorem requests (h : w.TimersQuiet) (hrequests : Requests w es w') : w'.TimersQuiet := by
  induction hrequests with
  | refl w => exact h
  | step first _ ih => exact ih (h.request first)

theorem announce (h : w.TimersQuiet) (f : FiberId) (x : Exit Value Value) (hook : ExitHook) :
    (w.announce f x hook).TimersQuiet := by
  unfold World.announce
  split
  · exact h.modifyFiber f _
  · exact h

end World.TimersQuiet

/-- Every step of the runtime leaves the timers without fibers. -/
theorem Transition.timersQuiet {m m' : Moment} {es : Chronicle} (htransition : Transition m es m')
    (h : m.world.TimersQuiet) : m'.world.TimersQuiet := by
  cases htransition with
  | request hrequest a => exact h.request hrequest
  | switch w => exact ⟨h.aside, h.loop⟩
  | tend htends clock => exact ⟨h.loop.tends htends, h.aside⟩
  | start hinbox hphase => exact h.drop.modifyFiber _ _
  | startLate hinbox hphase => exact h.drop
  | resume hinbox => exact h.drop
  | unwind hinbox => exact h.drop
  | yield w f s => exact ⟨h.loop.queue _, h.aside⟩
  | move w f left hdeed => exact h
  | call left hdeed hcuts hrequests => exact h.requests hrequests
  | cut left hdeed hcuts => exact h
  | cutWait left hdeed hpending => exact h
  | register left hdeed hpending hv =>
    subst hv
    exact h.modifyFiber _ _
  | exit left hdeed hhook => exact h.modifyFiber _ _
  | exitSilently left hdeed hhook => exact h.modifyFiber _ _
  | throw left run hrun hrequests => exact (h.requests hrequests).modifyFiber _ _
  | «return» left run hrun hrequests => exact h.requests hrequests
  | early left run canceler hphase => exact h.modifyFiber _ _
  | leave left canceler hphase hpending => exact h.modifyFiber _ _
  | park left canceler hphase hpending => exact h.modifyFiber _ _
  | unexpected left run canceler hphase => exact h
  | cancel left run hv hrequests => exact h.requests hrequests
  | tell hv hrequests => exact (h.announce _ _ _).requests hrequests

theorem Transitions.timersQuiet {m m' : Moment} {es : Chronicle} (htransitions : Transitions m es m')
    (h : m.world.TimersQuiet) : m'.world.TimersQuiet := by
  induction htransitions with
  | refl => exact h
  | step _ last ih => exact last.timersQuiet ih

/-- **No timer ever goes on with a fiber.** -/
theorem Reachable.timersQuiet {m : Moment} {es : Chronicle} (h : Reachable es m) :
    m.world.TimersQuiet := by
  obtain ⟨config, definitions, htransitions⟩ := h
  have hempty : ∀ config : Config, ({ config := config } : EventLoop).TimersQuiet := by
    refine fun config => ⟨fun deadline timer task hmem => ?_, fun t hmem => ?_⟩
    · cases hmem
    · cases hmem
  exact htransitions.timersQuiet ⟨hempty config, hempty {}⟩

end FiberLoop
