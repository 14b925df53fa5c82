import FiberLoop.Proofs.Runtime.Steps

/-!
# Accounting for fibers

Every step of the runtime moves each fiber along its course: the steps of the fiber itself by one move or two,
the requests of others by the moves that they are labelled with, and everything else not at all.

The main result of this module is `Reachable.accounted`: in every run, what has happened to a fiber is a
course, and the moment shows the fiber at the place to which that course has brought it.
-/

namespace FiberLoop

/-- Two moments show the same of a fiber, up to the order in which its tokens are listed. -/
structure View.Alike (v v' : View) : Prop where
  record : v'.record = v.record
  tokens : v'.tokens.Perm v.tokens
  activity : v'.activity = v.activity

/-- The next step is not one of this fiber. -/
structure Foreign (f : FiberId) (m : Moment) : Prop where
  activity : m.activity.fiber? ≠ some f
  inbox : m.activity = .idle → ∀ t rest, m.world.loop.inbox = .task t :: rest → t.fiber? ≠ some f

section EveryFiber

variable {f g : FiberId} {p : Place} {m m' : Moment} {w v : World} {es : Chronicle} {a : Activity}

theorem Fits.alike {v v' : View} (h : Fits f v p) (halike : v.Alike v') : Fits f v' p := by
  refine h.congr halike.record ?_ halike.activity
  have hperm := halike.tokens
  rcases h.held.tokens_cases with hnil | ⟨t, hone⟩
  · rw [hnil] at hperm ⊢
    exact hperm.eq_nil
  · rw [hone] at hperm ⊢
    exact List.perm_singleton.1 hperm

theorem View.Alike.of_eq {v v' : View} (h : v' = v) : v.Alike v' := by
  subst h
  exact ⟨rfl, .refl _, rfl⟩

theorem Foreign.of_activity (ha : a.fiber? = some g) (hg : g ≠ f) : Foreign f ⟨w, a⟩ := by
  refine ⟨fun e => hg (Option.some.inj (ha.symm.trans e)), fun hidle => ?_⟩
  have hnone : a.fiber? = none := congrArg Activity.fiber? hidle
  exact nomatch ha.symm.trans hnone

theorem Foreign.of_task {t : Task} {rest : List Message} (hinbox : w.loop.inbox = .task t :: rest)
    (ht : t.fiber? = some g) (hg : g ≠ f) : Foreign f ⟨w, .idle⟩ := by
  refine ⟨nofun, fun _ t' rest' hinbox' => ?_⟩
  cases hinbox.symm.trans hinbox'
  exact fun e => hg (Option.some.inj (ht.symm.trans e))

theorem Foreign.view (h : Foreign f m) : m.view f = m.world.view f .idle := by
  show View.mk _ _ (m.activity.of f) = View.mk _ _ .idle
  rw [Activity.of_other h.activity]

theorem Foreign.ne_of_activity (h : Foreign f ⟨w, a⟩) (ha : a.fiber? = some g) : g ≠ f :=
  fun e => h.activity (ha.trans (congrArg some e))

/-- What a step of others shows of a fiber comes about by requests alone. -/
def Moment.Unmoved (f : FiberId) (m : Moment) (es : Chronicle) (m' : Moment) : Prop :=
  ∃ u v es', (m.world.view f .idle).Alike (u.view f .idle) ∧ Requests u es' v ∧
    (v.view f .idle).Alike (m'.view f) ∧ history f es = history f es'

/-- Nothing is shown of a step of others. -/
theorem Moment.unmoved (halike : (m.world.view f .idle).Alike (m'.view f)) (hes : history f es = []) :
    m.Unmoved f es m' := by
  refine ⟨m.world, m.world, [], .of_eq rfl, .refl _, ?_, hes⟩
  exact halike

/-- **A step of others moves a fiber only by the requests that are made on the way.** -/
theorem Transition.unmoved (htransition : Transition m es m') (h : Foreign f m) : m.Unmoved f es m' := by
  cases htransition with
  | @request w w' es hrequest a =>
    have haside : a.of f = .idle := if_neg h.activity
    refine ⟨w, w', es, .of_eq rfl, .one hrequest, .of_eq ?_, rfl⟩
    show View.mk _ _ (a.of f) = View.mk _ _ .idle
    rw [haside]
  | switch w =>
    refine Moment.unmoved ⟨rfl, ?_, Moment.view_idle ▸ rfl⟩ rfl
    exact List.perm_append_comm
  | @tend w l htends clock =>
    refine Moment.unmoved (.of_eq ?_) rfl
    rw [Moment.view_idle]
    show View.mk _ (l.tokens f ++ w.aside.tokens f) _ = View.mk _ (w.loop.tokens f ++ w.aside.tokens f) _
    rw [htends.tokens f]
    rfl
  | @start w g rest root hinbox hphase =>
    have htask := h.inbox rfl _ _ hinbox
    have hg : g ≠ f := fun e => htask (congrArg some e)
    refine Moment.unmoved (.of_eq ?_) (history_cons_of_ne hg)
    rw [Moment.view_of_ne rfl hg, World.view_modifyFiber_of_ne hg]
    exact World.view_dropMessage_of_ne hinbox htask _
  | @startLate w g rest hinbox hphase =>
    refine Moment.unmoved (.of_eq ?_) rfl
    rw [Moment.view_idle]
    exact World.view_dropMessage_of_ne hinbox (h.inbox rfl _ _ hinbox) _
  | @resume w g rest s hinbox =>
    have htask := h.inbox rfl _ _ hinbox
    refine Moment.unmoved (.of_eq ?_) rfl
    rw [Moment.view_of_ne rfl fun e => htask (congrArg some e)]
    exact World.view_dropMessage_of_ne hinbox htask _
  | @unwind w g rest canceler run hinbox =>
    have htask := h.inbox rfl _ _ hinbox
    refine Moment.unmoved (.of_eq ?_) rfl
    rw [Moment.view_of_ne rfl fun e => htask (congrArg some e)]
    exact World.view_dropMessage_of_ne hinbox htask _
  | yield w g s =>
    have hg := h.ne_of_activity rfl
    have hother : (Task.resume g s.run s.next).fiber? ≠ some f := fun e => hg (Option.some.inj e)
    refine Moment.unmoved (.of_eq ?_) rfl
    rw [Moment.view_idle]
    rw [World.dispatch_eq_dispatchTo, World.view, World.record_dispatchTo,
      World.tokens_dispatchTo_of_ne hother]
    rfl
  | move w g left hdeed =>
    have hg := h.ne_of_activity rfl
    exact Moment.unmoved (.of_eq (Moment.view_of_ne rfl hg)) (history_cons_of_ne hg)
  | @call w g left s c run es hdeed hcuts hrequests =>
    have hg := h.ne_of_activity rfl
    refine ⟨w, _, es, .of_eq rfl, hrequests, .of_eq (Moment.view_of_ne rfl hg), ?_⟩
    rw [history_append, history_cons_of_ne hg]
    exact List.append_nil _
  | @cut w g left s c run hdeed hcuts =>
    have hg := h.ne_of_activity rfl
    exact Moment.unmoved (.of_eq (Moment.view_of_ne rfl hg)) (history_cons_of_ne hg)
  | @cutWait w g left s r hdeed hpending =>
    have hg := h.ne_of_activity rfl
    exact Moment.unmoved (.of_eq (Moment.view_of_ne rfl hg)) (history_cons_of_ne hg)
  | @register w v g left s r hdeed hpending hv =>
    subst hv
    have hg := h.ne_of_activity rfl
    refine Moment.unmoved (.of_eq ?_) (history_cons_of_ne hg)
    rw [Moment.view_of_ne rfl hg]
    exact World.view_modifyFiber_of_ne hg _ _ _
  | @exit w g left s x hook hdeed hhook =>
    have hg := h.ne_of_activity rfl
    refine Moment.unmoved (.of_eq ?_) (history_cons_of_ne hg)
    rw [Moment.view_of_ne rfl hg]
    exact World.view_modifyFiber_of_ne hg _ _ _
  | @exitSilently w g left s x hdeed hhook =>
    have hg := h.ne_of_activity rfl
    refine Moment.unmoved (.of_eq ?_) (history_cons_of_ne hg)
    rw [Moment.view_idle]
    exact World.view_modifyFiber_of_ne hg _ _ _
  | @throw w v g left run r epoch d es hrun hrequests =>
    have hg := h.ne_of_activity rfl
    refine ⟨w, v, es, .of_eq rfl, hrequests, .of_eq ?_, ?_⟩
    · rw [Moment.view_of_ne rfl hg]
      exact World.view_modifyFiber_of_ne hg _ _ _
    · rw [history_append, history_cons_of_ne hg, history_cons_of_ne hg]
      exact List.append_nil _
  | @«return» w v g left run r epoch canceler es hrun hrequests =>
    have hg := h.ne_of_activity rfl
    refine ⟨w, v, es, .of_eq rfl, hrequests, .of_eq (Moment.view_of_ne rfl hg), ?_⟩
    rw [history_append, history_cons_of_ne hg]
    exact List.append_nil _
  | @early w g left run canceler x hphase =>
    have hg := h.ne_of_activity rfl
    refine Moment.unmoved (.of_eq ?_) ?_
    · rw [Moment.view_of_ne rfl hg]
      exact World.view_modifyFiber_of_ne hg _ _ _
    · rw [history_cons_of_ne hg, history_cons_of_ne hg]
      rfl
  | @leave w g left run canceler hphase hpending =>
    have hg := h.ne_of_activity rfl
    refine Moment.unmoved (.of_eq ?_) (history_cons_of_ne hg)
    rw [Moment.view_of_ne rfl hg]
    exact World.view_modifyFiber_of_ne hg _ _ _
  | @park w g left run canceler hphase hpending =>
    have hg := h.ne_of_activity rfl
    refine Moment.unmoved (.of_eq ?_) (history_cons_of_ne hg)
    rw [Moment.view_idle]
    exact World.view_modifyFiber_of_ne hg _ _ _
  | @unexpected w g left run canceler hphase =>
    have hg := h.ne_of_activity rfl
    exact Moment.unmoved (.of_eq (Moment.view_of_ne rfl hg)) (history_cons_of_ne hg)
  | @cancel w v g left run canceler es hv hrequests =>
    have hg := h.ne_of_activity rfl
    refine ⟨w, v, es, .of_eq rfl, hrequests, .of_eq (Moment.view_of_ne rfl hg), ?_⟩
    rw [history_append, history_cons_of_ne hg, history_cons_of_ne hg]
    exact List.append_nil _
  | @tell w v g x hook es hv hrequests =>
    have hg := h.ne_of_activity rfl
    exact ⟨w.announce g x hook, v, es, .of_eq (World.view_announce_of_ne hg w x hook .idle), hrequests,
      .of_eq Moment.view_idle, history_cons_of_ne hg⟩

/-- **Every step of the runtime moves each fiber along its course.** -/
theorem Transition.fits (htransition : Transition m es m') (h : Fits f (m.view f) p) :
    ∃ q, Moves p (history f es) q ∧ Fits f (m'.view f) q := by
  by_cases hforeign : Foreign f m
  · obtain ⟨u, v, es', hbefore, hrequests, hafter, hes⟩ := htransition.unmoved hforeign
    rw [hforeign.view] at h
    obtain ⟨q, hmoves, hq⟩ := hrequests.fits (h.alike hbefore)
    rw [hes]
    exact ⟨q, hmoves, hq.alike hafter⟩
  have hmover : ∀ {w : World} {a : Activity} {g : FiberId}, m = ⟨w, a⟩ → a.fiber? = some g → g = f := by
    intro w a g hm ha
    rcases Decidable.em (g = f) with hg | hg
    · exact hg
    · exact absurd (hm ▸ Foreign.of_activity ha hg) hforeign
  have htaken : ∀ {w : World} {t : Task} {rest : List Message} {g : FiberId}, m = ⟨w, .idle⟩ →
      w.loop.inbox = .task t :: rest → t.fiber? = some g → g = f := by
    intro w t rest g hm hinbox ht
    rcases Decidable.em (g = f) with hg | hg
    · exact hg
    · exact absurd (hm ▸ Foreign.of_task hinbox ht hg) hforeign
  cases htransition with
  | request hrequest a => exact hrequest.fits h
  | switch w =>
    refine ⟨p, .refl p, h.alike ⟨rfl, ?_, rfl⟩⟩
    exact List.perm_append_comm
  | @tend w l htends clock =>
    refine ⟨p, .refl p, h.congr rfl ?_ rfl⟩
    show l.tokens f ++ w.aside.tokens f = w.loop.tokens f ++ w.aside.tokens f
    rw [htends.tokens f]
  | start hinbox hphase =>
    cases htaken rfl hinbox rfl
    rw [Moment.view_idle] at h
    rw [Moment.view_self rfl, history_cons_self]
    exact h.start hinbox hphase
  | startLate hinbox hphase =>
    cases htaken rfl hinbox rfl
    rw [Moment.view_idle] at h
    exact (h.not_startLate hinbox hphase).elim
  | resume hinbox =>
    cases htaken rfl hinbox rfl
    rw [Moment.view_idle] at h
    rw [Moment.view_self rfl]
    exact ⟨p, .refl p, h.resume hinbox⟩
  | unwind hinbox =>
    cases htaken rfl hinbox rfl
    rw [Moment.view_idle] at h
    rw [Moment.view_self rfl]
    exact ⟨p, .refl p, h.unwind hinbox⟩
  | yield w g s =>
    cases hmover rfl rfl
    rw [Moment.view_self rfl] at h
    rw [Moment.view_idle]
    exact ⟨p, .refl p, h.yield⟩
  | move w g left hdeed =>
    cases hmover rfl rfl
    rw [Moment.view_self rfl] at h ⊢
    rw [history_cons_self]
    exact h.step left (.move hdeed) (fun _ => Way.noConfusion) fun e => nomatch e
  | call left hdeed hcuts hrequests =>
    cases hmover rfl rfl
    rw [Moment.view_self rfl] at h ⊢
    rw [history_append, history_cons_self]
    exact h.call hdeed hrequests
  | cut left hdeed hcuts =>
    cases hmover rfl rfl
    rw [Moment.view_self rfl] at h ⊢
    rw [history_cons_self]
    exact h.cut hdeed hcuts
  | cutWait left hdeed hpending =>
    cases hmover rfl rfl
    rw [Moment.view_self rfl] at h ⊢
    rw [history_cons_self]
    exact h.cutWait hdeed hpending
  | register left hdeed hpending hv =>
    cases hmover rfl rfl
    subst hv
    rw [Moment.view_self rfl] at h ⊢
    rw [history_cons_self]
    exact h.register hdeed
  | exit left hdeed hhook =>
    cases hmover rfl rfl
    rw [Moment.view_self rfl] at h ⊢
    rw [history_cons_self]
    cases h.hook_of_running.symm.trans hhook
    exact h.exit hdeed
  | exitSilently left hdeed hhook =>
    cases hmover rfl rfl
    rw [Moment.view_self rfl] at h
    exact nomatch h.hook_of_running.symm.trans hhook
  | throw left run hrun hrequests =>
    cases hmover rfl rfl
    rw [Moment.view_self rfl] at h ⊢
    rw [history_append, history_cons_self, history_cons_self]
    exact h.throw hrequests
  | «return» left run hrun hrequests =>
    cases hmover rfl rfl
    rw [Moment.view_self rfl] at h ⊢
    rw [history_append, history_cons_self]
    exact h.return hrequests
  | early left run canceler hphase =>
    cases hmover rfl rfl
    rw [Moment.view_self rfl] at h ⊢
    rw [history_cons_self, history_cons_self]
    exact h.early hphase
  | leave left canceler hphase hpending =>
    cases hmover rfl rfl
    rw [Moment.view_self rfl] at h ⊢
    rw [history_cons_self]
    exact h.leave hphase hpending
  | park left canceler hphase hpending =>
    cases hmover rfl rfl
    rw [Moment.view_self rfl] at h
    rw [Moment.view_idle, history_cons_self]
    exact h.park hphase hpending
  | unexpected left run canceler hphase =>
    cases hmover rfl rfl
    rw [Moment.view_self rfl] at h
    exact (h.not_unexpected hphase).elim
  | cancel left run hv hrequests =>
    cases hmover rfl rfl
    rw [Moment.view_self rfl] at h ⊢
    rw [history_append, history_cons_self, history_cons_self]
    exact h.cancel hrequests
  | tell hv hrequests =>
    cases hmover rfl rfl
    rw [Moment.view_self rfl] at h
    rw [Moment.view_idle, history_cons_self]
    exact h.tell hrequests

theorem Transitions.fits (htransitions : Transitions m es m') (h : Fits f (m.view f) p) :
    ∃ q, Moves p (history f es) q ∧ Fits f (m'.view f) q := by
  induction htransitions with
  | refl => exact ⟨p, .refl p, h⟩
  | step _ last ih =>
    obtain ⟨q, hmoves, hq⟩ := ih
    obtain ⟨q', hmoves', hq'⟩ := last.fits hq
    rw [history_append]
    exact ⟨q', hmoves.append hmoves', hq'⟩

/-! ## Fibers that are not there -/

theorem World.interrupt_of_absent (h : w.record f = none) :
    w.interrupt f = w ∧ w.interruptEvents f = [] := by
  have hnone := World.fiber?_of_record_none h
  constructor
  · simp [World.interrupt, hnone]
  · simp [World.interruptEvents, hnone]

theorem World.settle_of_absent {callback : Callback} (h : w.record callback.fiber = none)
    (x : Exit Value Value) : w.settle callback x = w ∧ w.settleEvents callback x = [] := by
  have hnone := World.fiber?_of_record_none h
  constructor
  · simp [World.settle, hnone]
  · simp [World.settleEvents, hnone]

/-- What is shown of a fiber is what its history tells: nothing before it is launched, and the place at the end
of a course from then on. -/
inductive Accounted (f : FiberId) (v : View) : List Event → Prop where
  | absent (h : Absent f v) : Accounted f v []
  | course {es : List Event} {p : Place} (h : Course es p) (hfits : Fits f v p) : Accounted f v es

theorem Accounted.cases {v : View} {es : List Event} (h : Accounted f v es) :
    es = [] ∧ Absent f v ∨ ∃ p, Course es p ∧ Fits f v p := by
  cases h with
  | absent habsent => exact Or.inl ⟨rfl, habsent⟩
  | course hcourse hfits => exact Or.inr ⟨_, hcourse, hfits⟩

theorem Accounted.alike {v v' : View} {es : List Event} (h : Accounted f v es) (halike : v.Alike v') :
    Accounted f v' es := by
  cases h with
  | absent h =>
    refine .absent ⟨halike.record.trans h.record, ?_, halike.activity.trans h.activity⟩
    have hperm := halike.tokens
    rw [h.tokens] at hperm
    exact hperm.eq_nil
  | course h hfits => exact .course h (hfits.alike halike)

theorem Absent.launched {root : Effect} {hook : ExitHook}
    (h : Absent ⟨w.fibers.size⟩ (w.view ⟨w.fibers.size⟩ a)) :
    Fits ⟨w.fibers.size⟩ ((w.launch root hook hook.notice).2.view ⟨w.fibers.size⟩ a)
      (.launched root hook) := by
  have hfiber : (w.launch root hook hook.notice).2.fiber? ⟨w.fibers.size⟩ =
      some { home := w.here, phase := .created root, hook := some hook, notice := hook.notice } := by
    show (w.fibers.push _).get? w.fibers.size = _
    rw [Table.get?_push, if_pos rfl]
  have hcore : hook.notice.map ExitNotice.core = hook.notice := by cases hook <;> rfl
  have hprepared : (w.prepare root hook hook.notice).2.tokens ⟨w.fibers.size⟩ = [] := h.tokens
  have hqueued := World.tokens_dispatchTo_of_nil (t := .start ⟨w.fibers.size⟩) rfl hprepared w.here
  refine ⟨⟨w.here, ?_⟩, ?_⟩
  · show World.record _ _ = _
    rw [World.record, hfiber]
    simp [Fiber.core, hcore, Place.record, Place.launched, Place.notice, Standing.phase, Standing.exit?]
  · show Held _ _ _ _ (((w.prepare root hook hook.notice).2.dispatch _).tokens _) a
    rw [World.dispatch_eq_dispatchTo, show a = .idle from h.activity]
    exact hqueued ▸ Held.fresh root

/-- A fiber that is not there is launched or stays away. -/
theorem Request.accounted (hrequest : Request w es v) {before : List Event}
    (h : Accounted f (w.view f a) before) : Accounted f (v.view f a) (before ++ history f es) := by
  cases h with
  | course hcourse hfits =>
    obtain ⟨q, hmoves, hq⟩ := hrequest.fits hfits
    exact .course (hcourse.append hmoves) hq
  | absent habsent =>
    have hrecord : w.record f = none := habsent.record
    cases hrequest with
    | quiet hquiet =>
      refine .absent ⟨?_, ?_, habsent.activity⟩
      · exact (hquiet.record f).trans hrecord
      · exact (World.tokens_quiet hquiet f).trans habsent.tokens
    | interrupt g =>
      by_cases hg : g = f
      · subst hg
        rw [(World.interrupt_of_absent hrecord).1, (World.interrupt_of_absent hrecord).2]
        exact .absent habsent
      · rw [World.history_interruptEvents_of_ne hg]
        exact .absent ⟨(World.record_interrupt_of_ne hg w).trans hrecord,
          (World.tokens_interrupt_of_ne hg w).trans habsent.tokens, habsent.activity⟩
    | settle callback x =>
      by_cases hg : callback.fiber = f
      · subst hg
        rw [(World.settle_of_absent hrecord x).1, (World.settle_of_absent hrecord x).2]
        exact .absent habsent
      · rw [World.history_settleEvents_of_ne hg]
        exact .absent ⟨(World.record_settle_of_ne hg x w).trans hrecord,
          (World.tokens_settle_of_ne hg x w).trans habsent.tokens, habsent.activity⟩
    | launch root hook =>
      by_cases hf : f = ⟨w.fibers.size⟩
      · subst hf
        rw [history_cons_self]
        exact .course (.launched root hook) habsent.launched
      · rw [history_cons_of_ne (Ne.symm hf)]
        refine .absent ⟨?_, (World.tokens_launch_of_ne hf).trans habsent.tokens, habsent.activity⟩
        show World.record _ _ = none
        rw [World.record, World.fiber?_launch_of_ne hf]
        exact hrecord

theorem Requests.accounted (hrequests : Requests w es v) {before : List Event}
    (h : Accounted f (w.view f a) before) : Accounted f (v.view f a) (before ++ history f es) := by
  induction hrequests generalizing before with
  | refl w =>
    rw [history_nil, List.append_nil]
    exact h
  | step first _ ih =>
    rw [history_append, ← List.append_assoc]
    exact ih (first.accounted h)

theorem Absent.foreign (h : Absent f (m.view f)) : Foreign f m := by
  obtain ⟨w, a⟩ := m
  refine ⟨fun e => ?_, fun hidle t rest hinbox ht => ?_⟩
  · have hactivity : a.of f = .idle := h.activity
    rw [Activity.of_self e] at hactivity
    rw [show a = .idle from hactivity] at e
    cases e
  · have htokens : w.tokens f = [] := h.tokens
    rw [World.tokens_of_inbox_self hinbox ht] at htokens
    cases htokens

/-- **Every step of the runtime keeps the accounts of each fiber.** -/
theorem Transition.accounted (htransition : Transition m es m') {before : List Event}
    (h : Accounted f (m.view f) before) : Accounted f (m'.view f) (before ++ history f es) := by
  cases h with
  | course hcourse hfits =>
    obtain ⟨q, hmoves, hq⟩ := htransition.fits hfits
    exact .course (hcourse.append hmoves) hq
  | absent habsent =>
    have hforeign := habsent.foreign
    obtain ⟨u, v, es', hbefore, hrequests, hafter, hes⟩ := htransition.unmoved hforeign
    rw [hforeign.view] at habsent
    rw [hes]
    exact (hrequests.accounted ((Accounted.absent habsent).alike hbefore)).alike hafter

theorem Transitions.accounted (htransitions : Transitions m es m') {before : List Event}
    (h : Accounted f (m.view f) before) : Accounted f (m'.view f) (before ++ history f es) := by
  induction htransitions with
  | refl =>
    rw [history_nil, List.append_nil]
    exact h
  | step _ last ih =>
    rw [history_append, ← List.append_assoc]
    exact last.accounted ih

/-- **In every run what has happened to a fiber is a course, and the moment shows the fiber at its end.** -/
theorem Reachable.accounted (h : Reachable es m) (f : FiberId) : Accounted f (m.view f) (history f es) := by
  obtain ⟨config, definitions, htransitions⟩ := h
  have hinitial : Accounted f (Moment.view f ⟨Scenario.initial config definitions, .idle⟩) [] := by
    rw [Moment.view_idle]
    exact .absent ⟨rfl, rfl, rfl⟩
  exact htransitions.accounted hinitial

end EveryFiber

end FiberLoop
