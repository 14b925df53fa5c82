import FiberLoop.Proofs.Permits.Idle

/-!
# Steps of fibers in no acquire

A fiber in no acquire takes its steps in the scope of what can be known, so they leave the acquires alone. Only a
closure that tries for a permit or releases one does not; such calls are treated elsewhere. An acquire begins when its
first step is taken.
-/

namespace FiberLoop

section Parts

variable {V : Scope} {s s' : Stand} {run : Run}

theorem Run.in_cons {frame : Frame} {rest : List Frame} {masks : Masks}
    (h : Run.In V { frames := frame :: rest, masks := masks }) (masks' : Masks) :
    (∀ d ∈ frame.mentions, V.mentions d) ∧ Run.In V { frames := rest, masks := masks' } :=
  List.forall_mem_append.1 h

/-- A chain in scope has both its parts in scope, unless it takes a permit or an item, or offers one through a gate. -/
theorem Effect.in_chain {source : Effect} {next : Continuation} (h : (Effect.chain source next).In V)
    (hredeemed : Effect.redeemed? source next = none) (hoffered : (Effect.chain source next).offered? = none) :
    source.In V ∧ next.In V := by
  simp only [Effect.In, Effect.mentions, hredeemed, hoffered] at h
  exact List.forall_mem_append.1 h

/-- Whether a fiber is about to begin an acquire. -/
def Stand.Begins (s : Stand) (sem : SemaphoreId) : Prop := s.next = .eval (.acquirePermit sem)

/-- Whether a fiber is about to ask for an item of a queue. -/
def Stand.Draws (s : Stand) (q : QueueId) : Prop := s.next = .eval (.takeItem q none)

/-- Whether a fiber is about to begin a take or an offer through a gate. -/
def Stand.Opens (s : Stand) (q : QueueId) (g : SemaphoreId) : Prop :=
  s.next = .eval (.takeItem q (some g)) ∨ ∃ v, s.next = .eval (.offerItem q (some g) v)

/-- What begins an acquire or a take asks for a ticket, so the scope has to allow that. What goes through a gate uses the
semaphore and then the queue without it. -/
theorem Stand.in_of_move (hrun : s.run.In V) (hnext : s.next.In V)
    (hbegins : ∀ sem, s.Begins sem → V.mentions .request) (hdraws : ∀ q, s.Draws q → V.mentions (.draw q))
    (hopens : ∀ q g, s.Opens q g → V.mentions (.through q (some g)) →
      V.mentions (.semaphore g) ∧ V.mentions (.through q none))
    (hdeed : s.deed = .move s') : s'.run.In V ∧ s'.next.In V := by
  obtain ⟨⟨frames, masks⟩, next⟩ := s
  cases next with
  | eval e =>
    cases e with
    | chain source k =>
      cases hdeed
      cases hredeemed : Effect.redeemed? source k with
      | none =>
        cases hoffered : (Effect.chain source k).offered? with
        | none =>
          obtain ⟨hsource, hk⟩ := Effect.in_chain hnext hredeemed hoffered
          exact ⟨Run.in_push.2 ⟨hk, hrun⟩, hsource⟩
        | some offered =>
          obtain ⟨q, g, v⟩ := offered
          cases Effect.offered?_eq_some hoffered
          obtain ⟨hq, hthrough, hv⟩ := Effect.in_offerItem.1 hnext
          obtain ⟨hg, hbare⟩ := hopens q g (Or.inr ⟨v, rfl⟩) hthrough
          exact ⟨Run.in_push.2 ⟨List.forall_mem_cons.2 ⟨hq, List.forall_mem_cons.2 ⟨hbare, hv⟩⟩, hrun⟩,
            List.forall_mem_singleton.2 hg⟩
      | some ms =>
        rcases Effect.redeemed?_eq_some hredeemed with ⟨sem, hacquire, rfl⟩ | ⟨q, gate, htake, rfl⟩
        · cases hacquire
          have hsem : V.mentions (.semaphore sem) := hnext _ List.mem_cons_self
          exact ⟨Run.in_push.2 ⟨Scope.nothing, hrun⟩,
            List.forall_mem_cons.2 ⟨hsem, List.forall_mem_singleton.2 (hbegins sem rfl)⟩⟩
        · rw [htake] at hnext hopens hdraws
          obtain ⟨hq, hthrough⟩ := Effect.in_takeItem.1 hnext
          cases gate with
          | none =>
            cases htake
            exact ⟨Run.in_push.2 ⟨Scope.nothing, hrun⟩,
              List.forall_mem_cons.2 ⟨hq, List.forall_mem_cons.2 ⟨hthrough, List.forall_mem_singleton.2 (hdraws q rfl)⟩⟩⟩
          | some g =>
            cases htake
            obtain ⟨hg, hbare⟩ := hopens q g (Or.inl rfl) hthrough
            have hframe : ∀ d ∈ [Mention.semaphore g, .queue q, .through q none], V.mentions d :=
              List.forall_mem_cons.2 ⟨hg, List.forall_mem_cons.2 ⟨hq, List.forall_mem_singleton.2 hbare⟩⟩
            exact ⟨Run.in_push.2 ⟨hframe, hrun⟩, List.forall_mem_singleton.2 hg⟩
    | fold source onValue onCause =>
      cases hdeed
      obtain ⟨hsource, hframe⟩ := List.forall_mem_append.1 hnext
      exact ⟨Run.in_push.2 ⟨hframe, hrun⟩, hsource⟩
    | currentLoop =>
      cases hdeed
      exact ⟨hrun, Scope.nothing⟩
    | region body status =>
      cases hdeed
      exact ⟨Run.in_enter.2 hrun, hnext⟩
    | _ => cases hdeed
  | value v | cause c =>
    cases frames with
    | nil => cases hdeed
    | cons frame rest =>
      cases frame with
      | chain | fold | region =>
        cases hdeed
        try exact ⟨(Run.in_cons hrun _).2, hnext⟩

theorem Stand.in_of_call {c : Call} (hrun : s.run.In V) (hnext : s.next.In V) (hdeed : s.deed = .call c run) :
    c.In V ∧ run.In V := by
  obtain ⟨⟨frames, masks⟩, next⟩ := s
  cases next with
  | eval e =>
    cases e with
    | succeeded v | caused c | complete x | suspend t =>
      cases hdeed
      exact ⟨hnext, hrun⟩
    | _ => cases hdeed
  | value v | cause c =>
    cases frames with
    | nil => cases hdeed
    | cons frame rest =>
      obtain ⟨hframe, hrest⟩ := Run.in_cons hrun masks
      cases frame with
      | chain k =>
        cases hdeed
        try exact ⟨List.forall_mem_append.2 ⟨hframe, hnext⟩, hrest⟩
      | fold onValue onCause =>
        cases hdeed
        obtain ⟨hvalue, hcause⟩ := List.forall_mem_append.1 hframe
        first
        | exact ⟨List.forall_mem_append.2 ⟨hvalue, hnext⟩, hrest⟩
        | exact ⟨List.forall_mem_append.2 ⟨hcause, hnext⟩, hrest⟩
      | region => cases hdeed

theorem Stand.in_of_register {r : Registration} (hnext : s.next.In V) (hdeed : s.deed = .register r) : r.In V := by
  obtain ⟨⟨frames, masks⟩, next⟩ := s
  cases next with
  | eval e =>
    cases e with
    | async r =>
      cases hdeed
      exact hnext
    | _ => cases hdeed
  | value v | cause c =>
    cases frames with
    | nil => cases hdeed
    | cons frame rest => cases frame <;> cases hdeed

theorem Stand.in_of_exit {x : Exit Value Value} (hnext : s.next.In V) (hdeed : s.deed = .exit x) :
    Value.ExitIn V x := by
  obtain ⟨⟨frames, masks⟩, next⟩ := s
  cases next with
  | eval e => cases e <;> cases hdeed
  | value v | cause c =>
    cases frames with
    | nil =>
      cases hdeed
      exact hnext
    | cons frame rest => cases frame <;> cases hdeed

theorem Next.in_ofExit {x : Exit Value Value} (h : Value.ExitIn V x) : (Next.ofExit x).In V := by
  cases x with
  | value v | cause c => exact h

end Parts

namespace Orderly

variable {σ : Engagements} {b : Books} {w w' : World} {a a' : Activity} {kept : List Effect} {f : FiberId} {left : Nat}
  {s : Stand} {run : Run}

/-- A fiber that is in the middle of something has a place. -/
theorem fits (h : Orderly σ b ⟨⟨w, a⟩, kept⟩) (ha : a.fiber? = some f) : ∃ p, Fits f (w.view f a) p := by
  rcases h.occurs.absent_or_fits f with habsent | ⟨p, hfits⟩
  · have hidle : a.of f = .idle := habsent.activity
    rw [Activity.of_self ha] at hidle
    rw [hidle] at ha
    cases ha
  · exact ⟨p, Moment.view_self ha ▸ hfits⟩

/-- A fiber that runs waits for no callback. -/
theorem not_listens (h : Orderly σ b ⟨⟨w, .running f left s⟩, kept⟩) {r : Fiber} (hr : w.fiber? f = some r) :
    r.phase = .running := by
  obtain ⟨p, hp⟩ := h.fits rfl
  obtain ⟨hstanding, -⟩ := hp.held.of_running
  have hphase : w.phase? f = some p.standing.phase := hp.phase?_eq
  rw [hstanding, World.phase?, hr] at hphase
  exact Option.some.inj hphase

theorem free_of_other {g : FiberId} (ha : a.fiber? = some f) (hf : σ f = none) (hg : σ g ≠ none) : a.of g = .idle :=
  Activity.of_other fun he => hg ((Option.some.inj (ha.symm.trans he)) ▸ hf)

/-- A step of a fiber that is in no acquire. -/
theorem visible (h : Orderly σ b ⟨⟨w, a⟩, kept⟩) (ha : a.fiber? = some f) (hf : σ f = none)
    (hminds : w.Minds σ b (fun _ => False) w') (hoccurs : Scene.Occurs ⟨⟨w', a'⟩, kept⟩)
    (ha' : a'.fiber? = some f ∨ a' = .idle) (hin : a'.In (w'.scope σ b)) :
    Undealt σ b ⟨⟨w, a⟩, kept⟩ ⟨⟨w', a'⟩, kept⟩ := by
  refine h.undealt hminds hoccurs hin (fun g hg => ?_) (h.kept_mono hminds)
  rw [free_of_other ha hf hg]
  rcases ha' with ha' | rfl
  · exact free_of_other ha' hf hg
  · exact Activity.of_other nofun

/-- A fiber that has used up its turn goes to the end of the queue. -/
theorem yield (h : Orderly σ b ⟨⟨w, .running f 0 s⟩, kept⟩)
    (hoccurs : Scene.Occurs ⟨⟨w.dispatch (.resume f s.run s.next), .idle⟩, kept⟩) :
    Undealt σ b ⟨⟨w, .running f 0 s⟩, kept⟩ ⟨⟨w.dispatch (.resume f s.run s.next), .idle⟩, kept⟩ := by
  have htask : (Task.resume f s.run s.next).In (w.scope σ b) := h.activity
  cases hf : σ f with
  | none =>
    exact h.visible rfl hf (h.calm.dispatch htask rfl fun g hg _ => World.ne_of_engaged hf hg) hoccurs (Or.inr rfl)
      trivial
  | some E =>
    have hdispatch : w.Minds σ b (· = f) (w.dispatch (.resume f s.run s.next)) :=
      h.calm.dispatch htask rfl fun g _ hg he => hg he.symm
    obtain ⟨ask, ws, p, hat⟩ := h.engaged f E hf
    refine h.own hf hdispatch hoccurs (Or.inl rfl) (Or.inr rfl) ⟨ask, ws, p, elsewhere hat hdispatch (fun _ => rfl) trivial ?_⟩
    rw [Moment.view_idle]
    exact (hat.fits_self rfl).yield

/-! ## Calls -/

/-- The same world, and the fiber is at another stand in scope. -/
theorem stand (h : Orderly σ b ⟨⟨w, .running f (left + 1) s⟩, kept⟩) (hf : σ f = none) {s' : Stand}
    (hoccurs : Scene.Occurs ⟨⟨w, .running f left s'⟩, kept⟩) (hrun : s'.run.In (w.scope σ b))
    (hnext : s'.next.In (w.scope σ b)) :
    Undealt σ b ⟨⟨w, .running f (left + 1) s⟩, kept⟩ ⟨⟨w, .running f left s'⟩, kept⟩ :=
  h.visible rfl hf h.calm.refl hoccurs (Or.inl rfl) fun _ => ⟨hrun, hnext⟩

/-- A closure that deals with no permits books nothing. -/
theorem record_eq (h : Orderly σ b ⟨⟨w, a⟩, kept⟩) (hf : σ f = none) {c : Call} (hc : c.In (w.scope σ b))
    (hdeals : c.deals = false) : b.record f c w = b := by
  have hclaim : b.claim? f = none := by
    refine List.find?_eq_none.2 fun c hc he => ?_
    exact h.books.engaged c hc ((of_decide_eq_true he) ▸ hf)
  cases c with
  | thunk t =>
    cases t with
    | perform o =>
      cases o with
      | requestPermit s => exact (hc .request (by simp [Call.mentions])).elim
      | abandonPermit s l => exact (hc (.place l) (by simp [Call.mentions])).elim
      | tryAcquire s => cases hdeals
      | releasePermit s => cases hdeals
      | _ => rfl
    | _ => rfl
  | bind k v =>
    cases k with
    | releaseResource release resource =>
      cases release with
      | cleanup =>
        cases v with
        | exit x =>
          simp only [Books.record]
          rw [hclaim]
        | _ => rfl
      | _ => rfl
    | _ => rfl
  | _ => rfl

theorem call (h : Orderly σ b ⟨⟨w, .running f (left + 1) s⟩, kept⟩) (hf : σ f = none) {c : Call}
    (hdeed : s.deed = .call c run) (hdeals : c.deals = false)
    (hoccurs : Scene.Occurs ⟨⟨(w.called c run).2, .running f left (w.called c run).1⟩, kept⟩) :
    Undealt σ b ⟨⟨w, .running f (left + 1) s⟩, kept⟩
      ⟨⟨(w.called c run).2, .running f left (w.called c run).1⟩, kept⟩ := by
  obtain ⟨hrun, hnext⟩ := h.activity hf
  obtain ⟨hc, hrest⟩ := Stand.in_of_call hrun hnext hdeed
  obtain ⟨hminds, hresult⟩ := h.calm.call (X := fun _ => False) hc hdeals run
  exact h.visible rfl hf hminds hoccurs (Or.inl rfl) fun _ =>
    ⟨fun d hd => hminds.grows.mentions d (hrest d hd), hresult⟩

/-! ## Registrations -/

theorem register (h : Orderly σ b ⟨⟨w, .running f (left + 1) s⟩, kept⟩) (hf : σ f = none) {r : Registration}
    (hdeed : s.deed = .register r) {epoch : Nat}
    (hoccurs : Scene.Occurs ⟨⟨w.advanceEpoch f (.registering none), .registering f left s.run r epoch⟩, kept⟩) :
    Undealt σ b ⟨⟨w, .running f (left + 1) s⟩, kept⟩
      ⟨⟨w.advanceEpoch f (.registering none), .registering f left s.run r epoch⟩, kept⟩ := by
  obtain ⟨hrun, hnext⟩ := h.activity hf
  have hminds : w.Minds σ b (fun _ => False) (w.advanceEpoch f (.registering none)) :=
    h.calm.advanceEpoch hf Scope.nothing
  refine h.visible rfl hf hminds hoccurs (Or.inl rfl) fun _ => ⟨?_, ?_⟩
  · exact fun d hd => hminds.grows.mentions d (hrun d hd)
  · exact fun d hd => hminds.grows.mentions d (Stand.in_of_register hnext hdeed d hd)

/-- The callback of a registration of a fiber in no acquire may be known. -/
theorem callback_in (h : Orderly σ b ⟨⟨w, a⟩, kept⟩) {r : Registration} {epoch : Nat}
    (ha : a = .registering f left run r epoch) (hf : σ f = none) : (w.scope σ b).callback ⟨f, epoch⟩ := by
  subst ha
  obtain ⟨p, hp⟩ := h.fits rfl
  obtain ⟨home, hrecord⟩ := hp.record
  obtain ⟨⟨early, hstanding⟩, -, rfl⟩ := hp.held.of_registering
  refine Or.inr ⟨(World.epoch_of_record hrecord).symm, ?_, hf⟩
  rw [World.listens, World.phase?_of_record hrecord, Place.phase_record, hstanding]
  rfl

theorem beginRegistration (h : Orderly σ b ⟨⟨w, a⟩, kept⟩) {r : Registration} {epoch : Nat}
    (ha : a = .registering f left run r epoch) (hf : σ f = none)
    (hoccurs : Scene.Occurs ⟨w.beginRegistration f left run r epoch, kept⟩) :
    Undealt σ b ⟨⟨w, a⟩, kept⟩ ⟨w.beginRegistration f left run r epoch, kept⟩ := by
  have hcallback := h.callback_in ha hf
  subst ha
  obtain ⟨hrun, hr⟩ := h.activity hf
  obtain ⟨hminds, hresult⟩ := h.calm.caught (X := fun _ => False)
    (Tracks.registration (J := Confining (w.scope σ b)) hr hcallback (fun _ => trivial) fun _ => trivial)
  have hrun' := fun d hd => hminds.grows.mentions d (hrun d hd)
  unfold World.beginRegistration at hoccurs ⊢
  cases hcaught : (r.run ⟨f, epoch⟩).caught w with
  | mk result v =>
    rw [hcaught] at hminds hresult hoccurs hrun'
    cases result with
    | error d =>
      have hend : v.Minds σ b (fun _ => False) (v.advanceEpoch f .running) :=
        (hminds.calm h.calm).advanceEpoch hf Scope.nothing
      refine h.visible rfl hf (hminds.trans hend) hoccurs (Or.inl rfl) fun _ => ⟨?_, Scope.nothing⟩
      exact fun d hd => hend.grows.mentions d (hrun' d hd)
    | ok canceler =>
      refine h.visible rfl hf hminds hoccurs (Or.inl rfl) fun _ => ⟨hrun', ?_⟩
      exact fun d hd => hminds.grows.mentions d ((hresult canceler rfl).1 d hd)

theorem leaveRegistration (h : Orderly σ b ⟨⟨w, a⟩, kept⟩) {canceler : Canceler}
    (ha : a = .returning f left run canceler) (hf : σ f = none)
    (hoccurs : Scene.Occurs ⟨w.leaveRegistration f left run canceler, kept⟩) :
    Undealt σ b ⟨⟨w, a⟩, kept⟩ ⟨w.leaveRegistration f left run canceler, kept⟩ := by
  subst ha
  obtain ⟨hrun, hcanceler⟩ := h.activity hf
  have hend : w.Minds σ b (fun _ => False) (w.advanceEpoch f .running) := h.calm.advanceEpoch hf Scope.nothing
  have hrun' := fun d hd => hend.grows.mentions d (hrun d hd)
  unfold World.leaveRegistration at hoccurs ⊢
  split at hoccurs
  · rename_i x hphase
    obtain ⟨r, hr, hregistering⟩ := Option.map_eq_some_iff.1 hphase
    have hx := h.confined.fibers f r hr hf
    rw [hregistering] at hx
    exact h.visible rfl hf hend hoccurs (Or.inl rfl) fun _ =>
      ⟨hrun', Next.in_ofExit fun d hd => hend.grows.mentions d (hx d hd)⟩
  · by_cases hpending : w.interruptPending f run.masks = true
    · rw [if_pos hpending] at hoccurs ⊢
      exact h.visible rfl hf hend hoccurs (Or.inl rfl) fun _ =>
        ⟨hrun', fun d hd => hend.grows.mentions d (hcanceler d hd)⟩
    · rw [if_neg hpending] at hoccurs ⊢
      refine h.visible rfl hf ?_ hoccurs (Or.inr rfl) trivial
      exact h.calm.modifyFiber hf _ (fun _ _ => List.forall_mem_append.2 ⟨hrun, hcanceler⟩)
        (fun _ _ hr => h.calm.notice_in hr) (fun r => Nat.le_refl r.epoch) fun _ _ => Or.inr ⟨rfl, fun _ => rfl⟩
  · exact h.visible rfl hf h.calm.refl hoccurs (Or.inl rfl) fun _ => ⟨hrun, Scope.nothing⟩

theorem cancel (h : Orderly σ b ⟨⟨w, .canceling f left run canceler⟩, kept⟩) (hf : σ f = none)
    (hoccurs : Scene.Occurs ⟨⟨canceler.cancel.attempt w, .running f left ⟨run, .cause .interrupted⟩⟩, kept⟩) :
    Undealt σ b ⟨⟨w, .canceling f left run canceler⟩, kept⟩
      ⟨⟨canceler.cancel.attempt w, .running f left ⟨run, .cause .interrupted⟩⟩, kept⟩ := by
  obtain ⟨hrun, hcanceler⟩ := h.activity hf
  have hminds := h.calm.attempt (X := fun _ => False)
    (Tracks.canceler (J := Confining (w.scope σ b)) hcanceler fun _ => trivial)
  exact h.visible rfl hf hminds hoccurs (Or.inl rfl) fun _ =>
    ⟨fun d hd => hminds.grows.mentions d (hrun d hd), Scope.nothing⟩

/-! ## Exits -/

theorem markDone (h : Orderly σ b ⟨⟨w, .running f left s⟩, kept⟩) (hf : σ f = none) (x : Exit Value Value) :
    w.Minds σ b (fun _ => False) (w.markDone f x) :=
  h.calm.modifyFiber hf _ (fun _ _ => Scope.nothing) (fun _ _ hr => h.calm.notice_in hr)
    (fun r => Nat.le_refl r.epoch) fun r hr => Or.inr ⟨rfl, fun hlistens => by
      rw [h.not_listens hr] at hlistens
      cases hlistens⟩

/-- An exit is told. -/
theorem tell (h : Orderly σ b ⟨⟨w, .exiting f x hook⟩, kept⟩) (hf : σ f = none)
    (hoccurs : Scene.Occurs ⟨⟨(hook.run f x).attempt w, .idle⟩, kept⟩) :
    Undealt σ b ⟨⟨w, .exiting f x hook⟩, kept⟩ ⟨⟨(hook.run f x).attempt w, .idle⟩, kept⟩ := by
  have hx : Value.ExitIn (w.scope σ b) x := h.activity hf
  refine h.visible rfl hf ?_ hoccurs (Or.inr rfl) trivial
  by_cases hpublish : hook = .publish
  · subst hpublish
    by_cases hpending : ∃ listeners key, w.notice? f = some (.pending listeners key)
    · obtain ⟨listeners, key, hnotice⟩ := hpending
      rw [World.attempt_publish hnotice]
      have hset : w.Minds σ b (fun _ => False) (w.setNotice f (.done x)) := h.calm.setNotice hf hx
      have hlisteners : ∀ l ∈ listeners, l.2.In (w.scope σ b) := h.confined.notices f _ hnotice
      refine hset.trans ((hset.calm h.calm).attempt (Tracks.forM (J := Confining _) listeners fun l hl => ?_))
      exact Tracks.notify ((hlisteners l hl).mono hset.grows) fun d hd => hset.grows.mentions d (hx d hd)
    · rw [World.attempt_publish_of_not_pending fun listeners key hnotice => hpending ⟨listeners, key, hnotice⟩]
      exact h.calm.refl
  · exact h.calm.attempt (Tracks.exitHook (J := Confining (w.scope σ b)) f hx (fun _ _ => trivial) fun he => absurd he hpublish)

end Orderly

end FiberLoop
