import FiberLoop.Proofs.Permits.Exclusion
import FiberLoop.Proofs.Queues.Lining

/-!
# The course of an offer

The offer of a list is a chain of offers that nests to the left: the fiber first goes down to its beginning, where it
can be interrupted, and then offers one item after the other. Each item that goes to a queue with a gate waits for a
permit, and can be interrupted only there; from the grant to the placement no step can be cut. `Offer.Stands` lists the
places at which a fiber can be meanwhile, with the items that it has presented and the permits that it has kept so far.

The main results of this module are `Offer.Stands.next`, what comes after each of them, `Offer.Stands.uses`, that the
queue is used only to add the next item, and `Offer.Stands.of_exit`, how an offer ends.
-/

namespace FiberLoop

open Engagement Semaphore

namespace Stand

/-- An effect that is followed by another one is no acquire. -/
theorem not_begins_andThen {e e' : Effect} {run : Run} {sem : SemaphoreId} :
    ¬ Stand.Begins ⟨run, .eval (e.andThen e')⟩ sem := by
  intro hbegins
  injection hbegins with heval
  injection heval with _ hnext
  cases hnext

/-- A fiber that comes out of an effect uses no queue. -/
theorem not_uses_of_exit {run run' : Run} {x : Exit Value Value} {c : Call} {q : QueueId}
    (hdeed : (⟨run, .ofExit x⟩ : Stand).deed = .call c run') : ¬ c.uses q := by
  rintro (hqueue | rfl)
  · obtain ⟨frames, masks⟩ := run
    cases x with
    | value v | cause y =>
      cases frames with
      | nil => cases hdeed
      | cons frame rest =>
        cases frame with
        | region => cases hdeed
        | chain | fold =>
          cases hdeed <;> cases hqueue
  · have hs := Stand.of_thunk hdeed
    cases x <;> cases hs

end Stand

/-- An offer of some items: the run around it, the queue, the gate of the queue and the items. -/
structure Offer where
  base : Run
  queue : QueueId
  gate : Option SemaphoreId
  items : List Value

namespace Offer

variable (O : Offer)

/-- Add an item for which there is room. -/
def put (v : Value) : Effect := (Effect.perform (.offerItem O.queue v)).uninterruptible

/-- The offer of one of the items. -/
def one (v : Value) : Effect := .offerItem O.queue O.gate v

/-- The offer of some of the items. -/
def all (vs : List Value) : Effect := .offerItems O.queue O.gate vs

/-- The effects that offer the items. -/
inductive Is : Effect → Prop where
  | all : Is (O.all O.items)
  | one {v : Value} (h : O.items = [v]) : Is (O.one v)

/-- The number of permits that it takes to add so many items. -/
def cost (n : Nat) : Nat := if O.gate.isSome then n else 0

/-! ## The stacks -/

/-- The run on which an item is offered before some others. -/
def before (rest : List Value) : Run := rest.foldr (fun v run => run.push (.chain (.proceed (O.one v)))) O.base

/-- The run on which a permit is acquired for an item. -/
def waiting (v : Value) (rest : List Value) : Run := (O.before rest).push (.chain (.proceed (O.put v)))

def placing (rest : List Value) : Run := (O.before rest).enter .uninterruptible

/-! ## The stands -/

/-- Where a fiber can stand during an offer but for the acquires, with what it has presented and how many permits it
has kept for that. -/
inductive Stands : List Value → Nat → Stand → Prop where
  | descending {pre rest : List Value} (h : O.items = pre ++ rest) : Stands [] 0 ⟨O.before rest, .eval (O.all pre)⟩
  | turning {pre rest : List Value} (h : O.items = pre ++ rest) :
    Stands pre (O.cost pre.length) ⟨O.before rest, .value .null⟩
  | offering {pre : List Value} {v : Value} {rest : List Value} (h : O.items = pre ++ v :: rest) :
    Stands pre (O.cost pre.length) ⟨O.before rest, .eval (O.one v)⟩
  | asking {pre : List Value} {v : Value} {rest : List Value} {g : SemaphoreId} (hgate : O.gate = some g)
    (h : O.items = pre ++ v :: rest) : Stands pre (O.cost pre.length) ⟨O.waiting v rest, .eval (.acquirePermit g)⟩
  | granted {pre : List Value} {v : Value} {rest : List Value} (h : O.items = pre ++ v :: rest) :
    Stands pre (O.cost (pre.length + 1)) ⟨O.waiting v rest, .value .null⟩
  | admitted {pre : List Value} {v : Value} {rest : List Value} (h : O.items = pre ++ v :: rest) :
    Stands pre (O.cost (pre.length + 1)) ⟨O.before rest, .eval (O.put v)⟩
  | placing {pre : List Value} {v : Value} {rest : List Value} (h : O.items = pre ++ v :: rest) :
    Stands pre (O.cost (pre.length + 1)) ⟨O.placing rest, .eval (.perform (.offerItem O.queue v))⟩
  | placed {pre rest : List Value} (h : O.items = pre ++ rest) :
    Stands pre (O.cost pre.length) ⟨O.placing rest, .value .null⟩
  | refused {pre : List Value} {v : Value} {rest : List Value} (h : O.items = pre ++ v :: rest) :
    Stands pre (O.cost pre.length) ⟨O.waiting v rest, .cause .interrupted⟩
  | unwinding {pre rest : List Value} (hpre : pre <+: O.items) (hshort : pre = O.items → O.items = []) :
    Stands pre (O.cost pre.length) ⟨O.before rest, .cause .interrupted⟩

/-- What a fiber does next during an offer but for the acquires. -/
inductive Does (pre : List Value) (n : Nat) (s : Stand) : Prop where
  | go {s' : Stand} (hgoes : s.Goes s') (h : O.Stands pre n s') (hbegins : ∀ sem, ¬ s.Begins sem)
    (hplaces : ∀ q v, s.next ≠ .eval (.perform (.offerItem q v)))
  /-- The first item is next, unless the fiber is interrupted. -/
  | start (hpre : pre = []) (hn : n = 0) (hs : s = ⟨O.before O.items, .eval .unitValue⟩)
  /-- A permit is acquired. -/
  | acquire {g : SemaphoreId} {v : Value} {rest : List Value} (hgate : O.gate = some g)
    (h : O.items = pre ++ v :: rest) (hn : n = O.cost pre.length)
    (hs : s = ⟨O.waiting v rest, .eval (.acquirePermit g)⟩)
  /-- An item is presented. -/
  | place {v : Value} {rest : List Value} (h : O.items = pre ++ v :: rest) (hn : n = O.cost (pre.length + 1))
    (hs : s = ⟨O.placing rest, .eval (.perform (.offerItem O.queue v))⟩)
  /-- All items were presented. -/
  | done (hpre : pre = O.items) (hs : s = ⟨O.base, .value .null⟩)
  /-- The fiber was interrupted before. -/
  | gone (hpre : pre <+: O.items) (hshort : pre = O.items → O.items = []) (hs : s = ⟨O.base, .cause .interrupted⟩)

variable {O} {pre rest : List Value} {n : Nat} {s : Stand} {v : Value} {e : Effect}

theorem all_concat (pre : List Value) (v : Value) : O.all (pre ++ [v]) = (O.all pre).andThen (O.one v) := by
  rw [all, Effect.offerItems, List.foldl_append]
  rfl

theorem one_of_gate {g : SemaphoreId} (h : O.gate = some g) (v : Value) :
    O.one v = (Effect.acquirePermit g).andThen (O.put v) := by
  rw [one, h]
  rfl

theorem one_of_no_gate (h : O.gate = none) (v : Value) : O.one v = O.put v := by
  rw [one, h]
  rfl

theorem cost_of_gate {g : SemaphoreId} (h : O.gate = some g) (n : Nat) : O.cost n = n := by
  rw [cost, h]
  rfl

theorem cost_of_no_gate (h : O.gate = none) (n : Nat) : O.cost n = 0 := by
  rw [cost, h]
  rfl

/-- An offer begins where none of its items was presented. -/
theorem Is.stands (h : O.Is e) : O.Stands [] 0 ⟨O.base, .eval e⟩ := by
  cases h with
  | all =>
    have hall : O.Stands [] 0 ⟨O.before [], .eval (O.all O.items)⟩ := .descending (List.append_nil _).symm
    exact hall
  | one h =>
    rename_i v
    have hcost : O.cost 0 = 0 := ite_self 0
    have hone : O.Stands [] (O.cost 0) ⟨O.before [], .eval (O.one v)⟩ := @Stands.offering O [] v [] h
    exact hcost ▸ hone

theorem masked_placing (rest : List Value) : (O.placing rest).masks.isInterruptible = false :=
  Masks.isInterruptible_push_uninterruptible _

/-- **What comes after each stand.** -/
theorem Stands.next (h : O.Stands pre n s) : O.Does pre n s := by
  cases h with
  | @descending pre' rest h =>
    rcases List.eq_nil_or_concat pre' with rfl | ⟨front, v, rfl⟩
    · cases h
      exact .start rfl rfl rfl
    · rw [List.concat_eq_append, all_concat]
      have hfront : O.Stands [] 0 ⟨O.before (v :: rest), .eval (O.all front)⟩ := .descending (by simpa using h)
      exact .go (.move rfl) hfront (fun _ => Stand.not_begins_andThen) nofun
  | @turning pre rest h =>
    cases rest with
    | nil => exact .done ((List.append_nil pre).symm.trans h.symm) rfl
    | cons v rest =>
      exact .go (.call rfl (Or.inl rfl) (fun _ => rfl) fun _ _ _ => rfl) (.offering h) nofun nofun
  | @offering pre v rest h =>
    cases hgate : O.gate with
    | none =>
      rw [one_of_no_gate hgate, cost_of_no_gate hgate, ← cost_of_no_gate hgate (pre.length + 1)]
      exact .go (.move rfl) (.placing h) nofun nofun
    | some g =>
      rw [one_of_gate hgate]
      exact .go (.move rfl) (.asking hgate h) nofun nofun
  | asking hgate h => exact .acquire hgate h rfl rfl
  | granted h => exact .go (.call rfl (Or.inl rfl) (fun _ => rfl) fun _ _ _ => rfl) (.admitted h) nofun nofun
  | admitted h => exact .go (.move rfl) (.placing h) nofun nofun
  | placing h => exact .place h rfl rfl
  | placed h => exact .go (.move rfl) (.turning h) nofun nofun
  | @refused pre v rest h =>
    refine .go (.move rfl) (.unwinding ⟨_, h.symm⟩ fun hsame => ?_) nofun nofun
    rw [hsame] at h
    cases List.self_eq_append_right.1 h
  | @unwinding pre rest hpre hshort =>
    cases rest with
    | nil => exact .gone hpre hshort rfl
    | cons v rest => exact .go (.move rfl) (.unwinding hpre hshort) nofun nofun

/-! ## What an offer does to its queue -/

/-- What was presented is a beginning of the list. -/
theorem Stands.isPrefix (h : O.Stands pre n s) : pre <+: O.items := by
  cases h with
  | descending => exact List.nil_prefix
  | turning h | offering h | asking _ h | granted h | admitted h | placing h | placed h | refused h => exact ⟨_, h.symm⟩
  | unwinding hpre => exact hpre

theorem isPrefix_concat (h : O.items = pre ++ v :: rest) : pre ++ [v] <+: O.items :=
  ⟨rest, by rw [h, List.append_assoc]; rfl⟩

/-- **The only use that an offer makes of a queue is to present the next item.** -/
theorem Stands.uses (h : O.Stands pre n s) {c : Call} {run : Run} (hdeed : s.deed = .call c run) {q : QueueId}
    (huses : c.uses q) : ∃ v, c = .thunk (.perform (.offerItem O.queue v)) ∧ pre ++ [v] <+: O.items := by
  cases h with
  | @descending pre' rest =>
    rcases List.eq_nil_or_concat pre' with rfl | ⟨front, v, rfl⟩
    · cases hdeed
      rcases huses with hqueue | hrequest
      · cases hqueue
      · cases hrequest
    · rw [List.concat_eq_append, all_concat] at hdeed
      cases hdeed
  | offering =>
    cases hgate : O.gate with
    | none =>
      rw [one_of_no_gate hgate] at hdeed
      cases hdeed
    | some g =>
      rw [one_of_gate hgate] at hdeed
      cases hdeed
  | asking | admitted => cases hdeed
  | placing h =>
    cases hdeed
    exact ⟨_, rfl, isPrefix_concat h⟩
  | turning | granted | placed => exact absurd huses (Stand.not_uses_of_exit (x := .value .null) hdeed)
  | refused | unwinding => exact absurd huses (Stand.not_uses_of_exit (x := .interrupted) hdeed)

/-! ## The ends of an offer -/

theorem length_before (rest : List Value) : (O.before rest).frames.length = O.base.frames.length + rest.length := by
  induction rest with
  | nil => rfl
  | cons v rest ih => exact congrArg (· + 1) ih

theorem eq_nil_of_before (h : (O.before rest).frames.length = O.base.frames.length) : rest = [] := by
  rw [length_before] at h
  exact List.eq_nil_of_length_eq_zero (Nat.add_left_cancel (h.trans (Nat.add_zero _).symm))

/-- **Where an offer has ended**, all items were presented, or the fiber was interrupted before that; and the permits
that it has kept are those for what it has presented. -/
theorem Stands.of_exit {x : Exit Value Value} (h : O.Stands pre n ⟨O.base, .ofExit x⟩) : n = O.cost pre.length ∧
    (x = .value .null ∧ pre = O.items ∨ x = .interrupted ∧ (pre = O.items → O.items = [])) := by
  generalize hs : (⟨O.base, .ofExit x⟩ : Stand) = s at h
  have hlength : s.run.frames.length = O.base.frames.length := hs ▸ rfl
  have hnext : s.next = .ofExit x := hs ▸ rfl
  have heval (e : Effect) : Next.eval e ≠ .ofExit x := by cases x <;> exact Next.noConfusion
  have hexit {y : Exit Value Value} (hy : Next.ofExit y = .ofExit x) : x = y := by
    cases x <;> cases y <;> cases hy <;> rfl
  cases h with
  | descending | offering | asking | admitted | placing => exact absurd hnext (heval _)
  | @turning pre rest h =>
    cases eq_nil_of_before hlength
    exact ⟨rfl, Or.inl ⟨hexit (y := .value .null) hnext, (List.append_nil pre).symm.trans h.symm⟩⟩
  | @unwinding pre rest hpre hshort => exact ⟨rfl, Or.inr ⟨hexit (y := .interrupted) hnext, hshort⟩⟩
  | granted | placed | refused =>
    simp only [waiting, Offer.placing, Run.push, Run.enter, List.length_cons, length_before] at hlength
    omega

end Offer

/-! ## Acquires -/

mutual

/-- Whether the last thing that an effect does is to add an item to a queue. -/
def Effect.places : Effect → Bool
  | .suspend (.perform (.offerItem ..)) => true
  | .region body _ => body.places
  | .chain _ next => next.places
  | _ => false

def Continuation.places : Continuation → Bool
  | .proceed next => next.places
  | _ => false

end

namespace Offer

variable {O : Offer} {e : Effect}

theorem places_one (O : Offer) (v : Value) : (O.one v).places = true := by
  unfold one Effect.offerItem
  cases O.gate <;> rfl

theorem Is.places (h : O.Is e) : O.items = [] ∨ e.places = true := by
  cases h with
  | one => exact Or.inr (places_one O _)
  | all =>
    rcases List.eq_nil_or_concat O.items with hnil | ⟨front, v, hitems⟩
    · exact Or.inl hnil
    · rw [hitems, List.concat_eq_append, all_concat]
      exact Or.inr (places_one O v)

end Offer

namespace Engagement

variable {E : Engagement} {requested : Bool} {done : DeferredId → Prop} {ask : Ask} {s : Stand}

/-- An acquire adds no item to a queue. -/
theorem Stands.not_places (h : E.Stands requested done ask s) {e : Effect} (he : s.next = .eval e) :
    e.places = false := by
  have hexit {run : Run} {x : Exit Value Value} (hs : (⟨run, .ofExit x⟩ : Stand).next = .eval e) :
      e.places = false := by
    cases x <;> cases hs
  cases h with
  | asking | requesting | bracketed | guarded | redeeming | releasing | resuming =>
    cases he
    rfl
  | given | brought | told | released | cleaned => cases he
  | ended | leaving => exact hexit he
  | waiting t =>
    cases t <;> cases he <;> rfl
  | closing h | shut h =>
    cases he
    rfl
  | cleaning h =>
    cases he
    cases h with
    | kept => rfl
    | undo t => cases t <;> rfl

/-- An acquire uses no queue. -/
theorem Stands.not_uses (h : E.Stands requested done ask s) {c : Call} {run : Run} (hdeed : s.deed = .call c run)
    (q : QueueId) : ¬ c.uses q := by
  have hplain (hqueue : c.queue? ≠ some q) (hrequest : c ≠ .thunk (.perform (.requestItem q))) : ¬ c.uses q :=
    not_or.2 ⟨hqueue, hrequest⟩
  cases h with
  | asking | bracketed | guarded | closing | shut => cases hdeed
  | requesting | redeeming | releasing | resuming =>
    cases hdeed
    exact hplain nofun nofun
  | given | brought | told | released | cleaned => exact Stand.not_uses_of_exit (x := .value _) hdeed
  | ended | leaving => exact Stand.not_uses_of_exit hdeed
  | waiting t =>
    cases t with
    | none =>
      cases hdeed
      exact hplain nofun nofun
    | some l => cases hdeed
  | cleaning h =>
    cases h with
    | kept =>
      cases hdeed
      exact hplain nofun nofun
    | undo t =>
      cases t with
      | none => cases hdeed
      | some l =>
        cases hdeed
        exact hplain nofun nofun

end Engagement

end FiberLoop
