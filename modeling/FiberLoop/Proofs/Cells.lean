import FiberLoop.Proofs.Queues.Withholding
import FiberLoop.Proofs.Runtime.Disregarding

/-!
# Cells

Operations on a cell take turns: each of them is one closure that a fiber calls, and nothing but these closures writes
to a cell. So in every run a cell holds what the operations on it make of what it held, one after the other in the order
in which the run carries them out, and each of them yields what it yields in that order (`Scene.Occurs.serial`).

An operation that throws leaves its cell as it was, apart from `Operation.modifyCell`: that one writes the new state
before it computes its result, so it may throw when the state is written (`Operation.turn_of_error`). An operation at
which its fiber is interrupted has no turn. So in a run in which no modify throws, the operations that succeed are all
that counts (`Serial.successes`).
-/

namespace FiberLoop

/-! ## Whatever is no operation on a cell -/

namespace World

variable {c c' : CellId} {w : World} {old : Value}

/-- A cell that is there holds what it held. -/
def KeepsCell (c : CellId) (w w' : World) : Prop := ∀ v, w.cell? c = some v → w'.cell? c = some v

theorem cell?_makeCell (h : w.cell? c = some old) (initial : Value) : (w.makeCell initial).2.cell? c = some old := by
  have hlt : c.index < w.stores.cells.size := (Table.isSome_get?_iff _ _).1 (Option.isSome_of_eq_some h)
  show (w.stores.cells.push initial).get? c.index = some old
  rw [Table.get?_push, if_neg (Nat.ne_of_lt hlt)]
  exact h

theorem cell?_setCell_of_ne (h : c' ≠ c) (w : World) (v : Value) : (w.setCell c' v).cell? c = w.cell? c := by
  have hindex : c'.index ≠ c.index := fun heq => h (by cases c'; cases c; cases heq; rfl)
  show (w.stores.cells.set c'.index v).get? c.index = w.stores.cells.get? c.index
  rw [Table.get?_set, if_neg hindex]

/-- To count a throw that was caught changes no cell. -/
theorem cell?_caught {α : Type} (act : Act α) (w : World) (c : CellId) :
    (act.caught w).2.cell? c = (act.run w).2.cell? c := by
  unfold Act.caught
  split
  · rename_i hrun
    rw [hrun]
  · rename_i hrun
    rw [hrun]
    rfl

end World

instance (c : CellId) : Disregards (World.KeepsCell c) where
  books hcells _ v h := by
    rw [← h]
    exact congrArg (fun cells : Table Value => cells.get? c.index) hcells
  makeCell _ _ _ h := World.cell?_makeCell h _
  trans first second v h := second v (first v h)

namespace Operation

variable {c : CellId} {o : Operation}

/-- The cell that an operation reads or writes. -/
def cell? : Operation → Option CellId
  | .getCell c => some c
  | o => o.writes?

theorem cell?_of_writes (h : o.writes? = some c) : o.cell? = some c := by
  cases o with
  | setCell _ _ | updateCell _ _ _ _ | updateAndGetCell _ _ _ _ | modifyCell _ _ _ _ _ => exact h
  | _ => cases h

/-- An operation that does not write to a cell keeps what the cell holds. -/
theorem keepsCell (h : o.writes? ≠ some c) : o.perform.Keeps (World.KeepsCell c) :=
  (TracksAll.operation_of (J := Keeping (World.KeepsCell c)) o fun c' hc' v => Keeping.update fun w old hold => by
    have hne : c' ≠ c := fun heq => h (heq ▸ hc')
    rw [World.cell?_setCell_of_ne hne]
    exact hold).keeps

end Operation

/-- A closure keeps what a cell holds if it performs no operation that writes to it. -/
theorem Call.keepsCell {c : CellId} {call : Call} (h : ∀ o, call = .thunk (.perform o) → o.writes? ≠ some c) :
    call.act.Keeps (World.KeepsCell c) :=
  (TracksAll.call_of (J := Keeping (World.KeepsCell c)) call fun o ho w =>
    ⟨Operation.keepsCell (h o ho) w, fun _ _ => trivial⟩).keeps

/-! ## Turns -/

namespace World

/-- What an operation answers that computes a new state from the old one and then its answer, and what its cell holds
then. The old state stays if the new one cannot be computed. -/
def transact (w : World) (old : Value) (state : Act Value) (answer : Value → World → Except Defect Value) :
    Except Defect Value × Value :=
  match state.run w with
  | (.ok new, w) => (answer new w, new)
  | (.error d, _) => (.error d, old)

variable {w : World} {c : CellId} {old : Value}

/-- A closure that computes a new state, writes it and goes on does just that. -/
theorem run_eq_transact {state : Act Value} (hstate : state.Keeps (KeepsCell c)) {rest : Value → Act Value}
    (hrest : ∀ v, (rest v).Keeps (KeepsCell c)) (hold : w.cell? c = some old) :
    let result := (state >>= fun new => Act.update (World.setCell c new) >>= fun _ => rest new).run w
    let turn := w.transact old state fun new w => ((rest new).run (w.setCell c new)).1
    result.1 = turn.1 ∧ result.2.cell? c = some turn.2 := by
  have hkept := hstate w old hold
  unfold transact
  rw [Act.run_bind]
  cases hrun : state.run w with
  | mk result v =>
    rw [hrun] at hkept
    cases result with
    | error d => exact ⟨rfl, hkept⟩
    | ok new =>
      dsimp only
      rw [Act.run_bind, Act.run_update]
      exact ⟨rfl, hrest new _ new (cell?_setCell hkept new)⟩

end World

namespace Operation

variable {c : CellId} {o : Operation} {w : World} {old : Value} {d : Defect}

/-- What an operation on a cell yields that holds `old`, and what the cell holds then. The closures of the operation
are called in the world `w`. -/
def turn (o : Operation) (w : World) (old : Value) : Except Defect Value × Value :=
  match o with
  | .setCell _ v => (.ok .null, v)
  | .updateCell _ name value env => w.transact old (value.eval (.bind name old env)) fun _ _ => .ok .null
  | .updateAndGetCell _ name value env => w.transact old (value.eval (.bind name old env)) fun new _ => .ok new
  | .modifyCell c name value result env =>
    w.transact old (value.eval (.bind name old env)) fun new w =>
      ((result.eval (.bind name old env)).run (w.setCell c new)).1
  | _ => (.ok old, old)

/-- **An operation on a cell does what its turn says.** -/
theorem perform_eq_turn (hcell : o.cell? = some c) (hold : w.cell? c = some old) :
    (o.perform.run w).1 = (o.turn w old).1 ∧ (o.perform.run w).2.cell? c = some (o.turn w old).2 := by
  have heval (e : Expr) (env : Env) : (e.eval env).Keeps (World.KeepsCell c) :=
    have hin : env.In .everything := fun d _ => TracksMaking.everything (Keeping (World.KeepsCell c)) d
    (Observes.eval (J := Keeping (World.KeepsCell c)) hin e).keeps
  have hpure (v : Value) : (pure v : Act Value).Keeps (World.KeepsCell c) := fun _ _ h => h
  have hvalue : Value.ofOption (w.cell? c) = old := congrArg Value.ofOption hold
  cases o with
  | getCell c' =>
    cases hcell
    exact ⟨congrArg Except.ok hvalue, hold⟩
  | setCell c' v =>
    cases hcell
    exact ⟨rfl, World.cell?_setCell hold v⟩
  | updateCell c' name value env =>
    cases hcell
    have hturn := World.run_eq_transact (heval value (.bind name old env)) (fun _ => hpure .null) hold
    rw [← hvalue] at hturn ⊢
    exact hturn
  | updateAndGetCell c' name value env =>
    cases hcell
    have hturn := World.run_eq_transact (heval value (.bind name old env)) hpure hold
    rw [← hvalue] at hturn ⊢
    exact hturn
  | modifyCell c' name value result env =>
    cases hcell
    have hturn := World.run_eq_transact (heval value (.bind name old env)) (fun _ => heval result (.bind name old env))
      hold
    rw [← hvalue] at hturn ⊢
    exact hturn
  | _ => cases hcell

/-- The closure of a suspended operation yields what the operation yields. -/
theorem run_act (o : Operation) (w : World) :
    (Call.thunk (.perform o)).act.run w = ((o.perform.run w).1.map Next.value, (o.perform.run w).2) := by
  show (o.perform >>= fun v => return Next.value v).run w = _
  rw [Act.run_bind]
  cases o.perform.run w with
  | mk result v => cases result <;> rfl

/-- **An operation that throws leaves its cell as it was**, unless it is a modify whose new state was computed: that one
is written before the result is computed. -/
theorem turn_of_error (h : (o.turn w old).1 = .error d) :
    (o.turn w old).2 = old ∨ ∃ c name value result env, o = .modifyCell c name value result env ∧
      ((value.eval (.bind name old env)).run w).1 = .ok (o.turn w old).2 := by
  cases o with
  | updateCell c name value env | updateAndGetCell c name value env =>
    left
    simp only [turn, World.transact] at h ⊢
    split at h
    · cases h
    · rfl
  | modifyCell c name value result env =>
    simp only [turn, World.transact]
    split
    · rename_i new w' hstate
      exact Or.inr ⟨c, name, value, result, env, rfl, congrArg Prod.fst hstate⟩
    · exact Or.inl rfl
  | setCell _ _ => cases h
  | _ => exact Or.inl rfl

example : (Operation.modifyCell ⟨0⟩ "x" (.const (.int 5)) .throwFixed .empty).turn (Scenario.initial {} []) (.int 0) =
    (.error (.text "static panic"), .ofDatum (.int 5)) := rfl

end Operation

/-! ## Runs -/

/-- An operation on a cell that a fiber carried out: the world in which it was called, and what the fiber goes on
with. -/
structure CellTurn where
  operation : Operation
  world : World
  answer : Next

namespace CellTurn

/-- Whether the operation yielded a value. -/
def succeeds (t : CellTurn) : Bool :=
  match t.answer with
  | .value _ => true
  | _ => false

/-- Whether the operation may write before it throws. -/
def modifies (t : CellTurn) : Bool :=
  match t.operation with
  | .modifyCell .. => true
  | _ => false

end CellTurn

/-- The operations have the given answers if they are carried out one after the other on a cell that holds `old`, and
leave it with `held`. -/
inductive Serial : Value → List CellTurn → Value → Prop where
  | nil (held : Value) : Serial held [] held
  | cons {old held : Value} {t : CellTurn} {rest : List CellTurn}
      (answers : t.answer = .ofExcept ((t.operation.turn t.world old).1.map .value))
      (goesOn : Serial (t.operation.turn t.world old).2 rest held) : Serial old (t :: rest) held

namespace Serial

variable {old held : Value} {turns : List CellTurn}

/-- What the cell holds in the end is determined by the turns. -/
theorem held_eq (h : Serial old turns held) :
    held = turns.foldl (fun v t => (t.operation.turn t.world v).2) old := by
  induction h with
  | nil held => rfl
  | cons answers goesOn ih => exact ih

/-- **Only the operations that succeed count**, if every modify does. -/
theorem successes (h : Serial old turns held) (hmodify : ∀ t ∈ turns, t.modifies = true → t.succeeds = true) :
    Serial old (turns.filter CellTurn.succeeds) held := by
  induction h with
  | nil held => exact .nil held
  | @cons old held t rest answers goesOn ih =>
    obtain ⟨hfirst, hrest⟩ := List.forall_mem_cons.1 hmodify
    cases hresult : (t.operation.turn t.world old).1 with
    | ok v =>
      have hsucceeds : t.succeeds = true := by
        unfold CellTurn.succeeds
        rw [answers, hresult]
        rfl
      rw [List.filter_cons_of_pos hsucceeds]
      exact .cons answers (ih hrest)
    | error d =>
      have hfails : ¬ t.succeeds = true := by
        unfold CellTurn.succeeds
        rw [answers, hresult]
        exact Bool.false_ne_true
      rw [List.filter_cons_of_neg hfails]
      rcases Operation.turn_of_error hresult with hold | ⟨c, name, value, result, env, hmodifies, -⟩
      · rw [← hold]
        exact ih hrest
      · refine absurd (hfirst ?_) hfails
        unfold CellTurn.modifies
        rw [hmodifies]

end Serial

namespace Scene

variable {c : CellId} {s : Scene} {stroke : Stroke} {old : Value}

/-- The turn of an operation on a cell that is called with a stroke. -/
def cellTurn? (c : CellId) (s : Scene) (stroke : Stroke) : Option CellTurn :=
  match s.calls? stroke, (s.play stroke).moment.activity with
  | some (_, _, .thunk (.perform o)), .running _ _ stand =>
    if o.cell? = some c then some ⟨o, s.moment.world, stand.next⟩ else none
  | _, _ => none

/-- The turns of the operations on a cell in the order in which a run carries them out. -/
def cellTurns (c : CellId) (s : Scene) : List Stroke → List CellTurn
  | [] => []
  | stroke :: rest => (s.cellTurn? c stroke).toList ++ (s.play stroke).cellTurns c rest

/-- A stroke with which an operation on a cell has its turn. -/
theorem play_of_cellTurn {t : CellTurn} (hturn : s.cellTurn? c stroke = some t)
    (hold : s.moment.world.cell? c = some old) :
    t.answer = .ofExcept ((t.operation.turn t.world old).1.map .value) ∧
      (s.play stroke).moment.world.cell? c = some (t.operation.turn t.world old).2 := by
  unfold cellTurn? at hturn
  split at hturn
  · rename_i f run o g left stand hcalls hactivity
    split at hturn
    · rename_i hcell
      cases hturn
      obtain ⟨left', hmoment, -⟩ := moment_of_calls? hcalls
      obtain ⟨hanswer, hheld⟩ := Operation.perform_eq_turn hcell hold
      rw [hmoment] at hactivity ⊢
      cases hactivity
      constructor
      · show Next.ofExcept ((Call.thunk (.perform o)).act.caught s.moment.world).1 = _
        rw [Act.caught_fst, Operation.run_act, hanswer]
      · show ((Call.thunk (.perform o)).act.caught s.moment.world).2.cell? c = _
        rw [World.cell?_caught, Operation.run_act]
        exact hheld
    · cases hturn
  · cases hturn

/-- Every other stroke keeps what the cell holds. -/
theorem Occurs.cell?_play (h : s.Occurs) (hturn : s.cellTurn? c stroke = none)
    (hold : s.moment.world.cell? c = some old) : (s.play stroke).moment.world.cell? c = some old := by
  refine Disregards.play (R := World.KeepsCell c) h stroke ?_ old hold
  intro f left stand call run hstroke hstand hdeed hcuts
  subst hstroke
  have hcalls : s.calls? .next = some (f, run, call) := calls?_of_deed hstand hdeed hcuts
  obtain ⟨left', hmoment, -⟩ := moment_of_calls? hcalls
  refine Disregards.caught (Call.keepsCell (fun o ho hwrites => ?_) _)
  subst ho
  have hcell : o.cell? = some c := Operation.cell?_of_writes hwrites
  have hactivity := congrArg Moment.activity hmoment
  simp only [cellTurn?, hcalls, hactivity, hcell, if_true] at hturn
  cases hturn

/-- **What a cell holds is the work of the operations on it**, in the order in which they are carried out: in every run
each of them yields what it yields in that order, and nothing else writes to the cell. -/
theorem Occurs.serial (h : s.Occurs) (hold : s.moment.world.cell? c = some old) (strokes : List Stroke) :
    ∃ held, (s.after strokes).moment.world.cell? c = some held ∧ Serial old (s.cellTurns c strokes) held := by
  induction strokes generalizing s old with
  | nil => exact ⟨old, hold, .nil old⟩
  | cons stroke rest ih =>
    have hplay : (s.play stroke).Occurs := h.after [stroke]
    cases hturn : s.cellTurn? c stroke with
    | none =>
      obtain ⟨held, hheld, hserial⟩ := ih hplay (h.cell?_play hturn hold)
      refine ⟨held, hheld, ?_⟩
      rw [cellTurns, hturn]
      exact hserial
    | some t =>
      obtain ⟨hanswer, hcell⟩ := play_of_cellTurn hturn hold
      obtain ⟨held, hheld, hserial⟩ := ih hplay hcell
      refine ⟨held, hheld, ?_⟩
      rw [cellTurns, hturn]
      exact .cons hanswer hserial

end Scene

end FiberLoop
