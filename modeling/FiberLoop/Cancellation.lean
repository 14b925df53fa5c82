import FiberLoop.Word

/-!
# Cancel flags and cancelers

A cancel flag is one-way: once set it stays set, and every clone of it sees that. A canceler is a thunk
that runs at most once; running it and dropping it both use it up.

A `CancelBoard` keeps named flags and named cancelers. A flag name refers to a cell, so that clones share
it; a canceler either does nothing, sets the cell of a flag, or adds to the board's counter, which stays in the
signed 64-bit range.
-/

namespace FiberLoop

/-- What running a canceler does. -/
inductive CancelThunk where
  | nothing
  /-- Set the flag in the given cell. -/
  | raise (cell : Nat)
  /-- Add to the counter. -/
  | count (amount : Int)
deriving DecidableEq, Repr

/-- Whether cancelling would run anything. -/
def CancelThunk.isNoop : CancelThunk → Bool
  | .nothing => true
  | _ => false

/-- The debug form of a truth value. -/
def debugBool (b : Bool) : String := if b then "true" else "false"

/-- The debug form of a canceler shows only whether it is idle. -/
def CancelThunk.debug (t : CancelThunk) : String :=
  "Canceler \x7b noop: " ++ debugBool t.isNoop ++ " \x7d"

/-- Named flags, named cancelers and one counter. -/
structure CancelBoard where
  flags : List (String × Nat) := []
  cells : List Bool := []
  cancelers : List (String × CancelThunk) := []
  counter : Int := 0
deriving Repr

/-- A request to the board. -/
inductive CancelRequest where
  | flag (name : String)
  | clone (name copy : String)
  | raise (name : String)
  | isRaised (name : String)
  | flagDebug (name : String)
  | canceler (flag name : String)
  | idle (name : String)
  | count (name : String) (amount : Int)
  | isNoop (name : String)
  | debug (name : String)
  | cancel (name : String)
  | drop (name : String)
deriving Repr

/-- The board's answer to a request. -/
inductive CancelAnswer where
  | nothing
  | bool (value : Bool)
  | text (value : String)
  | counter (value : Int)
deriving DecidableEq, Repr

namespace CancelBoard

/-- Bind a name, replacing what it meant. -/
def bind {α : Type} (name : String) (value : α) (table : List (String × α)) : List (String × α) :=
  (name, value) :: table.filter (·.1 != name)

/-- The debug form of a flag. -/
def debugFlag (raised : Bool) : String := "CancelFlag \x7b cancelled: " ++ debugBool raised ++ " \x7d"

def raised? (b : CancelBoard) (name : String) : Option Bool :=
  (b.flags.lookup name).map fun cell => b.cells.getD cell false

/-- Set the flag in a cell. -/
def raise (b : CancelBoard) (cell : Nat) : CancelBoard := { b with cells := b.cells.set cell true }

/-- Run a canceler. -/
def fire (b : CancelBoard) : CancelThunk → CancelBoard
  | .nothing => b
  | .raise cell => b.raise cell
  | .count amount => { b with counter := wrapWord (b.counter + amount) }

/-- Let a flag name refer to a cell; the answer says whether the name was in use. -/
def nameFlag (b : CancelBoard) (name : String) (cell : Nat) : CancelAnswer × CancelBoard :=
  (.bool (b.flags.lookup name).isSome, { b with flags := bind name cell b.flags })

/-- Let a name refer to a canceler; the answer says whether the name was in use. -/
def nameCanceler (b : CancelBoard) (name : String) (thunk : CancelThunk) : CancelAnswer × CancelBoard :=
  (.bool (b.cancelers.lookup name).isSome, { b with cancelers := bind name thunk b.cancelers })

/-- Take a canceler off the board, run it if asked to, and answer the counter. -/
def use (b : CancelBoard) (name : String) (run : Bool) : CancelAnswer × CancelBoard :=
  match b.cancelers.lookup name with
  | none => (.nothing, b)
  | some thunk =>
    let taken := { b with cancelers := b.cancelers.filter (·.1 != name) }
    let after := if run then taken.fire thunk else taken
    (.counter after.counter, after)

/-- Handle one request. -/
def handle (b : CancelBoard) : CancelRequest → CancelAnswer × CancelBoard
  | .flag name => { b with cells := b.cells ++ [false] }.nameFlag name b.cells.length
  | .clone name copy =>
    match b.flags.lookup name with
    | none => (.nothing, b)
    | some cell => b.nameFlag copy cell
  | .raise name =>
    match b.flags.lookup name with
    | none => (.nothing, b)
    | some cell => (.nothing, b.raise cell)
  | .isRaised name => ((b.raised? name).elim .nothing .bool, b)
  | .flagDebug name => ((b.raised? name).elim .nothing (.text ∘ debugFlag), b)
  | .canceler flag name =>
    match b.flags.lookup flag with
    | none => (.nothing, b)
    | some cell => b.nameCanceler name (.raise cell)
  | .idle name => b.nameCanceler name .nothing
  | .count name amount => b.nameCanceler name (.count amount)
  | .isNoop name => ((b.cancelers.lookup name).elim .nothing (.bool ∘ CancelThunk.isNoop), b)
  | .debug name => ((b.cancelers.lookup name).elim .nothing (.text ∘ CancelThunk.debug), b)
  | .cancel name => b.use name true
  | .drop name => b.use name false

/-- The answers to a list of requests. -/
def answers : CancelBoard → List CancelRequest → List CancelAnswer
  | _, [] => []
  | b, request :: rest => (b.handle request).1 :: (b.handle request).2.answers rest

/-- A canceler that runs leaves the counter in range. -/
theorem inRange_counter_fire {b : CancelBoard} (h : inRange b.counter = true) (thunk : CancelThunk) :
    inRange (b.fire thunk).counter = true := by
  cases thunk with
  | nothing => exact h
  | raise cell => exact h
  | count amount => exact inRange_wrapWord _

/-- Setting a flag that is set changes nothing. -/
theorem raise_raise (b : CancelBoard) (cell : Nat) : (b.raise cell).raise cell = b.raise cell := by
  simp [raise]

/-- Every name of a flag sees that it was set. -/
theorem raised?_raise {b : CancelBoard} {name : String} {cell : Nat}
    (h : b.flags.lookup name = some cell) (hcell : cell < b.cells.length) :
    (b.raise cell).raised? name = some true := by
  simp [raise, raised?, h, List.getD, hcell]

end CancelBoard

end FiberLoop
