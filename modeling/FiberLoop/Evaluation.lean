import FiberLoop.Stores.Queue
import FiberLoop.World.Session

/-!
# Evaluation of expressions and actions

Expressions read bindings, globals and the policies of queues; the only thing they change in the world is the
next serial number. An operand of the wrong kind throws, and so does a number outside the signed 64-bit
range.

Operands are evaluated before any of them is looked at, so the first operand that throws wins over an operand
of the wrong kind.
-/

namespace FiberLoop

namespace Value

/-- An operand has the wrong kind. -/
def typeError {α : Type} : Act α := Act.throwText "type error"

def asBool : Value → Act Bool
  | .bool b => return b
  | _ => typeError

def asInt : Value → Act Int
  | .int n => return n
  | _ => typeError

def asText : Value → Act String
  | .str s => return s
  | _ => typeError

def asList : Value → Act (List Value)
  | .list items => return items
  | _ => typeError

def asExit : Value → Act (Exit Value Value)
  | .exit x => return x
  | _ => typeError

def asCause : Value → Act (Cause Value)
  | .cause c => return c
  | _ => typeError

def asCell : Value → Act CellId
  | .cell c => return c
  | _ => typeError

def asDeferred : Value → Act DeferredId
  | .deferred d => return d
  | _ => typeError

def asSemaphore : Value → Act SemaphoreId
  | .semaphore s => return s
  | _ => typeError

def asQueue : Value → Act QueueId
  | .queue q => return q
  | _ => typeError

def asFiber : Value → Act FiberId
  | .fiber f => return f
  | _ => typeError

/-- A count as a value. Counts are unsigned and values are signed, so the upper half of the counts comes out
negative. -/
def ofCount (n : Nat) : Value := .int (wrapWord n)

/-- A number that stays in range. -/
def ofArith (n : Int) : Act Value :=
  if inRange n then return .int n else Act.throwText "overflow"

/-- The number of items of a list or of characters of a text. -/
def length : Value → Act Value
  | .list items => return .int items.length
  | .str s => return .int s.length
  | _ => typeError

/-- The item of a list at an index. -/
def item (items : List Value) (index : Int) : Act Value :=
  match index with
  | .ofNat i =>
    match items[i]? with
    | some v => return v
    | none => Act.throwText "out of range"
  | .negSucc _ => Act.throwText "out of range"

/-- The kind of a cause. -/
def causeKind : Cause Value → String
  | .failed _ => "failed"
  | .aborted _ => "aborted"
  | .interrupted => "interrupted"

/-- What a cause carries: the error, or the message of the defect if it has one. -/
def causePayload : Cause Value → Value
  | .failed e => e
  | .aborted d => d.message?.elim .null .str
  | .interrupted => .null

/-- The kind of an exit or cause. -/
def kind : Value → Act Value
  | .exit (.value _) => return .str "value"
  | .exit (.cause c) => return .str (causeKind c)
  | .cause c => return .str (causeKind c)
  | _ => typeError

/-- What an exit or cause carries. -/
def payload : Value → Act Value
  | .exit (.value v) => return v
  | .exit (.cause c) => return causePayload c
  | .cause c => return causePayload c
  | _ => typeError

/-- The cause of an exit that has one. -/
def toCause : Value → Act Value
  | .exit (.cause c) => return .cause c
  | _ => typeError

end Value

namespace Act

/-- The global or the innermost binding of a name. -/
def resolve (env : Env) (name : Name) : Act Value := do
  match env.lookup name with
  | some v => return v
  | none =>
    match (← get).session.globals.lookup name with
    | some v => return v
    | none => throwText ("unbound " ++ name)

/-- The policy of a queue. -/
def queuePolicy (q : QueueId) : Act Overflow := do
  return ((← get).queue? q).elim .unbounded (·.policy)

end Act

namespace Expr

mutual

/-- The value of an expression. -/
def eval (env : Env) : Expr → Act Value
  | .const d => return .ofDatum d
  | .var name => Act.resolve env name
  | .list items => return .list (← evalAll env items)
  | .arith operation left right => do
    let a ← eval env left
    let b ← eval env right
    Value.ofArith (operation.apply (← a.asInt) (← b.asInt))
  | .less left right => do
    let a ← eval env left
    let b ← eval env right
    return .bool ((← a.asInt) < (← b.asInt))
  | .equal left right => do
    let a ← eval env left
    let b ← eval env right
    return .bool (a.equal b)
  | .not operand => return .bool (!(← (← eval env operand).asBool))
  | .cond condition yes no => do
    if ← (← eval env condition).asBool then eval env yes else eval env no
  | .length operand => do (← eval env operand).length
  | .item source index => do
    let items ← eval env source
    let i ← eval env index
    Value.item (← items.asList) (← i.asInt)
  | .append source last => do
    let items ← eval env source
    let v ← eval env last
    return .list ((← items.asList) ++ [v])
  | .concat texts => do
    let parts ← (← evalAll env texts).mapM Value.asText
    return .str (String.join parts)
  | .kind operand => do (← eval env operand).kind
  | .payload operand => do (← eval env operand).payload
  | .toCause exit => do (← eval env exit).toCause
  | .toExit cause => return .exit (.cause (← (← eval env cause).asCause))
  | .capacity queue => do
    let policy ← Act.queuePolicy (← (← eval env queue).asQueue)
    return policy.capacity?.elim .null Value.ofCount
  | .policy queue => do
    let policy ← Act.queuePolicy (← (← eval env queue).asQueue)
    return .str policy.debug
  | .throwText message => do Act.throwText (← (← eval env message).asText)
  | .throwFixed => Act.throwText "static panic"
  | .throwNumber number => do throw (.ofPayload (.number (← (← eval env number).asInt)))
  | .exitValue value => return .exit (.value (← eval env value))
  | .exitFailed error => return .exit (.failed (← eval env error))
  | .exitAborted message => return .exit (.aborted (.text (← (← eval env message).asText)))
  | .exitSealed number => do
    let n ← (← eval env number).asInt
    return .exit (.aborted (.sealed n (← Act.updateGet World.freshSerial)))
  | .exitInterrupted => return .exit .interrupted

/-- The values of expressions, from left to right. -/
def evalAll (env : Env) : List Expr → Act (List Value)
  | [] => return []
  | e :: rest => return (← eval env e) :: (← evalAll env rest)

end

end Expr

namespace Settlement

/-- The exit with which a callback is completed. -/
def exit (how : Settlement) (v : Value) : Act (Exit Value Value) :=
  match how with
  | .succeed | .ok => return .value v
  | .fail | .err => return .failed v
  | .abort => return .aborted (.text (← v.asText))
  | .complete => v.asExit

end Settlement

namespace Act

/-- Complete the oldest callback kept under a key; the answer says whether there was one. -/
def settleKept (key : Name) (how : Settlement) (v : Value) : Act Bool := do
  match ← updateGet (World.takeKept key) with
  | none => return false
  | some callback =>
    let exit ← how.exit v
    update (World.settle callback exit)
    return true

end Act

namespace Action

/-- Run one action. The callback of the registration is at hand until it is kept or completed; the answer says
whether it still is. -/
def run (env : Env) (callback : Option Callback) : Action → Act (Option Callback)
  | .log value => do
    let v ← value.eval env
    Act.update (World.log (.value v))
    return callback
  | .throwText message => do Act.throwText (← (← message.eval env).asText)
  | .interrupt fiber => do
    let f ← World.fiberNamed fiber
    Act.update (World.interrupt f)
    return callback
  | .keep key => do
    if let some cb := callback then
      Act.update (World.keep key cb)
    return none
  | .settle how value => do
    if let some cb := callback then
      let exit ← how.exit (← value.eval env)
      Act.update (World.settle cb exit)
    return none
  | .settleKept key how value => do
    let v ← value.eval env
    let found ← Act.settleKept key how v
    Act.update (World.log (.value (.bool found)))
    return callback

/-- Run actions in order. -/
def runAll (env : Env) : Option Callback → List Action → Act Unit
  | _, [] => return
  | callback, action :: rest => do
    let callback ← action.run env callback
    runAll env callback rest

end Action

end FiberLoop
