/-!
# Expressions and actions

The language in which the closures of a program are written. An expression computes a value and may throw; an
action is one statement of a callback, run for what it does.

Expressions are evaluated at once, operands first and from left to right; only a conditional leaves one of
its branches out.
-/

namespace FiberLoop

/-- The name of a variable, a definition, a fiber or a key. -/
abbrev Name := String

/-- A constant. -/
inductive Datum where
  | null
  | bool (value : Bool)
  | int (value : Int)
  | str (value : String)
  | list (items : List Datum)
deriving Repr, Inhabited

/-- An operation on two numbers. -/
inductive Arith where
  | add
  | sub
  | mul
deriving DecidableEq, Repr

/-- The number that an operation yields, without regard to size. -/
def Arith.apply : Arith → Int → Int → Int
  | .add, a, b => a + b
  | .sub, a, b => a - b
  | .mul, a, b => a * b

/-- An expression. -/
inductive Expr where
  | const (value : Datum)
  | var (name : Name)
  | list (items : List Expr)
  | arith (operation : Arith) (left right : Expr)
  | less (left right : Expr)
  | equal (left right : Expr)
  | not (operand : Expr)
  | cond (condition yes no : Expr)
  /-- The number of items of a list or of characters of a text. -/
  | length (operand : Expr)
  | item (list index : Expr)
  | append (list last : Expr)
  | concat (texts : List Expr)
  /-- The kind of an exit or cause, as a text. -/
  | kind (operand : Expr)
  /-- The value, error or message inside an exit or cause. -/
  | payload (operand : Expr)
  | toCause (exit : Expr)
  | toExit (cause : Expr)
  | capacity (queue : Expr)
  | policy (queue : Expr)
  /-- Throw a text. -/
  | throwText (message : Expr)
  /-- Throw a text fixed beforehand. -/
  | throwFixed
  /-- Throw a number. -/
  | throwNumber (payload : Expr)
  | exitValue (value : Expr)
  | exitFailed (error : Expr)
  | exitAborted (message : Expr)
  /-- An exit by a defect without a message. -/
  | exitSealed (payload : Expr)
  | exitInterrupted
deriving Repr, Inhabited

/-- How a callback is completed with a value. -/
inductive Settlement where
  | succeed
  | fail
  | abort
  /-- As the success of a result. -/
  | ok
  /-- As the error of a result. -/
  | err
  /-- The value is the exit. -/
  | complete
deriving DecidableEq, Repr

/-- One statement of a callback. -/
inductive Action where
  | log (value : Expr)
  | throwText (message : Expr)
  /-- Interrupt the fiber of that name. -/
  | interrupt (fiber : Name)
  /-- Keep the callback of the registration under a key. -/
  | keep (key : Name)
  /-- Complete the callback of the registration. -/
  | settle (how : Settlement) (value : Expr)
  /-- Complete the oldest callback kept under a key and log whether there was one. -/
  | settleKept (key : Name) (how : Settlement) (value : Expr)
deriving Repr

end FiberLoop
