import FiberLoop.Text.Blank
import FiberLoop.Text.Quoted
import FiberLoop.Word

/-!
# Configuration of a loop

How many steps a fiber may run before it queues itself again, and the name of the loop's thread. Values come
from a builder, which checks them at the end or not at all, or from two environment variables, read
leniently (`fromEnv`: bad values are passed over) or strictly (`tryFromEnv`: they are errors).

A loop starts with settings that break no rule and name its thread without NUL (`accept_eq_ok_iff`).

Numbers are natural numbers below `2 ^ 64`; `parseNumber_lt` bounds what the reader accepts.
-/

namespace FiberLoop

/-- The version of the library. -/
def version : String := "0.1.0"

/-- The settings of a loop. -/
structure Config where
  /-- Steps a fiber may run before it yields. -/
  yieldBudget : Nat := 1024
  /-- The name of the loop's thread. -/
  threadName : String := "effect-loop"
deriving DecidableEq, Repr

/-- Why a text is not a number. -/
inductive NumberError where
  | empty
  | invalidDigit
  | tooLarge
deriving DecidableEq, Repr

def NumberError.message : NumberError → String
  | .empty => "cannot parse integer from empty string"
  | .invalidDigit => "invalid digit found in string"
  | .tooLarge => "number too large to fit in target type"

/-- Why a configuration is refused. -/
inductive ConfigError where
  | invalidValue (field message : String)
  | envParse (source message : String)
deriving DecidableEq, Repr

namespace ConfigError

/-- The name of the kind of error. -/
def kind : ConfigError → String
  | .invalidValue .. => "InvalidValue"
  | .envParse .. => "EnvParse"

/-- One line for a reader. -/
def message : ConfigError → String
  | .invalidValue field m => "invalid configuration for '" ++ field ++ "': " ++ m
  | .envParse source m => "failed to parse environment variable '" ++ source ++ "': " ++ m

/-- The debug form. -/
def debug : ConfigError → String
  | .invalidValue field m =>
    "InvalidValue \x7b field: " ++ Text.quote field ++ ", message: " ++ Text.quote m ++ " \x7d"
  | .envParse source m =>
    "EnvParse \x7b var: " ++ Text.quote source ++ ", message: " ++ Text.quote m ++ " \x7d"

def zeroBudget : ConfigError := .invalidValue "yield_budget" "must be at least 1"

def blankName : ConfigError := .invalidValue "thread_name" "must not be empty"

end ConfigError

/-- Why a loop does not start. -/
inductive StartError where
  | refused (error : ConfigError)
  /-- The name of the thread holds a NUL. -/
  | nulInName (name : String)
deriving DecidableEq, Repr

/-- One line for a reader. A NUL is reported by its place among the bytes of the name. -/
def StartError.message : StartError → String
  | .refused e => e.message
  | .nulInName name =>
    let bytes := name.toUTF8.toList
    "thread name may not contain interior null bytes: NulError(" ++ toString (bytes.idxOf 0) ++ ", [" ++
      ", ".intercalate (bytes.map fun byte => toString byte.toNat) ++ "])"

/-- Add decimal digits to a number; the first character that is no digit and the first step past the
limit each stop the reading. -/
def readDigits : Nat → List Char → Except NumberError Nat
  | n, [] => .ok n
  | n, c :: rest =>
    if c.isDigit then
      let next := n * 10 + (c.toNat - '0'.toNat)
      if next < wordLimit then readDigits next rest else .error .tooLarge
    else .error .invalidDigit

/-- A number in decimal digits, with an optional plus sign. -/
def parseNumber (chars : List Char) : Except NumberError Nat :=
  match chars with
  | [] => .error .empty
  | ['+'] => .error .invalidDigit
  | ['-'] => .error .invalidDigit
  | '+' :: digits => readDigits 0 digits
  | digits => readDigits 0 digits

theorem readDigits_lt {n m : Nat} {chars : List Char} (hn : n < wordLimit)
    (h : readDigits n chars = .ok m) : m < wordLimit := by
  induction chars generalizing n with
  | nil => cases h; exact hn
  | cons c rest ih =>
    simp only [readDigits] at h
    split at h
    · split at h
      · exact ih ‹_› h
      · cases h
    · cases h

theorem parseNumber_lt {chars : List Char} {n : Nat} (h : parseNumber chars = .ok n) :
    n < wordLimit := by
  unfold parseNumber at h
  split at h
  all_goals first | cases h | exact readDigits_lt (by decide) h

namespace Config

/-- The environment variable with the budget. -/
def budgetVariable : String := "EFFECT_YIELD_BUDGET"

/-- The first rule that the settings break, if any. -/
def fault? (c : Config) : Option ConfigError :=
  if c.yieldBudget = 0 then some .zeroBudget
  else if Text.blankText c.threadName then some .blankName
  else none

/-- The settings if they break no rule. -/
def validate (c : Config) : Except ConfigError Config :=
  match c.fault? with
  | some e => .error e
  | none => .ok c

/-- The settings if a loop can start with them. -/
def accept (c : Config) : Except StartError Config :=
  match c.fault? with
  | some e => .error (.refused e)
  | none => if '\x00' ∈ c.threadName.toList then .error (.nulInName c.threadName) else .ok c

/-- Take over the given settings and leave the others at their defaults. -/
def build (budget : Option Nat) (name : Option String) : Config :=
  let base : Config := {}
  { yieldBudget := budget.getD base.yieldBudget, threadName := name.getD base.threadName }

/-- The budget given by an environment variable; `none` if it is unset. -/
def envBudget (raw : Option String) : Except NumberError (Option Nat) :=
  match raw with
  | none => .ok none
  | some text => (parseNumber (Text.trimChars text.toList)).map some

/-- Read leniently: a budget that is zero or no number and a blank name count as unset. -/
def fromEnv (budget name : Option String) : Config :=
  let steps :=
    match envBudget budget with
    | .ok (some n) => if n = 0 then none else some n
    | _ => none
  build steps (name.filter fun text => !Text.blankText text)

/-- Read strictly. -/
def tryFromEnv (budget name : Option String) : Except ConfigError Config :=
  match envBudget budget with
  | .error e => .error (.envParse budgetVariable e.message)
  | .ok steps => (build steps name).validate

/-- The debug form. -/
def debug (c : Config) : String :=
  "RuntimeConfig \x7b yield_budget: " ++ toString c.yieldBudget ++ ", thread_name: " ++
    Text.quote c.threadName ++ " \x7d"

theorem validate_eq_ok_iff (c : Config) :
    c.validate = .ok c ↔ 0 < c.yieldBudget ∧ Text.blankText c.threadName = false := by
  unfold validate fault?
  by_cases hb : c.yieldBudget = 0
  · simp [hb]
  · cases Text.blankText c.threadName <;> simp [hb, Nat.pos_of_ne_zero hb]

theorem accept_eq_ok_iff (c : Config) :
    c.accept = .ok c ↔ c.fault? = none ∧ '\x00' ∉ c.threadName.toList := by
  unfold accept
  cases hfault : c.fault? with
  | some e => simp
  | none => by_cases hnul : '\x00' ∈ c.threadName.toList <;> simp [hnul]

/-- What lenient reading returns breaks no rule. -/
theorem fault?_fromEnv (budget name : Option String) : (fromEnv budget name).fault? = none := by
  have hname : Text.blankText ((name.filter fun t => !Text.blankText t).getD "effect-loop") = false := by
    cases name with
    | none => decide
    | some t =>
      cases ht : Text.blankText t with
      | false => simp [Option.filter, ht]
      | true =>
        simp [Option.filter, ht]
        decide
  have hsteps : ∀ steps : Option Nat, steps ≠ some 0 → steps.getD 1024 ≠ 0 := by
    intro steps h
    cases steps with
    | none => decide
    | some n => simpa using h
  unfold fromEnv build fault?
  simp only [hname]
  rw [if_neg]
  · rfl
  · refine hsteps _ ?_
    split
    · split <;> simp_all
    · simp

end Config

end FiberLoop
