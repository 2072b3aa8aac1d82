/-! Log records: a level, a text, and the place in a program that it came from, if that is known. A
threshold lets through the records of a level and of all levels more urgent. -/

namespace Tabular.Log

/-- How urgent a record is, from the most urgent level to the least. -/
inductive Level where
  | error
  | warn
  | info
  | debug
  | trace
  deriving DecidableEq, Repr

namespace Level

def name : Level → String
  | error => "ERROR"
  | warn => "WARN"
  | info => "INFO"
  | debug => "DEBUG"
  | trace => "TRACE"

/-- The place of a level among the levels, the most urgent one having place 1. -/
def rank : Level → Nat
  | error => 1
  | warn => 2
  | info => 3
  | debug => 4
  | trace => 5

/-- The levels from the most urgent to the least. -/
def all : List Level := [error, warn, info, debug, trace]

end Level

/-- Which records to let through: none, or those up to a level. -/
inductive Threshold where
  | off
  | upTo (level : Level)
  deriving DecidableEq, Repr

namespace Threshold

def name : Threshold → String
  | off => "OFF"
  | upTo level => level.name

/-- Whether a threshold lets records of a level through. -/
def allows : Threshold → Level → Bool
  | off, _ => false
  | upTo most, level => level.rank ≤ most.rank

/-- The threshold of a name, in capitals or not. -/
def ofName? (name : String) : Option Threshold :=
  (off :: Level.all.map upTo).find? (·.name == name.toUpper)

end Threshold

/-- A record. -/
structure Record where
  level : Level
  text : String
  file : Option String := none
  line : Option Nat := none
  deriving DecidableEq, Repr

end Tabular.Log
