/-! # Severity levels

Levels are ordered from the most severe to the most detailed. A threshold lets through the levels
up to itself.
-/

namespace Mentions

inductive Level where
  | error
  | warn
  | info
  | debug
  | trace
  deriving DecidableEq, Repr

namespace Level

def name : Level → String
  | error => "error"
  | warn => "warn"
  | info => "info"
  | debug => "debug"
  | trace => "trace"

/-- The level as log lines write it. -/
def tag : Level → String
  | error => "ERROR"
  | warn => "WARN"
  | info => "INFO"
  | debug => "DEBUG"
  | trace => "TRACE"

def ofName? : String → Option Level
  | "error" => some error
  | "warn" => some warn
  | "info" => some info
  | "debug" => some debug
  | "trace" => some trace
  | _ => none

/-- The place in the order, the most severe first. -/
def rank : Level → Nat
  | error => 0
  | warn => 1
  | info => 2
  | debug => 3
  | trace => 4

/-- Whether a record of level `l` passes the threshold. -/
def passes (threshold l : Level) : Bool := l.rank ≤ threshold.rank

end Level
end Mentions
