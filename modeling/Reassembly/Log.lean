import Reassembly.Text.Quoted

/-!
# Log lines

Parts of the library report what they do in lines of text at one of three levels. A failing result
can be reported in passing: the line names the failure after a message, and the result goes on
unchanged.
-/

namespace Reassembly

/-- The level of a log line. -/
inductive LogLevel
  | error
  | warn
  | info
  deriving Repr, DecidableEq

/-- The name of a level. -/
def LogLevel.name : LogLevel → String
  | error => "ERROR"
  | warn => "WARN"
  | info => "INFO"

/-- A line of a log. -/
structure LogLine where
  level : LogLevel
  text : String
  deriving Repr, DecidableEq

/-- A value together with the lines that were logged on the way to it. -/
structure Logged (α : Type) where
  value : α
  lines : List LogLine
  deriving Repr, DecidableEq

/-- How a failure is reported: at which level, and whether the message is only made when it is
needed. -/
inductive FailureReport
  | atLevel (level : LogLevel)
  | onDemand
  deriving Repr, DecidableEq

namespace FailureReport

/-- The level of a report. -/
def level : FailureReport → LogLevel
  | atLevel level => level
  | onDemand => .info

/-- Report a result if it is a failure, and pass it on. -/
def pass {α : Type} (report : FailureReport) (message : String) (result : Except String α) :
    Logged (Except String α) :=
  match result with
  | .ok _ => ⟨result, []⟩
  | .error failure => ⟨result, [⟨report.level, s!"{message}: {Text.quoted failure}"⟩]⟩

/-- The message of a report is made on demand, and the result demands it. -/
def demands {α : Type} : FailureReport → Except String α → Bool
  | onDemand, .error _ => true
  | _, _ => false

end FailureReport

end Reassembly
