import Polyglot.Engine.Registry
import Polyglot.Setup.Error

namespace Polyglot

inductive Cadence where
  | minutes (step : Nat)
  | hours (step : Nat)
  | daily
deriving DecidableEq

namespace Cadence

/-- The cadence of an interval. It is under an hour, or a whole number of hours up to a day. -/
def ofInterval (minutes : Nat) : Except SetupError Cadence :=
  if minutes = 0 then .error .noInterval
  else if minutes < 60 then .ok (.minutes minutes)
  else if minutes = 1440 then .ok .daily
  else if 1440 < minutes then .error (.intervalOverDay minutes)
  else if minutes % 60 = 0 then .ok (.hours (minutes / 60))
  else .error (.unevenInterval minutes)

/-- The six fields second, minute, hour, day, month and weekday. -/
def expression : Cadence → String
  | .minutes step => s!"0 */{step} * * * *"
  | .hours step => s!"0 0 */{step} * * *"
  | .daily => "0 0 0 * * *"

end Cadence

def Registry.schedule (r : Registry) : Except SetupError (List (String × Cadence)) :=
  r.entries.mapM fun e => do return (e.1, ← Cadence.ofInterval e.2)

end Polyglot
