import Polyglot.Flow.Copies
import Polyglot.Event

namespace Polyglot.Propagation

inductive DropReason where
  | itemGone
  | baseUnresolved
  | baseChanged
  | lookup (e : Error)
deriving DecidableEq

def DropReason.message : DropReason → String
  | .itemGone => "content item no longer exists"
  | .baseUnresolved => "base language could not be resolved"
  | .baseChanged => "event language is no longer the base"
  | .lookup e => s!"storage error: {e.message}"

inductive Outcome where
  | applied (tally : Tally)
  | dropped (reason : DropReason)
deriving DecidableEq

def check (event : Event) : Flow (Except DropReason (List Record)) := do
  match ← (Flow.hasItem event.item).run with
  | .error e => return .error (.lookup e)
  | .ok false => return .error .itemGone
  | .ok true =>
      match ← Flow.baseLanguage.run with
      | .error e => return .error (.lookup e)
      | .ok none => return .error .baseUnresolved
      | .ok (some base) =>
          if base.id ≠ event.language then return .error .baseChanged
          else
            match ← (Flow.records event.item).run with
            | .error e => return .error (.lookup e)
            | .ok records => return .ok records

/-- Brings the text of an event to every copy of its item. Whether the item and its base language
still stand is asked again first; if not, the event is dropped. -/
def handle (event : Event) : Flow Outcome := do
  match ← check event with
  | .error reason => return .dropped reason
  | .ok records =>
      return .applied (← Copies.converge records event.language event.text event.actor)

end Polyglot.Propagation
