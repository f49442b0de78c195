import Polyglot.Event
import Polyglot.Metrics

/-!
The queue between editors and the worker: first in, first out, without a bound. Publishing never
waits and never fails the publisher; an event that nobody will receive is counted as dropped.
-/

namespace Polyglot

structure Channel where
  queue : List Event
  handles : Nat
  receiving : Bool
deriving DecidableEq

/-- What a publisher holds: a handle on a channel, or one that leads nowhere. -/
inductive Handle where
  | joined
  | closed
deriving DecidableEq

inductive Received where
  | event (e : Event)
  | pending
  | closed
  | noReceiver
deriving DecidableEq

namespace Channel

def opened : Channel := ⟨[], 1, true⟩

def cloneHandle (c : Channel) : Channel := { c with handles := c.handles + 1 }

def releaseHandle (c : Channel) : Channel := { c with handles := c.handles - 1 }

def dropReceiver (c : Channel) : Channel := { c with queue := [], receiving := false }

/-- Publishes through a handle; exactly one of two counters goes up. -/
def publish (c : Channel) (m : Metrics) (h : Handle) (e : Event) : Channel × Metrics :=
  if h = .joined ∧ c.receiving then ({ c with queue := c.queue ++ [e] }, m.countPublished)
  else (c, m.countDropped)

def receive (c : Channel) : Received × Channel :=
  if c.receiving then
    match c.queue with
    | e :: rest => (.event e, { c with queue := rest })
    | [] => (if c.handles = 0 then .closed else .pending, c)
  else (.noReceiver, c)

theorem receive_eq_event {c d : Channel} {e : Event} (h : c.receive = (.event e, d)) :
    c.receiving = true ∧ ∃ rest, c.queue = e :: rest ∧ d = { c with queue := rest } := by
  rw [receive] at h
  cases hreceiving : c.receiving with
  | false =>
      rw [hreceiving] at h
      cases h
  | true =>
      rw [hreceiving, if_pos rfl] at h
      cases hqueue : c.queue with
      | nil =>
          rw [hqueue] at h
          dsimp only at h
          split at h <;> cases h
      | cons first rest =>
          rw [hqueue] at h
          cases h
          exact ⟨rfl, rest, rfl, rfl⟩

end Channel

end Polyglot
