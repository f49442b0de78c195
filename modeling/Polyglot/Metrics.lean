import Polyglot.Tally

namespace Polyglot

structure Metrics where
  published : Nat
  dropped : Nat
  applied : Nat
  recordsSynced : Nat
  recordFailures : Nat
  reconcileRuns : Nat
  backfillRuns : Nat
deriving DecidableEq

namespace Metrics

def zero : Metrics := ⟨0, 0, 0, 0, 0, 0, 0⟩

def add (a b : Metrics) : Metrics :=
  { published := a.published + b.published
    dropped := a.dropped + b.dropped
    applied := a.applied + b.applied
    recordsSynced := a.recordsSynced + b.recordsSynced
    recordFailures := a.recordFailures + b.recordFailures
    reconcileRuns := a.reconcileRuns + b.reconcileRuns
    backfillRuns := a.backfillRuns + b.backfillRuns }

instance : Add Metrics := ⟨add⟩

def countPublished (m : Metrics) : Metrics := { m with published := m.published + 1 }

def countDropped (m : Metrics) : Metrics := { m with dropped := m.dropped + 1 }

def countApplied (m : Metrics) : Metrics := { m with applied := m.applied + 1 }

def countReconcileRun (m : Metrics) : Metrics := { m with reconcileRuns := m.reconcileRuns + 1 }

def countBackfillRun (m : Metrics) : Metrics := { m with backfillRuns := m.backfillRuns + 1 }

def countTally (m : Metrics) (t : Tally) : Metrics :=
  { m with
    recordsSynced := m.recordsSynced + t.synced
    recordFailures := m.recordFailures + t.failed }

/-- What is read off the counters. A word has 64 bits, so a count past its top is read from zero
again. -/
structure Reading where
  published : UInt64
  dropped : UInt64
  applied : UInt64
  recordsSynced : UInt64
  recordFailures : UInt64
  reconcileRuns : UInt64
  backfillRuns : UInt64
deriving DecidableEq

def read (m : Metrics) : Reading :=
  { published := .ofNat m.published
    dropped := .ofNat m.dropped
    applied := .ofNat m.applied
    recordsSynced := .ofNat m.recordsSynced
    recordFailures := .ofNat m.recordFailures
    reconcileRuns := .ofNat m.reconcileRuns
    backfillRuns := .ofNat m.backfillRuns }

def Reading.applyRate (r : Reading) : Float :=
  if r.published = 0 then 0.0 else r.applied.toFloat / r.published.toFloat * 100.0

end Metrics

end Polyglot
