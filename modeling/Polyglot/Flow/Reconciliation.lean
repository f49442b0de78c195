import Polyglot.Flow.Copies
import Polyglot.Metrics

/-!
A pass over all live items of one content type that brings every copy to its base text and adds
the copies that are missing. A pass does not fail: what went wrong is in its report.
-/

namespace Polyglot.Reconciliation

structure Report where
  contentType : String
  itemsScanned : Nat
  synced : Nat
  unchanged : Nat
  created : Nat
  skippedPinned : Nat
  /-- Items without a record in the base language. -/
  skippedNoBase : Nat
  failed : Nat
  /-- Items whose pass ended at a failure. -/
  itemFailures : Nat
  /-- Why the pass ended before its first item, if it did. -/
  aborted : Option Error
deriving DecidableEq

def Report.start (contentType : String) : Report :=
  ⟨contentType, 0, 0, 0, 0, 0, 0, 0, 0, none⟩

def Report.isClean (r : Report) : Bool :=
  r.aborted.isNone && r.failed == 0 && r.itemFailures == 0

inductive ItemOutcome where
  | reconciled (tally : Tally) (created : Nat)
  | noBase
deriving DecidableEq

/-- A pass under way: its report, and what it adds to the counters. -/
structure Pass where
  report : Report
  metrics : Metrics
deriving DecidableEq

def Pass.enter (p : Pass) (outcome : Except Error ItemOutcome) : Pass :=
  let report := { p.report with itemsScanned := p.report.itemsScanned + 1 }
  match outcome with
  | .ok (.reconciled tally created) =>
      { report :=
          { report with
            synced := report.synced + tally.synced
            unchanged := report.unchanged + tally.unchanged
            skippedPinned := report.skippedPinned + tally.skippedPinned
            failed := report.failed + tally.failed
            created := report.created + created }
        metrics := p.metrics.countTally tally }
  | .ok .noBase => { p with report := { report with skippedNoBase := report.skippedNoBase + 1 } }
  | .error _ => { p with report := { report with itemFailures := report.itemFailures + 1 } }

def reconcileItem (base : LanguageId) (active : List LanguageId) (actor : Actor)
    (item : ItemId) : Attempt ItemOutcome := do
  let records ← Flow.records item
  match records.find? (·.language = base) with
  | none => return .noBase
  | some baseRecord =>
      let tally ← Copies.converge records base baseRecord.text actor
      let created ← Copies.fillGaps item records active baseRecord.text actor
      return .reconciled tally created

def reconcileItems (base : LanguageId) (active : List LanguageId) (actor : Actor) :
    List ItemId → Pass → Flow Pass
  | [], pass => pure pass
  | item :: rest, pass => do
      let outcome ← (reconcileItem base active actor item).run
      reconcileItems base active actor rest (pass.enter outcome)

def survey : Attempt (LanguageId × List LanguageId × List ItemId) := do
  match ← Flow.baseLanguage with
  | none => throw .noBaseLanguage
  | some base =>
      let active ← Flow.activeLanguages
      let items ← Flow.items
      return (base.id, (active.map (·.id)).filter (· ≠ base.id), items)

def run (contentType : String) (actor : Actor) : Flow Pass := do
  let pass : Pass := ⟨.start contentType, Metrics.zero.countReconcileRun⟩
  match ← survey.run with
  | .error e => return { pass with report := { pass.report with aborted := some e } }
  | .ok (base, active, items) => reconcileItems base active actor items pass

end Polyglot.Reconciliation
