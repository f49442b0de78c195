import Polyglot.Engine.Channel
import Polyglot.Engine.Registry
import Polyglot.Flow.Backfill
import Polyglot.Flow.Creation
import Polyglot.Flow.Edit
import Polyglot.Flow.Propagation

/-!
One handle on all of it: the registered content types, the queue of events with its worker, and
the counters. An operation is a program over the stores; the queue and the counters are the
engine's own and change with the operation's result.
-/

namespace Polyglot

structure Engine where
  registry : Registry
  actor : Actor
  metrics : Metrics
  channel : Channel
  /-- Whether the engine still holds its own handle on the channel. -/
  accepting : Bool
deriving DecidableEq

namespace Engine

def start (registry : Registry) (actor : Actor) : Engine :=
  ⟨registry, actor, .zero, .opened, true⟩

def handle (e : Engine) : Handle := if e.accepting then .joined else .closed

def publish (e : Engine) (h : Handle) (event : Event) : Engine :=
  let (channel, metrics) := e.channel.publish e.metrics h event
  { e with channel, metrics }

theorem publish_of_running {e : Engine} (haccepting : e.accepting = true)
    (hreceiving : e.channel.receiving = true) (event : Event) :
    e.publish e.handle event =
      { e with
        channel := { e.channel with queue := e.channel.queue ++ [event] }
        metrics := e.metrics.countPublished } := by
  simp [publish, handle, haccepting, Channel.publish, hreceiving]

def within {α : Type} (e : Engine) (type : String) (f : Attempt α) : Service (Except Error α) :=
  if e.registry.has type then Flow.on type f.run
  else pure (.error (.notFound .contentType type))

def create (e : Engine) (type : String) (item : ItemId) (inputs : List Submission)
    (actor : Actor) : Service (Except Error Creation.Report) :=
  e.within type (Creation.create item inputs actor)

def edit (e : Engine) (type : String) (item : ItemId) (language : LanguageId) (text : Text)
    (actor : Actor) : Service (Except Error Edit.Report × Engine) := do
  let h := e.handle
  match ← e.within type (Edit.edit type item language text actor) with
  | .error error => return (.error error, e)
  | .ok (report, none) => return (.ok report, e)
  | .ok (report, some event) => return (.ok report, e.publish h event)

def unpin (e : Engine) (type : String) (item : ItemId) (language : LanguageId)
    (actor : Actor) : Service (Except Error RecordId) :=
  e.within type (Edit.unpin item language actor)

def reconcile (e : Engine) (type : String) :
    Service (Except Error Reconciliation.Report × Engine) := do
  match ← e.within type (Reconciliation.run type e.actor) with
  | .error error => return (.error error, e)
  | .ok pass => return (.ok pass.report, { e with metrics := e.metrics + pass.metrics })

def reconcileEach (e : Engine) :
    List String → Service (List Reconciliation.Report × Engine)
  | [] => pure ([], e)
  | type :: rest => do
      let pass ← (Reconciliation.run type e.actor).on type
      let (reports, e) ← { e with metrics := e.metrics + pass.metrics }.reconcileEach rest
      return (pass.report :: reports, e)

def reconcileAll (e : Engine) : Service (List Reconciliation.Report × Engine) :=
  e.reconcileEach e.registry.names

def backfill (e : Engine) (code : String) : Service (Backfill.Summary × Engine) := do
  let (summary, metrics) ← Backfill.run e.registry.names e.actor code
  return (summary, { e with metrics := e.metrics + metrics })

def settle (m : Metrics) : Option Propagation.Outcome → Metrics
  | some (.applied tally) => (m.countTally tally).countApplied
  | some (.dropped _) => m.countDropped
  | none => m.countDropped

section Worker

variable {σ : Type} (backend : Backend σ)

/-- The worker's part for one event. A handler that breaks off costs only its event. -/
def dispatch (e : Engine) (event : Event) (s : σ) : Engine × σ :=
  if e.registry.has event.contentType then
    let (outcome, s) :=
      (Flow.on event.contentType (Propagation.handle event)).attempt backend s
    ({ e with metrics := settle e.metrics outcome }, s)
  else ({ e with metrics := e.metrics.countDropped }, s)

def work (e : Engine) (s : σ) : Engine × σ :=
  match e.channel.receive with
  | (.event event, channel) => { e with channel }.dispatch backend event s
  | _ => (e, s)

def drain (e : Engine) (s : σ) : Engine × σ :=
  Nat.repeat (fun p => p.1.work backend p.2) e.channel.queue.length (e, s)

def stopAccepting (e : Engine) : Engine :=
  if e.accepting then { e with accepting := false, channel := e.channel.releaseHandle } else e

/-- The worker ends once nothing waits and no handle is left. -/
def stopWorker (e : Engine) : Engine :=
  if e.channel.queue.isEmpty && e.channel.handles == 0 then
    { e with channel := e.channel.dropReceiver }
  else e

def shutdown (e : Engine) (s : σ) : Engine × σ :=
  let (e, s) := e.stopAccepting.drain backend s
  (e.stopWorker, s)

end Worker

end Engine

end Polyglot
