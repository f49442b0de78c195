import Polyglot.Proofs.Engine.Passes

/-!
An engine among those who use it: edits under way, services with handles of their own, the worker,
and calls of shutdown. Each act is one step of one of them, and any act may follow any other.
-/

namespace Polyglot

structure Holder where
  handle : Handle
  /-- Whether the engine had stopped accepting when it gave the handle out. -/
  late : Bool
deriving DecidableEq

def Holder.Live (h : Holder) : Prop := h.handle = .joined

instance : DecidablePred Holder.Live := fun h => inferInstanceAs (Decidable (h.handle = .joined))

abbrev Edit.Result := Except Error (Edit.Report × Option Event)

structure Editor where
  holder : Holder
  rest : Service Edit.Result

inductive Worker where
  | idle
  | busy (event : Event) (rest : Service Propagation.Outcome)
  | ended

namespace Worker

def inHand : Worker → List Event
  | .busy event _ => [event]
  | _ => []

def hasEnded : Worker → Bool
  | .ended => true
  | _ => false

theorem hasEnded_iff {w : Worker} : w.hasEnded = true ↔ w = .ended := by
  cases w <;> simp [hasEnded]

end Worker

inductive Notice where
  | published (holder : Holder) (event : Event) (accepted : Bool)
  /-- The worker is through with an event. There is no outcome if its content type is not
  registered, or if its handler broke off. -/
  | handled (event : Event) (outcome : Option Propagation.Outcome)
  | reconciled (report : Reconciliation.Report)
  | backfilled (summary : Backfill.Summary)
  /-- A call of shutdown came back. Only one call takes the worker and waits for it. -/
  | shutDown (tookWorker : Bool)
deriving DecidableEq

namespace Notice

def accepted? : Notice → Option Event
  | .published _ event true => some event
  | _ => none

def handled? : Notice → Option Event
  | .handled event _ => some event
  | _ => none

/-- The notices of whole operations, which have nothing to do with the queue. -/
def Aside : Notice → Prop
  | .reconciled _ => True
  | .backfilled _ => True
  | _ => False

def count (m : Metrics) : Notice → Metrics
  | .published _ _ true => m.countPublished
  | .published _ _ false => m.countDropped
  | .handled _ outcome => Engine.settle m outcome
  | .reconciled report => m + report.metrics
  | .backfilled _ => m.countBackfillRun
  | .shutDown _ => m

theorem count_reports (m : Metrics) (reports : List Reconciliation.Report) :
    (reports.map reconciled).foldl count m = Reconciliation.reported m reports :=
  List.foldl_map

end Notice

def accepted (log : List Notice) : List Event := log.filterMap Notice.accepted?

def handled (log : List Notice) : List Event := log.filterMap Notice.handled?

structure Closing where
  /-- How many of them have taken the engine's handle and come to its worker next. -/
  calls : Nat
  unclaimed : Bool
  waiting : Bool
deriving DecidableEq

structure Office (σ : Type) where
  engine : Engine
  stores : σ
  editors : List Editor
  outside : List Holder
  worker : Worker
  closing : Closing
  /-- The oldest notice stands first. -/
  log : List Notice

inductive Act (σ : Type) where
  | begin (type : String) (item : ItemId) (language : LanguageId) (text : Text) (actor : Actor)
  /-- The edit in this place goes on: by one call, by publishing its event, or to its end. -/
  | advance (place : Nat)
  | abandon (place : Nat)
  | acquire
  | clone (place : Nat)
  | send (place : Nat) (event : Event)
  | release (place : Nat)
  /-- The worker receives an event, or its handler goes on by one call or to its end. -/
  | work
  | panic
  /-- A call of shutdown takes the engine's handle. -/
  | close
  /-- A call of shutdown comes to the worker. -/
  | claim
  /-- The call of shutdown that waits sees that the worker has ended. -/
  | await
  | create (type : String) (item : ItemId) (inputs : List Submission) (actor : Actor)
  | unpin (type : String) (item : ItemId) (language : LanguageId) (actor : Actor)
  | reconcile (type : String)
  | reconcileAll
  | backfill (code : String)
  | meanwhile (change : σ → σ)

namespace Engine

def handOut (e : Engine) : Holder := ⟨e.handle, !e.accepting⟩

def hold (e : Engine) : Handle → Engine
  | .joined => { e with channel := e.channel.cloneHandle }
  | .closed => e

def letGo (e : Engine) : Handle → Engine
  | .joined => { e with channel := e.channel.releaseHandle }
  | .closed => e

/-- Whether an event published through this handle now will be received. -/
def accepts (e : Engine) (h : Handle) : Bool := h = .joined ∧ e.channel.receiving

theorem publish_eq (e : Engine) (h : Handle) (event : Event) :
    e.publish h event =
      if e.accepts h then
        { e with
          channel := { e.channel with queue := e.channel.queue ++ [event] }
          metrics := e.metrics.countPublished }
      else { e with metrics := e.metrics.countDropped } := by
  simp only [publish, Channel.publish, accepts, decide_eq_true_eq]
  split <;> rfl

theorem publish_closed (e : Engine) (event : Event) :
    e.publish .closed event = { e with metrics := e.metrics.countDropped } := by
  simp [publish_eq, accepts]

end Engine

namespace Office

variable {σ : Type}

def opened (registry : Registry) (actor : Actor) (stores : σ) : Office σ :=
  { engine := .start registry actor, stores, editors := [], outside := [], worker := .idle
    closing := ⟨0, true, false⟩, log := [] }

def holders (o : Office σ) : List Holder := o.editors.map (·.holder) ++ o.outside

def note (o : Office σ) (n : Notice) : Office σ := { o with log := o.log ++ [n] }

def publish (o : Office σ) (holder : Holder) (event : Event) : Office σ :=
  { o with
    engine := o.engine.publish holder.handle event
    log := o.log ++ [.published holder event (o.engine.accepts holder.handle)] }

def dismiss (o : Office σ) (place : Nat) : Office σ :=
  match o.editors[place]? with
  | some editor =>
      { o with
        engine := o.engine.letGo editor.holder.handle
        editors := o.editors.eraseIdx place }
  | none => o

def settle (o : Office σ) (event : Event) (outcome : Option Propagation.Outcome) : Office σ :=
  { o with
    engine := { o.engine with metrics := Engine.settle o.engine.metrics outcome }
    worker := .idle
    log := o.log ++ [.handled event outcome] }

def begin (o : Office σ) (type : String) (item : ItemId) (language : LanguageId) (text : Text)
    (actor : Actor) : Office σ :=
  -- An edit of a content type that is not registered ends before it takes a handle.
  if o.engine.registry.has type then
    let rest := o.engine.within type (Edit.edit type item language text actor)
    { o with
      engine := o.engine.hold o.engine.handle
      editors := o.editors ++ [⟨o.engine.handOut, rest⟩] }
  else o

def lend (o : Office σ) (holder : Holder) : Office σ :=
  { o with engine := o.engine.hold holder.handle, outside := o.outside ++ [holder] }

def release (o : Office σ) (place : Nat) : Office σ :=
  match o.outside[place]? with
  | some holder =>
      { o with
        engine := o.engine.letGo holder.handle
        outside := o.outside.eraseIdx place }
  | none => o

def panic (o : Office σ) : Office σ :=
  match o.worker with
  | .busy event _ => o.settle event none
  | _ => o

def claim (o : Office σ) : Office σ :=
  match o.closing with
  | ⟨0, _, _⟩ => o
  | ⟨calls + 1, true, _⟩ => { o with closing := ⟨calls, false, true⟩ }
  | ⟨calls + 1, false, waiting⟩ =>
      { o with closing := ⟨calls, false, waiting⟩ }.note (.shutDown false)

def await (o : Office σ) : Office σ :=
  if o.closing.waiting && o.worker.hasEnded then
    { o with closing := { o.closing with waiting := false } }.note (.shutDown true)
  else o

section Step

variable (answer : (c : Call) → σ → c.Reply × σ)

def advance (o : Office σ) (place : Nat) : Office σ :=
  match o.editors[place]? with
  | none => o
  | some ⟨holder, .ask c next⟩ =>
      let (reply, stores) := answer c o.stores
      { o with stores, editors := o.editors.set place ⟨holder, next reply⟩ }
  | some ⟨holder, .done (.ok (report, some event))⟩ =>
      { o.publish holder event with
        editors := o.editors.set place ⟨holder, .done (.ok (report, none))⟩ }
  | some ⟨_, .done _⟩ => o.dismiss place

def work (o : Office σ) : Office σ :=
  match o.worker with
  | .idle =>
      match o.engine.channel.receive with
      | (.event event, channel) =>
          let o := { o with engine := { o.engine with channel } }
          if o.engine.registry.has event.contentType then
            let rest := Flow.on event.contentType (Propagation.handle event)
            { o with worker := .busy event rest }
          else o.settle event none
      | (.closed, channel) =>
          { o with engine := { o.engine with channel := channel.dropReceiver }, worker := .ended }
      | _ => o
  | .busy event (.ask c next) =>
      let (reply, stores) := answer c o.stores
      { o with stores, worker := .busy event (next reply) }
  | .busy event (.done outcome) => o.settle event (some outcome)
  | .ended => o

def reconcile (o : Office σ) (type : String) : Office σ :=
  match (o.engine.reconcile type).run answer o.stores with
  | ((.ok report, engine), stores) => { o with engine, stores }.note (.reconciled report)
  | ((.error _, engine), stores) => { o with engine, stores }

def reconcileAll (o : Office σ) : Office σ :=
  let ((reports, engine), stores) := o.engine.reconcileAll.run answer o.stores
  { o with engine, stores, log := o.log ++ reports.map .reconciled }

def backfill (o : Office σ) (code : String) : Office σ :=
  let ((summary, engine), stores) := (o.engine.backfill code).run answer o.stores
  let course := Backfill.course o.engine.registry.names o.engine.actor code
  let passes := (course.run answer o.stores).1.2
  { o with
    engine, stores
    log := o.log ++ .backfilled summary :: passes.map fun pass => .reconciled pass.report }

/-- One step of whoever acts. What cannot happen now changes nothing. -/
def step (o : Office σ) : Act σ → Office σ
  | .begin type item language text actor => o.begin type item language text actor
  | .advance place => o.advance answer place
  | .abandon place => o.dismiss place
  | .acquire => o.lend o.engine.handOut
  | .clone place => (o.outside[place]?).elim o o.lend
  | .send place event => (o.outside[place]?).elim o (o.publish · event)
  | .release place => o.release place
  | .work => o.work answer
  | .panic => o.panic
  | .close =>
      { o with
        engine := o.engine.stopAccepting
        closing := { o.closing with calls := o.closing.calls + 1 } }
  | .claim => o.claim
  | .await => o.await
  | .create type item inputs actor =>
      { o with stores := ((o.engine.create type item inputs actor).run answer o.stores).2 }
  | .unpin type item language actor =>
      { o with stores := ((o.engine.unpin type item language actor).run answer o.stores).2 }
  | .reconcile type => o.reconcile answer type
  | .reconcileAll => o.reconcileAll answer
  | .backfill code => o.backfill answer code
  | .meanwhile change => { o with stores := change o.stores }

def run (o : Office σ) (acts : List (Act σ)) : Office σ := acts.foldl (step answer) o

@[simp] theorem run_nil (o : Office σ) : o.run answer [] = o := rfl

@[simp] theorem run_cons (o : Office σ) (act : Act σ) (rest : List (Act σ)) :
    o.run answer (act :: rest) = (o.step answer act).run answer rest := rfl

theorem run_append (o : Office σ) (acts later : List (Act σ)) :
    o.run answer (acts ++ later) = (o.run answer acts).run answer later :=
  List.foldl_append

end Step

/-- A whole operation changes the stores and what is counted, and writes this down. -/
def Counted (o o' : Office σ) (notices : List Notice) : Prop :=
  (∀ n ∈ notices, n.Aside) ∧ ∃ stores,
    o' = { o with
      engine := { o.engine with metrics := notices.foldl Notice.count o.engine.metrics }
      stores, log := o.log ++ notices }

section Operations

variable (answer : (c : Call) → σ → c.Reply × σ) (o : Office σ)

theorem counted_nil (stores : σ) : o.Counted { o with stores } [] := by
  refine ⟨nofun, stores, ?_⟩
  rw [List.append_nil]
  rfl

theorem counted_reports (stores : σ) (reports : List Reconciliation.Report) :
    o.Counted { o with
      engine :=
        { o.engine with metrics := Reconciliation.reported o.engine.metrics reports }
      stores, log := o.log ++ reports.map .reconciled } (reports.map .reconciled) := by
  refine ⟨?_, stores, by rw [Notice.count_reports]⟩
  simp [Notice.Aside]

theorem counted_reconcile (type : String) :
    ∃ reports : List Reconciliation.Report,
      o.Counted (o.reconcile answer type) (reports.map .reconciled) ∧
      reports.map (·.contentType) = if o.engine.registry.has type then [type] else [] := by
  obtain ⟨hengine, htypes⟩ := Engine.run_reconcile answer o.engine type o.stores
  rw [reconcile]
  generalize (o.engine.reconcile type).run answer o.stores = out at hengine htypes
  obtain ⟨⟨result, engine⟩, stores⟩ := out
  dsimp only at hengine
  subst hengine
  refine ⟨_, ?_, htypes⟩
  cases result with
  | error e => exact o.counted_nil stores
  | ok report => exact o.counted_reports stores [report]

theorem counted_reconcileAll :
    ∃ reports : List Reconciliation.Report,
      o.Counted (o.reconcileAll answer) (reports.map .reconciled) ∧
      reports.map (·.contentType) = o.engine.registry.names := by
  obtain ⟨hengine, htypes⟩ := Engine.run_reconcileAll answer o.engine o.stores
  rw [reconcileAll]
  generalize o.engine.reconcileAll.run answer o.stores = out at hengine htypes
  obtain ⟨⟨reports, engine⟩, stores⟩ := out
  dsimp only at hengine
  subst hengine
  exact ⟨reports, o.counted_reports stores reports, htypes⟩

theorem counted_backfill (code : String) :
    let summary := ((o.engine.backfill code).run answer o.stores).1.1
    ∃ reports : List Reconciliation.Report,
      o.Counted (o.backfill answer code) (.backfilled summary :: reports.map .reconciled) ∧
      reports.map (·.contentType) =
        if summary.aborted.isNone then o.engine.registry.names else [] := by
  have htypes := Backfill.contentTypes_course answer o.engine.registry.names o.engine.actor code
    o.stores
  rw [backfill, Engine.run_backfill]
  dsimp only
  set course := (Backfill.course o.engine.registry.names o.engine.actor code).run answer o.stores
  refine ⟨course.1.2.map (·.report), ⟨by simp [Notice.Aside], course.2, ?_⟩, ?_⟩
  · rw [List.foldl_cons, Notice.count_reports, List.map_map]
    rfl
  · rw [List.map_map]
    exact htypes

end Operations

end Office

end Polyglot
