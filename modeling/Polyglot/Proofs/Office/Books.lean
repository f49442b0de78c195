import Polyglot.Proofs.Office.Delivery

namespace Polyglot

namespace Notice

/-- The event that was to be published, accepted or not. -/
def offered? : Notice → Option Event
  | .published _ event _ => some event
  | _ => none

def tally? : Notice → Option Tally
  | .handled _ (some (.applied tally)) => some tally
  | _ => none

def report? : Notice → Option Reconciliation.Report
  | .reconciled report => some report
  | _ => none

def summary? : Notice → Option Backfill.Summary
  | .backfilled summary => some summary
  | _ => none

end Notice

section Log

variable (log : List Notice)

/-- The events of all calls of publish. -/
def offered : List Event := log.filterMap Notice.offered?

def tallies : List Tally := log.filterMap Notice.tally?

def reports : List Reconciliation.Report := log.filterMap Notice.report?

def summaries : List Backfill.Summary := log.filterMap Notice.summary?

theorem offered_append (later : List Notice) :
    offered (log ++ later) = offered log ++ offered later :=
  List.filterMap_append

theorem tallies_append (later : List Notice) :
    tallies (log ++ later) = tallies log ++ tallies later :=
  List.filterMap_append

theorem reports_append (later : List Notice) :
    reports (log ++ later) = reports log ++ reports later :=
  List.filterMap_append

theorem summaries_append (later : List Notice) :
    summaries (log ++ later) = summaries log ++ summaries later :=
  List.filterMap_append

theorem reports_map_reconciled (l : List Reconciliation.Report) :
    reports (l.map .reconciled) = l := by
  simp [reports, Notice.report?, List.filterMap_map, Function.comp_def]

theorem summaries_map_reconciled (l : List Reconciliation.Report) :
    summaries (l.map .reconciled) = [] := by
  simp [summaries, Notice.summary?, List.filterMap_map, Function.comp_def]

theorem length_tallies_le : (tallies log).length ≤ (handled log).length := by
  induction log with
  | nil => exact Nat.le_refl _
  | cons n rest ih =>
      cases n with
      | handled event outcome =>
          rcases outcome with _ | tally | reason
          all_goals
            simp only [tallies, handled, Notice.tally?, Notice.handled?, List.filterMap_cons,
              List.length_cons] at ih ⊢
            omega
      | _ => exact ih

theorem length_accepted_le : (accepted log).length ≤ (offered log).length := by
  induction log with
  | nil => exact Nat.le_refl _
  | cons n rest ih =>
      cases n with
      | published holder event taken =>
          cases taken
          all_goals
            simp only [accepted, offered, Notice.accepted?, Notice.offered?, List.filterMap_cons,
              List.length_cons] at ih ⊢
            omega
      | _ => exact ih

/-- The counters `m'` are `m` and what the notices say. -/
structure Entered (m m' : Metrics) : Prop where
  published : m'.published = m.published + (accepted log).length
  applied : m'.applied = m.applied + (tallies log).length
  /-- Dropped is what was offered and not accepted, or handled and not applied. -/
  dropped : m'.dropped + (accepted log).length + (tallies log).length =
    m.dropped + (offered log).length + (handled log).length
  synced : m'.recordsSynced = m.recordsSynced + ((reports log).map (·.synced)).sum +
    ((tallies log).map (·.synced)).sum
  failures : m'.recordFailures = m.recordFailures + ((reports log).map (·.failed)).sum +
    ((tallies log).map (·.failed)).sum
  passes : m'.reconcileRuns = m.reconcileRuns + (reports log).length
  backfills : m'.backfillRuns = m.backfillRuns + (summaries log).length

end Log

theorem entered_count (n : Notice) (m : Metrics) : Entered [n] m (n.count m) := by
  cases n with
  | published holder event taken => cases taken <;> exact ⟨rfl, rfl, rfl, rfl, rfl, rfl, rfl⟩
  | handled event outcome =>
      rcases outcome with _ | tally | reason <;> exact ⟨rfl, rfl, rfl, rfl, rfl, rfl, rfl⟩
  | _ => exact ⟨rfl, rfl, rfl, rfl, rfl, rfl, rfl⟩

theorem Entered.trans {log later : List Notice} {m m' m'' : Metrics} (h : Entered log m m')
    (h' : Entered later m' m'') : Entered (log ++ later) m m'' := by
  obtain ⟨hpublished, happlied, hdropped, hsynced, hfailures, hpasses, hbackfills⟩ := h
  obtain ⟨hpublished', happlied', hdropped', hsynced', hfailures', hpasses', hbackfills'⟩ := h'
  constructor
  all_goals
    simp only [accepted_append, handled_append, offered_append, tallies_append, reports_append,
      summaries_append, List.length_append, List.map_append, List.sum_append]
    omega

theorem entered_foldl (log : List Notice) (m : Metrics) :
    Entered log m (log.foldl Notice.count m) := by
  induction log generalizing m with
  | nil => exact ⟨rfl, rfl, rfl, rfl, rfl, rfl, rfl⟩
  | cons n rest ih => exact (entered_count n m).trans (ih (n.count m))

namespace Engine

variable (e : Engine) (h : Handle)

theorem metrics_hold : (e.hold h).metrics = e.metrics := by
  cases h <;> rfl

theorem metrics_letGo : (e.letGo h).metrics = e.metrics := by
  cases h <;> rfl

theorem metrics_stopAccepting : e.stopAccepting.metrics = e.metrics := by
  rw [stopAccepting]
  split <;> rfl

end Engine

namespace Office

variable {σ : Type} (answer : (c : Call) → σ → c.Reply × σ)

def started (o : Office σ) : Act σ → List String
  | .reconcile type => if o.engine.registry.has type then [type] else []
  | .reconcileAll => o.engine.registry.names
  | .backfill code =>
      let summary := ((o.engine.backfill code).run answer o.stores).1.1
      if summary.aborted.isNone then o.engine.registry.names else []
  | _ => []

def startedBy (o : Office σ) : List (Act σ) → List String
  | [] => []
  | act :: rest => o.started answer act ++ (o.step answer act).startedBy rest

end Office

def Act.isBackfill {σ : Type} : Act σ → Bool
  | .backfill _ => true
  | _ => false

namespace Office

variable {σ : Type}

/-- What the acts between two states write down, and what they count is just that. -/
structure Writes (o o' : Office σ) (later : List Notice) : Prop where
  log : o'.log = o.log ++ later
  metrics : o'.engine.metrics = later.foldl Notice.count o.engine.metrics

namespace Writes

variable {o o' o'' : Office σ} {later later' : List Notice}

theorem nothing (hlog : o'.log = o.log) (hmetrics : o'.engine.metrics = o.engine.metrics) :
    Writes o o' [] :=
  ⟨hlog.trans (List.append_nil _).symm, hmetrics⟩

theorem trans (h : Writes o o' later) (h' : Writes o' o'' later') :
    Writes o o'' (later ++ later') where
  log := by rw [h'.log, h.log, List.append_assoc]
  metrics := by rw [h'.metrics, h.metrics, List.foldl_append]

theorem counted (h : o.Counted o' later) : Writes o o' later := by
  obtain ⟨_, stores, rfl⟩ := h
  exact ⟨rfl, rfl⟩

theorem publish (o : Office σ) (holder : Holder) (event : Event) :
    Writes o (o.publish holder event)
      [.published holder event (o.engine.accepts holder.handle)] := by
  refine ⟨rfl, ?_⟩
  rw [Office.publish, Engine.publish_eq]
  cases o.engine.accepts holder.handle <;> rfl

theorem settle (o : Office σ) (event : Event) (outcome : Option Propagation.Outcome) :
    Writes o (o.settle event outcome) [.handled event outcome] := ⟨rfl, rfl⟩

end Writes

/-- No pass and no backfill is written down. -/
def Minor (o o' : Office σ) : Prop :=
  ∃ later, Writes o o' later ∧ reports later = [] ∧ summaries later = []

namespace Minor

variable {o o' : Office σ}

theorem nothing (hlog : o'.log = o.log) (hmetrics : o'.engine.metrics = o.engine.metrics) :
    Minor o o' :=
  ⟨[], .nothing hlog hmetrics, rfl, rfl⟩

theorem refl (o : Office σ) : Minor o o := .nothing rfl rfl

theorem of_turn (h : Turn o o') : Minor o o' := by
  cases h with
  | join holder => exact .nothing rfl (Engine.metrics_hold ..)
  | leave holder => exact .nothing rfl (Engine.metrics_letGo ..)
  | publish holder event editors hholders =>
      obtain ⟨hlog, hmetrics⟩ := Writes.publish o holder event
      exact ⟨_, ⟨hlog, hmetrics⟩, rfl, rfl⟩
  | misdirected event => exact ⟨[.handled event none], ⟨rfl, rfl⟩, rfl, rfl⟩
  | settle event rest outcome => exact ⟨_, .settle o event outcome, rfl, rfl⟩
  | _ => exact .nothing rfl rfl

theorem claim (o : Office σ) : Minor o o.claim := by
  rw [Office.claim]
  split
  · exact .refl o
  · exact .nothing rfl rfl
  · exact ⟨[.shutDown false], ⟨rfl, rfl⟩, rfl, rfl⟩

theorem await (o : Office σ) : Minor o o.await := by
  rw [Office.await]
  split
  · exact ⟨[.shutDown true], ⟨rfl, rfl⟩, rfl, rfl⟩
  · exact .refl o

end Minor

section Run

variable (answer : (c : Call) → σ → c.Reply × σ)

/-- Passes and backfills are written down by the acts that start them, and by no other act. -/
theorem writes_step (o : Office σ) (act : Act σ) :
    ∃ later, Writes o (o.step answer act) later ∧
      (reports later).map (·.contentType) = o.started answer act ∧
      (summaries later).length = act.isBackfill.toNat := by
  have hminor {o' : Office σ} (h : Minor o o') : ∃ later, Writes o o' later ∧
      (reports later).map (·.contentType) = [] ∧ (summaries later).length = 0 := by
    obtain ⟨later, hwrites, hreports, hsummaries⟩ := h
    exact ⟨later, hwrites, by rw [hreports]; rfl, by rw [hsummaries]; rfl⟩
  have hpasses (l : List Reconciliation.Report) {types : List String}
      (htypes : l.map (·.contentType) = types) :
      (reports (l.map .reconciled)).map (·.contentType) = types ∧
        (summaries (l.map .reconciled)).length = 0 := by
    rw [reports_map_reconciled, summaries_map_reconciled]
    exact ⟨htypes, rfl⟩
  cases act with
  | close => exact hminor (.nothing rfl (Engine.metrics_stopAccepting o.engine))
  | claim => exact hminor (.claim o)
  | await => exact hminor (.await o)
  | create => exact hminor (.nothing rfl rfl)
  | unpin => exact hminor (.nothing rfl rfl)
  | reconcile type =>
      obtain ⟨l, hcounted, htypes⟩ := o.counted_reconcile answer type
      exact ⟨_, .counted hcounted, hpasses l htypes⟩
  | reconcileAll =>
      obtain ⟨l, hcounted, htypes⟩ := o.counted_reconcileAll answer
      exact ⟨_, .counted hcounted, hpasses l htypes⟩
  | backfill code =>
      obtain ⟨l, hcounted, htypes⟩ := o.counted_backfill answer code
      obtain ⟨hreports, hsummaries⟩ := hpasses l htypes
      exact ⟨_, .counted hcounted, hreports, congrArg Nat.succ hsummaries⟩
  | meanwhile change => exact hminor (.nothing rfl rfl)
  | _ => exact hminor (.of_turn (.of_step answer o trivial))

theorem writes_run (o : Office σ) (acts : List (Act σ)) :
    ∃ later, Writes o (o.run answer acts) later ∧
      (reports later).map (·.contentType) = o.startedBy answer acts ∧
      (summaries later).length = acts.countP (·.isBackfill) := by
  induction acts generalizing o with
  | nil => exact ⟨[], .nothing rfl rfl, rfl, rfl⟩
  | cons act rest ih =>
      obtain ⟨now, hnow, htypes, hbackfills⟩ := o.writes_step answer act
      obtain ⟨later, hlater, htypes', hbackfills'⟩ := ih (o.step answer act)
      refine ⟨now ++ later, hnow.trans hlater, ?_, ?_⟩
      · rw [reports_append, List.map_append, htypes, htypes']
        rfl
      · rw [summaries_append, List.length_append, hbackfills, hbackfills', List.countP_cons]
        cases act.isBackfill <;> simp [Nat.add_comm]

/-- However the acts follow each other, the counters are in balance with what has happened. Each
event of a call of publish is applied, dropped, at work or still queued, and once a shutdown
has come back, with none still waiting, nothing is left. Records are counted as the reports of all
passes and the tallies of all applied events say, passes as they are started, and backfills as
they are called, aborted ones among them. -/
theorem counters_balance (registry : Registry) (actor : Actor) (s : σ) (acts : List (Act σ)) :
    let start := opened registry actor s
    let o := start.run answer acts
    let m := o.engine.metrics
    (offered o.log).length =
      m.applied + m.dropped + o.worker.inHand.length + o.engine.channel.queue.length ∧
    m.applied ≤ m.published ∧ m.published ≤ (offered o.log).length ∧
    (∀ took, .shutDown took ∈ o.log → o.closing.waiting = false →
      o.worker.inHand = [] ∧ o.engine.channel.queue = []) ∧
    m.recordsSynced = ((reports o.log).map (·.synced)).sum +
      ((tallies o.log).map (·.synced)).sum ∧
    m.recordFailures = ((reports o.log).map (·.failed)).sum +
      ((tallies o.log).map (·.failed)).sum ∧
    (reports o.log).map (·.contentType) = start.startedBy answer acts ∧
    m.reconcileRuns = (start.startedBy answer acts).length ∧
    m.backfillRuns = acts.countP (·.isBackfill) := by
  intro start o m
  have hkept : Kept o := (Kept.opened registry actor s).run answer acts
  have hcalled : Called o := (Called.opened registry actor s).run answer acts
  obtain ⟨log, hwrites, htypes, hbackfills⟩ := start.writes_run answer acts
  obtain rfl : o.log = log := hwrites.log
  have hbooks : Entered o.log .zero m := by
    rw [show m = _ from hwrites.metrics]
    exact entered_foldl o.log .zero
  have hevents := congrArg List.length hkept.events
  rw [List.length_append, List.length_append] at hevents
  obtain ⟨hpublished, happlied, hdropped, hsynced, hfailures, hpasses, hcalls⟩ := hbooks
  simp only [Metrics.zero, Nat.zero_add] at hpublished happlied hdropped
  simp only [Metrics.zero, Nat.zero_add] at hsynced hfailures hpasses hcalls
  have htallies := length_tallies_le o.log
  have haccepted := length_accepted_le o.log
  refine ⟨by omega, by omega, by omega, fun took hreturned hwaiting => ?_, hsynced, hfailures,
    htypes, ?_, hcalls.trans hbackfills⟩
  · have hclaimed := hcalled.claimed (hcalled.returned took hreturned)
    have hended := hcalled.drained (hclaimed.resolve_left (by simp [hwaiting]))
    refine ⟨by rw [hended]; rfl, (hkept.ended (Worker.hasEnded_iff.mpr hended)).1⟩
  · rw [hpasses, ← htypes, List.length_map]

end Run

end Office

namespace Bilingual

/-- After the shutdown the engine still reconciles; a backfill of an unknown language is aborted. -/
def lateActs : List (Act World) :=
  beforeClosing ++ whileClosing ++
    [.work, .await, .close, .claim, .reconcile "page", .backfill "de", .backfill "fr"]

def late : Office World :=
  (Office.opened ⟨[("page", 5)]⟩ "sync" site).run World.answer lateActs

end Bilingual

namespace Office

open Bilingual in
theorem four_events_accounted_for :
    late.engine.metrics = ⟨3, 3, 1, 1, 0, 2, 2⟩ ∧ (offered late.log).length = 4 ∧
      late.engine.channel.queue = [] := by
  have hmetrics : late.engine.metrics = ⟨3, 3, 1, 1, 0, 2, 2⟩ := by cbv
  have hreturned : late.log.contains (.shutDown true) = true := by cbv
  have hwaiting : late.closing.waiting = false := by cbv
  obtain ⟨(hoffered : (offered late.log).length = late.engine.metrics.applied +
      late.engine.metrics.dropped + late.worker.inHand.length + late.engine.channel.queue.length),
    -, -, hnothing, -⟩ := counters_balance World.answer ⟨[("page", 5)]⟩ "sync" site lateActs
  obtain ⟨(hinHand : late.worker.inHand = []), (hqueue : late.engine.channel.queue = [])⟩ :=
    hnothing true (List.contains_iff_mem.mp hreturned) hwaiting
  refine ⟨hmetrics, ?_, hqueue⟩
  rw [hoffered, hmetrics, hinHand, hqueue]
  rfl

end Office

end Polyglot
