import Polyglot.Proofs.Engine.Isolation

namespace Polyglot

namespace Metrics

theorem add_assoc (a b c : Metrics) : a + b + c = a + (b + c) := by
  change Metrics.mk .. = Metrics.mk ..
  simp only [Metrics.mk.injEq]
  refine ⟨?_, ?_, ?_, ?_, ?_, ?_, ?_⟩ <;> exact Nat.add_assoc _ _ _

end Metrics

theorem Flow.run_liftM {α : Type} (flow : Flow α) :
    (liftM flow : Attempt α).run = flow >>= fun a => pure (.ok a) := by
  change (ExceptT.lift flow).run = _
  rw [ExceptT.run_lift, map_eq_pure_bind]

namespace Reconciliation

def Report.metrics (r : Report) : Metrics :=
  { Metrics.zero with recordsSynced := r.synced, recordFailures := r.failed, reconcileRuns := 1 }

def reported (m : Metrics) (reports : List Report) : Metrics :=
  reports.foldl (fun m report => m + report.metrics) m

def counted (m : Metrics) (passes : List Pass) : Metrics :=
  passes.foldl (fun m pass => m + pass.metrics) m

theorem add_counted (m n : Metrics) (passes : List Pass) :
    m + counted n passes = counted (m + n) passes := by
  induction passes generalizing n with
  | nil => rfl
  | cons pass rest ih => exact (ih (n + pass.metrics)).trans (by rw [← Metrics.add_assoc]; rfl)

theorem counted_eq_reported {passes : List Pass}
    (h : ∀ pass ∈ passes, pass.metrics = pass.report.metrics) (m : Metrics) :
    counted m passes = reported m (passes.map (·.report)) := by
  induction passes generalizing m with
  | nil => rfl
  | cons pass rest ih =>
      rw [List.forall_mem_cons] at h
      exact (ih h.2 _).trans (congrArg (reported · (rest.map (·.report))) (congrArg (m + ·) h.1))

theorem metrics_enter {pass : Pass} (h : pass.metrics = pass.report.metrics)
    (outcome : Except Error ItemOutcome) :
    (pass.enter outcome).metrics = (pass.enter outcome).report.metrics := by
  obtain ⟨report, metrics⟩ := pass
  obtain rfl : metrics = report.metrics := h
  rcases outcome with e | tally | _ <;> rfl

section Run

variable {σ : Type} {answer : (c : Call) → σ → c.Reply × σ}

theorem metrics_reconcileItems (base : LanguageId) (active : List LanguageId) (actor : Actor)
    (items : List ItemId) {pass : Pass} (h : pass.metrics = pass.report.metrics)
    (ask : (q : Query) → σ → q.Reply × σ) (s : σ) :
    let pass' := ((reconcileItems base active actor items pass).run ask s).1
    pass'.metrics = pass'.report.metrics := by
  induction items generalizing pass s with
  | nil => exact h
  | cons item rest ih =>
      rw [reconcileItems, Program.run_bind]
      exact ih (metrics_enter h _) _

theorem metrics_run (type : String) (actor : Actor) (ask : (q : Query) → σ → q.Reply × σ) (s : σ) :
    let pass := ((run type actor).run ask s).1
    pass.metrics = pass.report.metrics := by
  rw [run, Program.run_bind]
  cases (survey.run.run ask s).1 with
  | error e => rfl
  | ok found => exact metrics_reconcileItems _ _ _ _ rfl _ _

def runEach (actor : Actor) : List String → Service (List Pass)
  | [] => pure []
  | type :: rest => do
      let pass ← (run type actor).on type
      let passes ← runEach actor rest
      return pass :: passes

theorem metrics_runEach (actor : Actor) (types : List String) (s : σ) :
    ∀ pass ∈ ((runEach actor types).run answer s).1, pass.metrics = pass.report.metrics := by
  induction types generalizing s with
  | nil => nofun
  | cons type rest ih =>
      intro pass hpass
      rw [runEach, Program.run_bind, Program.run_bind] at hpass
      rcases List.mem_cons.mp hpass with rfl | hrest
      · rw [Flow.on_run]
        exact metrics_run type actor _ s
      · exact ih _ pass hrest

theorem contentTypes_runEach (actor : Actor) (types : List String) (s : σ) :
    ((runEach actor types).run answer s).1.map (·.report.contentType) = types := by
  induction types generalizing s with
  | nil => rfl
  | cons type rest ih =>
      simp only [runEach, Program.run_bind, Program.pure_eq_done, Program.run_done, List.map_cons,
        ih, Flow.on_run, contentType_run]

end Run

end Reconciliation

namespace Backfill

open Reconciliation

/-- The tallies of these content types, once their passes are entered. -/
def concluded : List String → List Pass → SortedMap String Entry → SortedMap String Entry
  | type :: types, pass :: passes, entries =>
      let entry := ((entries.get? type).getD .zero).conclude pass.report
      concluded types passes (entries.insert type entry)
  | _, _, entries => entries

/-- A backfill with the passes that it ends with. -/
def course (types : List String) (actor : Actor) (code : String) :
    Service (Summary × List Pass) := do
  match ← resolve code with
  | .error refusal => return ({ code, aborted := some refusal, entries := .empty }, [])
  | .ok (language, base) =>
      let entries ← fillTypes language base actor types .empty
      let passes ← runEach actor types
      return ({ code, aborted := none, entries := concluded types passes entries }, passes)

theorem concludeTypes_eq (actor : Actor) (types : List String) (entries : SortedMap String Entry)
    (metrics : Metrics) :
    concludeTypes actor types entries metrics = do
      let passes ← runEach actor types
      return (concluded types passes entries, counted metrics passes) := by
  induction types generalizing entries metrics with
  | nil => rfl
  | cons type rest ih =>
      simp only [concludeTypes, runEach, ih, bind_assoc, pure_bind]
      rfl

/-- The passes of a backfill are all that it adds to the counters besides itself. -/
theorem run_eq_course (types : List String) (actor : Actor) (code : String) :
    run types actor code = do
      let (summary, passes) ← course types actor code
      return (summary, counted Metrics.zero.countBackfillRun passes) := by
  rw [run, course, bind_assoc]
  congr 1
  funext found
  rcases found with refusal | ⟨language, base⟩
  · rfl
  · simp only [concludeTypes_eq, bind_assoc, pure_bind]

section Run

variable {σ : Type} (answer : (c : Call) → σ → c.Reply × σ) (types : List String) (actor : Actor)
  (code : String) (s : σ)

theorem metrics_course :
    ∀ pass ∈ ((course types actor code).run answer s).1.2, pass.metrics = pass.report.metrics := by
  rw [course, Program.run_bind]
  cases ((resolve code).run answer s).1 with
  | error refusal => nofun
  | ok languages =>
      simp only [Program.run_bind]
      exact metrics_runEach actor types _

theorem contentTypes_course :
    let out := ((course types actor code).run answer s).1
    out.2.map (·.report.contentType) = if out.1.aborted.isNone then types else [] := by
  rw [course, Program.run_bind]
  cases ((resolve code).run answer s).1 with
  | error refusal => rfl
  | ok languages =>
      simp only [Program.run_bind]
      exact contentTypes_runEach actor types _

end Run

end Backfill

namespace Engine

open Reconciliation

variable {σ : Type} (answer : (c : Call) → σ → c.Reply × σ)

theorem reconcileEach_eq (e : Engine) (types : List String) :
    e.reconcileEach types = do
      let passes ← runEach e.actor types
      return (passes.map (·.report), { e with metrics := counted e.metrics passes }) := by
  induction types generalizing e with
  | nil => rfl
  | cons type rest ih =>
      simp only [reconcileEach, runEach, ih, bind_assoc, pure_bind]
      rfl

theorem run_reconcile (e : Engine) (type : String) (s : σ) :
    let out := ((e.reconcile type).run answer s).1
    let reports := out.1.toOption.toList
    out.2 = { e with metrics := reported e.metrics reports } ∧
      reports.map (·.contentType) = if e.registry.has type then [type] else [] := by
  rw [reconcile, Program.run_bind, within]
  by_cases htype : e.registry.has type = true
  · set ask : (q : Query) → σ → q.Reply × σ := fun q => answer (.content type q)
    have hname : ((Reconciliation.run type e.actor).run ask s).1.report.contentType = type :=
      contentType_run type e.actor s
    have hmetrics := metrics_run type e.actor ask s
    rw [if_pos htype, if_pos htype, Flow.on_run, Flow.run_liftM, Program.run_bind]
    exact ⟨congrArg (fun metrics => { e with metrics := e.metrics + metrics }) hmetrics,
      congrArg ([·]) hname⟩
  · rw [if_neg htype, if_neg htype]
    exact ⟨rfl, rfl⟩

theorem run_reconcileAll (e : Engine) (s : σ) :
    let out := (e.reconcileAll.run answer s).1
    out.2 = { e with metrics := reported e.metrics out.1 } ∧
      out.1.map (·.contentType) = e.registry.names := by
  rw [reconcileAll, reconcileEach_eq, Program.run_bind]
  refine ⟨congrArg (fun metrics => { e with metrics })
    (counted_eq_reported (metrics_runEach e.actor _ s) _), ?_⟩
  exact List.map_map.trans (contentTypes_runEach e.actor _ s)

/-- What a backfill counts is itself and the passes that it ends with. -/
theorem run_backfill (e : Engine) (code : String) (s : σ) :
    let course := (Backfill.course e.registry.names e.actor code).run answer s
    let reports := course.1.2.map (·.report)
    (e.backfill code).run answer s =
      ((course.1.1, { e with metrics := reported e.metrics.countBackfillRun reports }),
        course.2) := by
  intro course reports
  have hmetrics : e.metrics + counted Metrics.zero.countBackfillRun course.1.2 =
      reported e.metrics.countBackfillRun reports := by
    rw [add_counted, counted_eq_reported (Backfill.metrics_course answer _ _ _ s)]
    rfl
  rw [← hmetrics, backfill, Backfill.run_eq_course, Program.run_bind, Program.run_bind]
  rfl

end Engine

end Polyglot
