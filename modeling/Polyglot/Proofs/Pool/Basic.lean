import Polyglot.Engine.Basic
import Polyglot.Proofs.Program.Grounded
import Polyglot.Store.World

/-!
Jobs side by side. A step of a pool is one call of one job, or what happens around the jobs: a
job starts or ends, the worker takes an event, somebody changes items, faults or languages. The
steps of different jobs come in any order.
-/

namespace Polyglot

inductive Job where
  | create (type : String) (item : ItemId) (inputs : List Submission) (actor : Actor)
  | edit (type : String) (item : ItemId) (language : LanguageId) (text : Text) (actor : Actor)
  | unpin (type : String) (item : ItemId) (language : LanguageId) (actor : Actor)
  | handle (event : Event)
  | reconcile (type : String) (actor : Actor)
  | backfill (types : List String) (actor : Actor) (code : String)
deriving DecidableEq

def Job.program : Job → Service (Engine → Engine)
  | .create type item inputs actor => do
      let _ ← Flow.on type (Creation.create item inputs actor).run
      return id
  | .edit type item language text actor => do
      match ← Flow.on type (Edit.edit type item language text actor).run with
      | .ok (_, some event) => return fun e => e.publish e.handle event
      | _ => return id
  | .unpin type item language actor => do
      let _ ← Flow.on type (Edit.unpin item language actor).run
      return id
  | .handle event => do
      let outcome ← Flow.on event.contentType (Propagation.handle event)
      return fun e => { e with metrics := Engine.settle e.metrics (some outcome) }
  | .reconcile type actor => do
      let pass ← Flow.on type (Reconciliation.run type actor)
      return fun e => { e with metrics := e.metrics + pass.metrics }
  | .backfill types actor code => do
      let (_, metrics) ← Backfill.run types actor code
      return fun e => { e with metrics := e.metrics + metrics }

def Job.isHandler : Job → Bool
  | .handle _ => true
  | _ => false

/-- A job under way: what it has heard, the newest first, and what is left of its program. -/
structure Task where
  job : Job
  past : List Heard
  rest : Service (Engine → Engine)

def Job.task (job : Job) : Task := ⟨job, [], job.program⟩

/-- Interference from outside the jobs. -/
inductive Change where
  | addItem (type : String) (item : ItemId)
  | softDelete (type : String) (item : ItemId)
  | delete (type : String) (item : ItemId)
  | setFaults (type : String) (faults : Faults)
  | setDirectory (directory : Directory)
deriving DecidableEq

def Change.apply : Change → World → World
  | .addItem type item, w => w.update type (·.addItem item)
  | .softDelete type item, w => w.update type (·.softDelete item)
  | .delete type item, w => w.update type (·.delete item)
  | .setFaults type faults, w => w.update type fun s => { s with faults }
  | .setDirectory directory, w => { w with directory }

inductive Move where
  | start (job : Job)
  | call (job : Job) (c : Call)
  | finish (job : Job)
  | take (event : Event)
  | change (c : Change)
deriving DecidableEq

structure Pool where
  world : World
  engine : Engine
  tasks : List Task

namespace Pool

def initial (types : List String) (directory : Directory) (engine : Engine) : Pool :=
  ⟨⟨directory, types.map Store.named⟩, engine, []⟩

/-- One step. The worker takes an event only when it has none at hand. -/
inductive Step : Pool → Move → Pool → Prop where
  | start (p : Pool) (job : Job) : Step p (.start job) { p with tasks := p.tasks ++ [job.task] }
  | call (p : Pool) (before after : List Task) (job : Job) (past : List Heard) (c : Call)
      (next : c.Reply → Service (Engine → Engine))
      (htasks : p.tasks = before ++ ⟨job, past, .ask c next⟩ :: after) :
      Step p (.call job c)
        { p with
          world := (World.answer c p.world).2
          tasks :=
            before ++
              ⟨job, ⟨c, (World.answer c p.world).1⟩ :: past, next (World.answer c p.world).1⟩ ::
              after }
  | finish (p : Pool) (before after : List Task) (job : Job) (past : List Heard)
      (f : Engine → Engine) (htasks : p.tasks = before ++ ⟨job, past, .done f⟩ :: after) :
      Step p (.finish job) { p with engine := f p.engine, tasks := before ++ after }
  | take (p : Pool) (event : Event) (channel : Channel)
      (hidle : ∀ t ∈ p.tasks, t.job.isHandler = false)
      (hreceive : p.engine.channel.receive = (.event event, channel)) :
      Step p (.take event)
        { p with
          engine := { p.engine with channel }
          tasks := p.tasks ++ [(Job.handle event).task] }
  | change (p : Pool) (c : Change) : Step p (.change c) { p with world := c.apply p.world }

/-- A step that was made, with the worlds before and after it. -/
structure Entry where
  move : Move
  before : World
  after : World

/-- A run whose moves are all `allowed`, with its steps, the newest first. -/
inductive Run (allowed : Move → Prop) (p : Pool) : List Entry → Pool → Prop where
  | refl : Run allowed p [] p
  | step {log : List Entry} {q r : Pool} {m : Move} (hrun : Run allowed p log q)
      (hallowed : allowed m) (hstep : Step q m r) :
      Run allowed p (⟨m, q.world, r.world⟩ :: log) r

/-- What holds of the tasks before a step and of every task that begins, and is kept when a task
hears a reply, holds of the tasks after the step. -/
theorem Step.forall_tasks {p q : Pool} {m : Move} {P P' : Task → Prop} (hstep : Step p m q)
    (h : ∀ t ∈ p.tasks, P t) (hkeep : ∀ t ∈ p.tasks, P t → P' t)
    (hnew : ∀ job, (m = .start job ∨ ∃ event, m = .take event ∧ job = .handle event) →
      P' job.task)
    (hcall : ∀ job past c next, m = .call job c → q.world = (World.answer c p.world).2 →
      (⟨job, past, .ask c next⟩ : Task) ∈ p.tasks → P ⟨job, past, .ask c next⟩ →
      P' ⟨job, ⟨c, (World.answer c p.world).1⟩ :: past, next (World.answer c p.world).1⟩) :
    ∀ t ∈ q.tasks, P' t := by
  have hold {t : Task} (ht : t ∈ p.tasks) : P' t := hkeep t ht (h t ht)
  intro t ht
  cases hstep with
  | start job =>
      rcases List.mem_append.mp ht with ht | ht
      · exact hold ht
      · rw [List.mem_singleton.mp ht]
        exact hnew job (Or.inl rfl)
  | call before after job past c next htasks =>
      rw [htasks] at h hold
      rcases List.mem_append.mp ht with ht | ht
      · exact hold (List.mem_append_left _ ht)
      · rcases List.mem_cons.mp ht with rfl | ht
        · have hmem : (⟨job, past, .ask c next⟩ : Task) ∈
              before ++ ⟨job, past, .ask c next⟩ :: after :=
            List.mem_append_cons_self
          exact hcall job past c next rfl rfl (htasks ▸ hmem) (h _ hmem)
        · exact hold (List.mem_append_right _ (List.mem_cons_of_mem _ ht))
  | finish before after job past f htasks =>
      rw [htasks] at hold
      rcases List.mem_append.mp ht with ht | ht
      · exact hold (List.mem_append_left _ ht)
      · exact hold (List.mem_append_right _ (List.mem_cons_of_mem _ ht))
  | take event channel hidle hreceive =>
      rcases List.mem_append.mp ht with ht | ht
      · exact hold ht
      · rw [List.mem_singleton.mp ht]
        exact hnew (.handle event) (Or.inr ⟨event, rfl, rfl⟩)
  | change c => exact hold ht

theorem Step.caller {p q : Pool} {job : Job} {c : Call} (hstep : Step p (.call job c) q) :
    ∃ past next, (⟨job, past, .ask c next⟩ : Task) ∈ p.tasks := by
  cases hstep with
  | call before after _ past _ next htasks =>
      rw [htasks]
      exact ⟨past, next, List.mem_append_cons_self⟩

theorem Step.stays {p q : Pool} {m : Move} (hstep : Step p m q) {t : Task} (ht : t ∈ p.tasks)
    (hends : m ≠ .finish t.job) : ∃ t' ∈ q.tasks, t'.job = t.job := by
  cases hstep with
  | start job => exact ⟨t, List.mem_append_left _ ht, rfl⟩
  | call before after job past c next htasks =>
      rw [htasks] at ht
      rcases List.mem_append.mp ht with ht | ht
      · exact ⟨t, List.mem_append_left _ ht, rfl⟩
      · rcases List.mem_cons.mp ht with rfl | ht
        · exact ⟨_, List.mem_append_cons_self, rfl⟩
        · exact ⟨t, List.mem_append_right _ (List.mem_cons_of_mem _ ht), rfl⟩
  | finish before after job past f htasks =>
      rw [htasks] at ht
      rcases List.mem_append.mp ht with ht | ht
      · exact ⟨t, List.mem_append_left _ ht, rfl⟩
      · rcases List.mem_cons.mp ht with rfl | ht
        · exact absurd rfl hends
        · exact ⟨t, List.mem_append_right _ ht, rfl⟩
  | take event channel hidle hreceive => exact ⟨t, List.mem_append_left _ ht, rfl⟩
  | change c => exact ⟨t, ht, rfl⟩

end Pool

end Polyglot
