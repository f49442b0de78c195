import Polyglot.Engine.Basic
import Polyglot.Proofs.Engine.Tending
import Polyglot.Proofs.Pool.Schedule
import Polyglot.Proofs.Pool.Sweep

/-!
Whole operations one after another. However they follow each other, the copies of an item hold its
base text whenever no event of the item waits: the last event that waits carries the base text.
-/

namespace Polyglot

structure System where
  engine : Engine
  world : World
deriving DecidableEq

inductive Operation where
  | addItem (type : String) (item : ItemId)
  | create (type : String) (item : ItemId) (inputs : List Submission) (actor : Actor)
  | edit (type : String) (item : ItemId) (language : LanguageId) (text : Text) (actor : Actor)
  | unpin (type : String) (item : ItemId) (language : LanguageId) (actor : Actor)
  | reconcile (type : String)
  | reconcileAll
  | backfill (code : String)
  | work
deriving DecidableEq

def World.backend : Backend World := fun c w => (some (World.answer c w).1, (World.answer c w).2)

def Operation.perform : Operation → System → System
  | .addItem type item, ⟨e, w⟩ => ⟨e, w.update type (·.addItem item)⟩
  | .create type item inputs actor, ⟨e, w⟩ =>
      ⟨e, ((e.create type item inputs actor).run World.answer w).2⟩
  | .edit type item language text actor, ⟨e, w⟩ =>
      let ((_, e), w) := (e.edit type item language text actor).run World.answer w
      ⟨e, w⟩
  | .unpin type item language actor, ⟨e, w⟩ =>
      ⟨e, ((e.unpin type item language actor).run World.answer w).2⟩
  | .reconcile type, ⟨e, w⟩ =>
      let ((_, e), w) := (e.reconcile type).run World.answer w
      ⟨e, w⟩
  | .reconcileAll, ⟨e, w⟩ =>
      let ((_, e), w) := e.reconcileAll.run World.answer w
      ⟨e, w⟩
  | .backfill code, ⟨e, w⟩ =>
      let ((_, e), w) := (e.backfill code).run World.answer w
      ⟨e, w⟩
  | .work, ⟨e, w⟩ =>
      let (e, w) := e.work World.backend w
      ⟨e, w⟩

/-- A creation is for an item without records. -/
def Operation.Admissible : Operation → System → Prop
  | .create type item _ _, system =>
      ∀ s, system.world.store? type = some s → ∀ r ∈ s.records, r.item ≠ item
  | _, _ => True

inductive System.Reaches (start : System) : System → Prop where
  | refl : Reaches start start
  | perform {system : System} (op : Operation) (hreach : Reaches start system)
      (hop : op.Admissible system) : Reaches start (op.perform system)

def System.start (registry : Registry) (actor : Actor) (directory : Directory) : System :=
  ⟨.start registry actor, ⟨directory, registry.names.map Store.named⟩⟩

/-- The text of the last event of an item. -/
def awaitedText : List Event → String → ItemId → Option Text
  | [], _, _ => none
  | event :: rest, type, item =>
      match awaitedText rest type item with
      | some text => some text
      | none => if event.contentType = type ∧ event.item = item then some event.text else none

theorem awaitedText_cons_of_ne {event : Event} {rest : List Event} {type : String}
    {item : ItemId} (h : event.contentType = type → event.item ≠ item) :
    awaitedText (event :: rest) type item = awaitedText rest type item := by
  rw [awaitedText]
  split
  · rename_i hrest
    exact hrest.symm
  · rename_i hrest
    rw [if_neg fun hboth => h hboth.1 hboth.2]
    exact hrest.symm

theorem awaitedText_append (queue : List Event) (event : Event) (type : String) (item : ItemId) :
    awaitedText (queue ++ [event]) type item =
      if event.contentType = type ∧ event.item = item then some event.text
      else awaitedText queue type item := by
  induction queue with
  | nil => rfl
  | cons first rest ih =>
      rw [List.cons_append, awaitedText, ih]
      by_cases h : event.contentType = type ∧ event.item = item
      · rw [if_pos h, if_pos h]
      · rw [if_neg h, if_neg h, awaitedText]

theorem awaitedText_eq_none {queue : List Event} {type : String} {item : ItemId}
    (h : ∀ event ∈ queue, event.contentType = type → event.item ≠ item) :
    awaitedText queue type item = none := by
  induction queue with
  | nil => rfl
  | cons first rest ih =>
      rw [awaitedText, ih fun event he => h event (List.mem_cons_of_mem _ he)]
      exact if_neg fun hfirst => h first List.mem_cons_self hfirst.1 hfirst.2

theorem World.isSome_store?_run {α : Type} (program : Service α) (w : World) (type : String) :
    ((program.run World.answer w).2.store? type).isSome = (w.store? type).isSome := by
  induction program generalizing w with
  | done a => rfl
  | ask c next ih =>
      rw [Program.run_ask, ih, World.store?_answer, Option.isSome_map]

/-- A handler at work, with nobody beside it. -/
structure Handling (event : Event) (awaited : String → ItemId → Option Text) (past : List Heard)
    (w : World) : Prop where
  tended : Tended event.language awaited past w
  clear : Clear event.contentType event.item event.language past
  sweeping : ∃ s, w.store? event.contentType = some s ∧
    Sweeping event (·.text = event.text) past s

theorem Handling.answer {event : Event} {awaited : String → ItemId → Option Text}
    {past : List Heard} {w : World} {text : Text} (h : Handling event awaited past w)
    (hawaited : awaited event.contentType event.item = some text) {c : Call}
    (hgrounds : (Job.handle event).Grounds past c) :
    Handling event awaited (⟨c, (World.answer c w).1⟩ :: past) (World.answer c w).2 := by
  have hjob : (Job.handle event).Tends awaited := by
    intro hnone
    rw [hawaited] at hnone
    cases hnone
  obtain ⟨s, hs, hsweeping⟩ := h.sweeping
  have hstore := h.tended.world.stores _ s hs
  obtain ⟨l, hbase, hl⟩ := h.tended.world.base
  obtain ⟨rb, hrb, hitem, _⟩ := hstore.announced event.item text hawaited
  have hlive := hstore.live event.item (hitem ▸ hstore.sound.items rb hrb)
  refine ⟨h.tended.answer hjob hgrounds, h.clear.answer hbase hl hs hstore.faults hlive c,
    c.at w.directory event.contentType s, ?_, ?_⟩
  · rw [World.store?_answer, hs]
    rfl
  · refine (hsweeping.mono fun r hr _ _ => ?_).answer hs hstore.sound hstore.faults
      fun _ htext => htext
    exact (text_of_handler hgrounds hr).symm.imp id fun hr => ⟨hr, id⟩

theorem World.Converges.handle {awaited : String → ItemId → Option Text} {w : World}
    {event : Event} {text : Text} (h : w.Converges event.language awaited)
    (hs : ∃ s, w.store? event.contentType = some s)
    (hawaited : awaited event.contentType event.item = some text) :
    ((Flow.on event.contentType (Propagation.handle event)).run World.answer w).2.Converges
        event.language awaited ∧
      ∀ s, ((Flow.on event.contentType (Propagation.handle event)).run World.answer w).2.store?
          event.contentType = some s →
        ∀ r ∈ s.records, r.item = event.item → r.IsCopy event.language → r.text = event.text := by
  obtain ⟨later, hhandling, hend⟩ :=
    (Propagation.handle_grounded event).run World.answer (Handling event awaited)
      (fun past c w h hc => h.answer hawaited hc)
      ⟨h.tended, .nil _ _ _, hs.imp fun s hs => ⟨hs, .nil _ _ s⟩⟩
  refine ⟨hhandling.tended.world, fun s hs r hr hitem hcopy => ?_⟩
  obtain ⟨s', hs', hsweeping⟩ := hhandling.sweeping
  cases hs.symm.trans hs'
  rcases hend with hcovered | hhindered
  · exact hsweeping.good_of_covered hcovered (fun _ htext => htext) hr hitem hcopy
  · exact absurd hhindered hhandling.clear.not_hindered

theorem World.Converges.work {w : World} {event : Event} {rest : List Event}
    (h : w.Converges event.language (awaitedText (event :: rest)))
    (hs : ∃ s, w.store? event.contentType = some s) :
    ((Flow.on event.contentType (Propagation.handle event)).run World.answer w).2.Converges
      event.language (awaitedText rest) := by
  cases hlast : awaitedText rest event.contentType event.item with
  | some text =>
      have heq : awaitedText (event :: rest) = awaitedText rest := by
        funext type item
        by_cases hboth : event.contentType = type ∧ event.item = item
        · obtain ⟨rfl, rfl⟩ := hboth
          rw [awaitedText, hlast]
        · exact awaitedText_cons_of_ne fun htype hitem => hboth ⟨htype, hitem⟩
      rw [heq] at h
      exact (h.handle hs hlast).1
  | none =>
      have hfirst : awaitedText (event :: rest) event.contentType event.item = some event.text := by
        rw [awaitedText, hlast]
        exact if_pos ⟨rfl, rfl⟩
      obtain ⟨hworld, hcopies⟩ := h.handle hs hfirst
      have hstored := World.isSome_store?_run
        (Flow.on event.contentType (Propagation.handle event)) w event.contentType
      obtain ⟨s, hs⟩ := hs
      rw [hs] at hstored
      obtain ⟨t, ht⟩ := Option.isSome_iff_exists.mp hstored
      refine hworld.replace event.contentType rfl (t := t) (fun other => ?_) ?_ ?_
      · split
        · rename_i heq
          exact heq ▸ ht
        · rfl
      · convert (hworld.stores _ t ht).delivered hfirst (hcopies t ht) using 1
        funext item
        by_cases hitem : item = event.item
        · rw [if_pos hitem, hitem, hlast]
        · rw [if_neg hitem]
          exact (awaitedText_cons_of_ne fun _ heq => hitem heq.symm).symm
      · intro other hother
        funext item
        exact (awaitedText_cons_of_ne fun heq => absurd heq.symm hother).symm

namespace System

/-- The engine runs, what waits comes from edits of base texts, and the copies are in order but
for what waits. -/
structure Converges (b : LanguageId) (system : System) : Prop where
  accepting : system.engine.accepting = true
  receiving : system.engine.channel.receiving = true
  stored : ∀ type, system.engine.registry.has type = true → ∃ s, system.world.store? type = some s
  events : ∀ event ∈ system.engine.channel.queue,
    event.language = b ∧ system.engine.registry.has event.contentType = true
  world : system.world.Converges b (awaitedText system.engine.channel.queue)

variable {b : LanguageId} {system : System} {e : Engine} {w v : World}

theorem converges_start (registry : Registry) (actor : Actor) {directory : Directory}
    {l : Language} (hbase : directory.base = some l) :
    (start registry actor directory).Converges l.id where
  accepting := rfl
  receiving := rfl
  stored type htype := by
    obtain ⟨entry, hentry⟩ := Option.isSome_iff_exists.mp htype
    have hname : entry.1 = type := by simpa using List.find?_some hentry
    have hmem : Store.named type ∈ registry.names.map Store.named :=
      List.mem_map_of_mem (List.mem_map.mpr ⟨entry, List.mem_of_find?_eq_some hentry, hname⟩)
    refine Option.isSome_iff_exists.mp ?_
    rw [World.store?, List.find?_isSome]
    exact ⟨_, hmem, by simp [Store.named]⟩
  events := nofun
  world := by
    refine ⟨⟨l, hbase, rfl⟩, fun type s hs => ?_⟩
    obtain ⟨name, _, rfl⟩ := List.mem_map.mp (List.mem_of_find?_eq_some hs)
    exact Store.converges_named l.id name

theorem Converges.quiet (h : Converges b ⟨e, w⟩) {e' : Engine}
    (hregistry : e'.registry = e.registry) (haccepting : e'.accepting = e.accepting)
    (hchannel : e'.channel = e.channel)
    (hstored : ∀ type, (v.store? type).isSome = (w.store? type).isSome)
    (hworld : v.Converges b (awaitedText e.channel.queue)) : Converges b ⟨e', v⟩ where
  accepting := haccepting.trans h.accepting
  receiving := (congrArg Channel.receiving hchannel).trans h.receiving
  stored type htype := by
    rw [hregistry] at htype
    obtain ⟨s, hs⟩ := h.stored type htype
    refine Option.isSome_iff_exists.mp ?_
    rw [hstored, hs]
    rfl
  events := by
    rw [hchannel, hregistry]
    exact h.events
  world := by
    rw [hchannel]
    exact hworld

theorem Converges.within {α : Type} (h : Converges b ⟨e, w⟩) (job : Job)
    (hjob : job.Tends (awaitedText e.channel.queue)) {type : String} {f : Attempt α}
    {post : List Heard → Except Error α → Prop}
    (hgrounded : (Flow.on type f.run).Grounded job.Grounds post []) :
    ((e.within type f).run World.answer w).2.Converges b (awaitedText e.channel.queue) := by
  rw [Engine.within]
  split
  · exact h.world.run job hjob hgrounded
  · exact h.world

theorem Converges.unpin (h : system.Converges b) (type : String) (item : ItemId)
    (language : LanguageId) (actor : Actor) :
    ((Operation.unpin type item language actor).perform system).Converges b := by
  obtain ⟨e, w⟩ := system
  refine h.quiet rfl rfl rfl (fun _ => World.isSome_store?_run _ _ _) ?_
  exact h.within (.unpin type item language actor) trivial
    (Edit.unpin_grounded type item language actor)

theorem Converges.reconcile (h : system.Converges b) (type : String) :
    ((Operation.reconcile type).perform system).Converges b := by
  obtain ⟨e, w⟩ := system
  have hworld := h.within (.reconcile type e.actor) trivial
    (Reconciliation.run_grounded (.reconcile type e.actor)).lifted
  have hstored := World.isSome_store?_run (e.within type (Reconciliation.run type e.actor)) w
  simp only [Operation.perform, Engine.reconcile, Program.run_bind]
  generalize (e.within type (Reconciliation.run type e.actor)).run World.answer w = out
    at hworld hstored
  obtain ⟨error | pass, v⟩ := out
  · exact h.quiet rfl rfl rfl hstored hworld
  · exact h.quiet rfl rfl rfl hstored hworld

theorem Converges.reconcileEach (h : Converges b ⟨e, w⟩) (types : List String) :
    let out := (e.reconcileEach types).run World.answer w
    Converges b ⟨out.1.2, out.2⟩ := by
  induction types generalizing e w with
  | nil => exact h
  | cons type rest ih =>
      simp only [Engine.reconcileEach, Program.run_bind]
      refine ih (h.quiet rfl rfl rfl (fun _ => World.isSome_store?_run _ _ _) ?_)
      exact h.world.run (.reconcile type e.actor) trivial
        (Reconciliation.run_grounded (.reconcile type e.actor))

theorem Converges.backfill (h : system.Converges b) (code : String) :
    ((Operation.backfill code).perform system).Converges b := by
  obtain ⟨e, w⟩ := system
  have hworld := h.world.run (.backfill e.registry.names e.actor code) trivial
    Backfill.run_grounded
  have hstored := World.isSome_store?_run (Backfill.run e.registry.names e.actor code) w
  simp only [Operation.perform, Engine.backfill, Program.run_bind]
  generalize (Backfill.run e.registry.names e.actor code).run World.answer w = out at hworld hstored
  obtain ⟨⟨summary, metrics⟩, v⟩ := out
  exact h.quiet rfl rfl rfl hstored hworld

theorem Converges.addItem (h : system.Converges b) (type : String) (item : ItemId) :
    ((Operation.addItem type item).perform system).Converges b := by
  obtain ⟨e, w⟩ := system
  have hstore (other : String) : (w.update type (·.addItem item)).store? other =
      if other = type then (w.store? other).map (·.addItem item) else w.store? other :=
    World.store?_update fun _ hs => hs
  refine h.quiet rfl rfl rfl (fun other => ?_) ⟨h.world.base, fun other t ht => ?_⟩
  · rw [hstore]
    split
    · rw [Option.isSome_map]
    · rfl
  · rw [hstore] at ht
    split at ht
    · obtain ⟨s, hs, rfl⟩ := Option.map_eq_some_iff.mp ht
      exact (h.world.stores other s hs).addItem item
    · exact h.world.stores other t ht

theorem Converges.create (h : system.Converges b) {type : String} {item : ItemId}
    {inputs : List Submission} {actor : Actor}
    (hop : (Operation.create type item inputs actor).Admissible system) :
    ((Operation.create type item inputs actor).perform system).Converges b := by
  obtain ⟨e, w⟩ := system
  refine h.quiet rfl rfl rfl (fun _ => World.isSome_store?_run _ _ _) ?_
  rw [Engine.create, Engine.within]
  split
  · rename_i htype
    obtain ⟨s, hs⟩ := h.stored type htype
    obtain ⟨l, hbase, rfl⟩ := h.world.base
    have hconverges := h.world.stores type s hs
    obtain ⟨_, hdirectory, hstores⟩ := Flow.run_on (Creation.create item inputs actor).run hs
    refine h.world.replace type hdirectory hstores ?_ fun _ _ => rfl
    have hfree := hop s hs
    rcases Creation.run_create hbase hconverges.faults hfree inputs actor with hsame | hfounds
    · rw [hsame]
      exact hconverges
    · obtain ⟨text, htext⟩ := hfounds.text
      exact hconverges.founded hfree (hconverges.sound.run _) hfounds.faults hfounds.items
        hfounds.others hfounds.based htext
  · exact h.world

theorem Converges.publish (h : Converges b ⟨e, w⟩) {event : Event} (hlanguage : event.language = b)
    (htype : e.registry.has event.contentType = true)
    (hstored : ∀ type, (v.store? type).isSome = (w.store? type).isSome)
    (hworld : v.Converges b (awaitedText (e.channel.queue ++ [event]))) :
    Converges b ⟨e.publish e.handle event, v⟩ := by
  rw [Engine.publish_of_running h.accepting h.receiving]
  refine ⟨h.accepting, h.receiving, fun type htype => ?_, fun other hother => ?_, hworld⟩
  · obtain ⟨s, hs⟩ := h.stored type htype
    refine Option.isSome_iff_exists.mp ?_
    rw [hstored, hs]
    rfl
  · rcases List.mem_append.mp hother with hother | hother
    · exact h.events other hother
    · rw [List.mem_singleton.mp hother]
      exact ⟨hlanguage, htype⟩

theorem Converges.edit (h : system.Converges b) (type : String) (item : ItemId)
    (language : LanguageId) (text : Text) (actor : Actor) :
    ((Operation.edit type item language text actor).perform system).Converges b := by
  obtain ⟨e, w⟩ := system
  simp only [Operation.perform, Engine.edit, Program.run_bind, Engine.within]
  by_cases htype : e.registry.has type = true
  · rw [if_pos htype]
    obtain ⟨s, hs⟩ := h.stored type htype
    obtain ⟨l, hbase, rfl⟩ := h.world.base
    have hconverges := h.world.stores type s hs
    have hstored := World.isSome_store?_run
      (Flow.on type (Edit.edit type item language text actor).run) w
    obtain ⟨hresult, hdirectory, hstores⟩ :=
      Flow.run_on (Edit.edit type item language text actor).run hs
    generalize (Flow.on type (Edit.edit type item language text actor).run).run World.answer w = out
      at hresult hdirectory hstores hstored
    obtain ⟨result, v⟩ := out
    dsimp only at hresult hdirectory hstores hstored ⊢
    rcases Edit.run_edit w.directory s type item language text actor with
      ⟨error, hrun⟩ | ⟨r, hr, rfl, rfl, report, hrun⟩
    · rw [hrun] at hresult hstores
      rw [hresult]
      exact h.quiet rfl rfl rfl hstored
        (h.world.replace type hdirectory hstores hconverges fun _ _ => rfl)
    · rw [hrun] at hresult hstores
      rw [hresult, show w.directory.base = some l from hbase]
      by_cases hl : l.id = r.language
      · rw [if_pos (by simpa using hl)]
        refine h.publish hl.symm htype hstored (h.world.replace type hdirectory hstores ?_ ?_)
        · convert hconverges.putBase hr hl.symm text actor using 1
          funext item
          rw [awaitedText_append]
          by_cases hitem : item = r.item
          · rw [if_pos ⟨rfl, hitem.symm⟩, if_pos hitem]
          · rw [if_neg fun hboth => hitem hboth.2.symm, if_neg hitem]
        · intro other hother
          funext item
          rw [awaitedText_append]
          exact if_neg fun hboth => hother hboth.1.symm
      · rw [if_neg (by simpa using hl)]
        refine h.quiet rfl rfl rfl hstored
          (h.world.replace type hdirectory hstores ?_ fun _ _ => rfl)
        exact hconverges.put hr (fun heq => hl heq.symm) actor fun hfalse => nomatch hfalse
  · rw [if_neg htype]
    exact h

theorem Converges.work (h : system.Converges b) : (Operation.work.perform system).Converges b := by
  obtain ⟨e, w⟩ := system
  have hreceiving : e.channel.receiving = true := h.receiving
  cases hqueue : e.channel.queue with
  | nil =>
      have hidle : e.work World.backend w = (e, w) := by
        simp only [Engine.work, Channel.receive, hreceiving, hqueue, if_true]
        by_cases hhandles : e.channel.handles = 0
        · rw [if_pos hhandles]
        · rw [if_neg hhandles]
      rw [Operation.perform, hidle]
      exact h
  | cons event rest =>
      obtain ⟨rfl, htype⟩ := h.events event (by simp [hqueue])
      have hwork : Operation.work.perform ⟨e, w⟩ =
          ⟨{ e with
              channel := { e.channel with queue := rest }
              metrics := Engine.settle e.metrics (some ((Flow.on event.contentType
                (Propagation.handle event)).run World.answer w).1) },
            ((Flow.on event.contentType (Propagation.handle event)).run World.answer w).2⟩ := by
        simp only [Operation.perform, Engine.work, Channel.receive, hreceiving, hqueue, if_true,
          Engine.dispatch, htype]
        rw [show World.backend = fun c w =>
            (some (World.answer c w).1, (World.answer c w).2) from rfl,
          Program.attempt_eq_run]
      have hrest (other : Event) (hother : other ∈ rest) : other ∈ e.channel.queue := by
        rw [hqueue]
        exact List.mem_cons_of_mem _ hother
      rw [hwork]
      refine ⟨h.accepting, h.receiving, fun type htype => ?_, fun other hother => ?_, ?_⟩
      · obtain ⟨s, hs⟩ := h.stored type htype
        refine Option.isSome_iff_exists.mp ?_
        rw [World.isSome_store?_run, hs]
        rfl
      · exact h.events other (hrest other hother)
      · have hworld := h.world
        rw [hqueue] at hworld
        exact hworld.work (h.stored _ htype)

theorem Converges.perform (h : system.Converges b) {op : Operation} (hop : op.Admissible system) :
    (op.perform system).Converges b := by
  cases op with
  | addItem type item => exact h.addItem type item
  | create type item inputs actor => exact h.create hop
  | edit type item language text actor => exact h.edit type item language text actor
  | unpin type item language actor => exact h.unpin type item language actor
  | reconcile type => exact h.reconcile type
  | reconcileAll => exact h.reconcileEach _
  | backfill code => exact h.backfill code
  | work => exact h.work

/-- Whenever no event of an item waits, its copies outside the base language hold its base text. -/
theorem copies_match_when_quiet {registry : Registry} {actor : Actor} {directory : Directory}
    {l : Language} (hbase : directory.base = some l)
    (hreach : (start registry actor directory).Reaches system) :
    ∀ type s, system.world.store? type = some s →
      ∀ item, (∀ event ∈ system.engine.channel.queue, event.contentType = type →
          event.item ≠ item) →
        ∀ r ∈ s.records, r.item = item → r.follows = true → r.language ≠ l.id →
          ∃ rb, s.recordIn? item l.id = some rb ∧ r.text = rb.text := by
  have hsystem : system.Converges l.id := by
    induction hreach with
    | refl => exact converges_start registry actor hbase
    | perform op _ hop ih => exact ih.perform hop
  intro type s hs item hquiet r hr hitem hfollows hlanguage
  have hstore := hsystem.world.stores type s hs
  obtain ⟨rb, hrb, hplace, hl⟩ := hstore.based r hr
  refine ⟨rb, hstore.sound.recordIn?_eq hrb (hplace.trans hitem) hl, ?_⟩
  subst hitem
  exact hstore.copied r hr ⟨hfollows, hlanguage⟩ (awaitedText_eq_none hquiet) rb hrb hplace hl

end System

namespace Bilingual

def empty : System := .start ⟨[("page", 5)]⟩ "sync" directory

def addPage : System := (Operation.addItem "page" 7).perform empty

/-- The first text is French, so that the English base record is itself a copy. -/
def founded : System := (Operation.create "page" 7 [⟨2, title "Bonjour"⟩] "ann").perform addPage

def editedOnce : System := (Operation.edit "page" 7 1 (title "Hello") "ann").perform founded

def editedTwice : System := (Operation.edit "page" 7 1 (title "Welcome") "ann").perform editedOnce

/-- The French record follows again while two events wait. -/
def unpinned : System := (Operation.unpin "page" 7 2 "bob").perform editedTwice

/-- The first event takes the copy back to an older text, and the second one brings it forward. -/
def quiet : System := Operation.work.perform (Operation.work.perform unpinned)

end Bilingual

namespace System

open Bilingual in
theorem copy_matches_after_two_events :
    empty.Reaches quiet ∧ quiet.engine.channel.queue = [] ∧
      ∃ s r, quiet.world.store? "page" = some s ∧ r ∈ s.records ∧ r.language = 2 ∧
        r.text = title "Welcome" ∧ ∃ rb, s.recordIn? 7 1 = some rb ∧ r.text = rb.text := by
  have hfirst : (addPage.world.store? "page").all (·.records.isEmpty) = true := by cbv
  have hempty : (Operation.create "page" 7 [⟨2, title "Bonjour"⟩] "ann").Admissible addPage := by
    intro s hs r hr
    rw [hs, Option.all_some, List.isEmpty_iff] at hfirst
    rw [hfirst] at hr
    cases hr
  have hreach : empty.Reaches quiet :=
    ((((((Reaches.refl.perform (.addItem "page" 7) trivial).perform _ hempty).perform
      (.edit "page" 7 1 (title "Hello") "ann") trivial).perform
      (.edit "page" 7 1 (title "Welcome") "ann") trivial).perform
      (.unpin "page" 7 2 "bob") trivial).perform .work trivial).perform .work trivial
  have hqueue : quiet.engine.channel.queue = [] := by cbv
  have hcopy : (quiet.world.store? "page").any (fun s => s.records.any fun r =>
      decide (r.item = 7 ∧ r.follows = true ∧ r.language = 2 ∧ r.text = title "Welcome")) =
        true := by
    cbv
  obtain ⟨s, hs, hcopy⟩ := (Option.any_eq_true _ _).mp hcopy
  obtain ⟨r, hr, hplace⟩ := List.any_eq_true.mp hcopy
  obtain ⟨hitem, hfollows, hlanguage, htext⟩ := of_decide_eq_true hplace
  refine ⟨hreach, hqueue, s, r, hs, hr, hlanguage, htext, ?_⟩
  refine copies_match_when_quiet (l := ⟨1, "en", "English", true, false⟩) rfl hreach "page" s hs 7
    ?_ r hr hitem hfollows (by rw [hlanguage]; decide)
  rw [hqueue]
  intro event hevent
  cases hevent

end System

end Polyglot
