import Polyglot.Proofs.Engine.Quiescence
import Polyglot.Proofs.Flow.Refusal
import Polyglot.Proofs.Pool.Restraint

namespace Polyglot

namespace Store

variable {s : Store} {item : ItemId}

theorem recordsOf_append_of_ne {i : ItemId} (h : i ≠ item) (drafts : List Draft) (actor : Actor) :
    (s.append i drafts actor).recordsOf item = s.recordsOf item := by
  have hnone : (enrol i actor s.clock s.nextId drafts).filter (·.item = item) = [] := by
    rw [List.filter_eq_nil_iff]
    intro r hr
    obtain ⟨d, _, n, _, rfl⟩ := mem_enrol hr
    simp [Draft.record, h]
  rw [recordsOf, recordsOf, append, List.filter_append, hnone, List.append_nil]

theorem recordsOf_put_of_ne {id : RecordId} (h : ∀ r ∈ s.records, r.id = id → r.item ≠ item)
    (text : Text) (follows : Bool) (actor : Actor) :
    (s.put id text follows actor).recordsOf item = s.recordsOf item := by
  have hfilter : (s.put id text follows actor).records.filter (·.item = item) =
      s.records.filter (·.item = item) := by
    rw [put, List.filter_map]
    have hitem : ((fun r : Record => decide (r.item = item)) ∘ fun r =>
        if r.id = id then { r with text, follows, updatedBy := actor, updatedAt := s.clock }
        else r) = fun r => decide (r.item = item) := by
      funext r
      simp only [Function.comp_apply]
      split <;> rfl
    rw [hitem]
    refine (List.map_congr_left fun r hr => ?_).trans (List.map_id _)
    obtain ⟨hr, heq⟩ := List.mem_filter.mp hr
    exact if_neg fun hid => h r hr hid (by simpa using heq)
  rw [recordsOf, recordsOf, hfilter]

end Store

/-- What a flow finds and leaves of an item that is not live. -/
structure Spared (b : LanguageId) (type : String) (item : ItemId) (rs : List Record)
    (past : List Heard) (w : World) : Prop where
  sound : w.Sound b
  informed : Informed b w past
  gone : w.Gone type item
  unlisted : ¬OnList past type item
  records : w.recordsOf type item = rs

section

variable {b : LanguageId} {type : String} {item : ItemId} {rs : List Record} {past : List Heard}
  {w : World} {c : Call}

theorem Spared.start (hsound : w.Sound b) (hgone : w.Gone type item) :
    Spared b type item (w.recordsOf type item) [] w :=
  ⟨hsound, .nil b w, hgone, (fun ⟨_, hlisting, _⟩ => nomatch hlisting), rfl⟩

theorem Spared.unlisted_answer (h : Spared b type item rs past w) (c : Call) :
    ¬OnList (⟨c, (World.answer c w).1⟩ :: past) type item := by
  rintro ⟨items, hlisting, hitem⟩
  rcases List.mem_cons.mp hlisting with heq | hlisting
  · obtain ⟨s, hs, hreply⟩ := World.store?_of_reply (World.told heq)
    have hitems : s.list = .ok items := hreply
    rw [Store.list] at hitems
    split at hitems
    · cases hitems
    · cases hitems
      rw [Store.mem_liveItems, h.gone s hs] at hitem
      cases hitem
  · exact h.unlisted ⟨items, hlisting, hitem⟩

theorem Spared.recordsOf_at (h : Spared b type item rs past w) {s : Store}
    (hs : w.store? type = some s) (hc : Restrained type item past c) :
    (c.at w.directory type s).recordsOf item = s.recordsOf item := by
  have hother {i : ItemId} (hlisted : type = type → i = item → OnList past type item) : i ≠ item :=
    fun hi => h.unlisted (hlisted rfl hi)
  rcases c.becomes_at w.directory type s with heq | ⟨q, rfl, hbecomes⟩
  · rw [heq]
  · generalize (Call.content type q).at w.directory type s = t at hbecomes
    cases hbecomes with
    | same => rfl
    | inserted i drafts actor =>
        cases hc with
        | look hlooks => cases hlooks
        | insert _ _ hlisted => exact Store.recordsOf_append_of_ne (hother hlisted) drafts actor
    | overwritten r text actor hr =>
        generalize hid : r.id = id at hc
        cases hc with
        | look hlooks => cases hlooks
        | overwrite _ _ hread hmem hlisted =>
            refine Store.recordsOf_put_of_ne (fun r' hr' hid' => ?_) text true actor
            rw [(h.informed.place hread hs hmem hr' hid').1]
            exact hother hlisted
    | written r text follows actor hr =>
        generalize hid : r.id = id at hc
        cases hc with
        | look hlooks => cases hlooks
        | write _ _ _ hread hmem hlisted =>
            refine Store.recordsOf_put_of_ne (fun r' hr' hid' => ?_) text follows actor
            rw [(h.informed.place hread hs hmem hr' hid').1]
            exact hother hlisted

theorem Spared.answer (h : Spared b type item rs past w) (hc : Restrained type item past c) :
    Spared b type item rs (⟨c, (World.answer c w).1⟩ :: past) (World.answer c w).2 where
  sound.stores target t ht := by
    rw [World.store?_answer] at ht
    obtain ⟨s, hs, rfl⟩ := Option.map_eq_some_iff.mp ht
    exact c.sound_at (h.sound.stores target s hs)
  sound.base := by
    rw [World.directory_answer]
    exact h.sound.base
  informed := by
    refine (h.sound.informed_answer h.informed c).mono fun target s hs => ?_
    exact ⟨c.at w.directory target s, by rw [World.store?_answer, hs]; rfl, c.later_at⟩
  gone t ht := by
    rw [World.store?_answer] at ht
    obtain ⟨s, hs, rfl⟩ := Option.map_eq_some_iff.mp ht
    rw [Store.live, (c.at_faults w.directory type s).2]
    exact h.gone s hs
  unlisted := h.unlisted_answer c
  records := by
    rw [← h.records, World.recordsOf, World.recordsOf, World.store?_answer]
    cases hs : w.store? type with
    | none => rfl
    | some s => exact h.recordsOf_at hs hc

theorem Spared.run {α : Type} {post : List Heard → α → Prop} {program : Service α}
    (h : Spared b type item rs [] w)
    (hgrounded : program.Grounded (Restrained type item) post []) :
    Spared b type item rs [] (program.run World.answer w).2 := by
  obtain ⟨later, hlater, _⟩ := hgrounded.run World.answer (Spared b type item rs)
    (fun past c w h hc => h.answer hc) h
  have hstart := Spared.start hlater.sound hlater.gone
  rwa [hlater.records] at hstart

theorem Spared.within {α : Type} {post : List Heard → Except Error α → Prop} {f : Attempt α}
    {target : String} (h : Spared b type item rs [] w) (e : Engine)
    (hgrounded : (Flow.on target f.run).Grounded (Restrained type item) post []) :
    Spared b type item rs [] ((e.within target f).run World.answer w).2 := by
  rw [Engine.within]
  split
  · exact h.run hgrounded
  · exact h

theorem Spared.reconcileEach (h : Spared b type item rs [] w) (e : Engine)
    (types : List String) :
    Spared b type item rs [] ((e.reconcileEach types).run World.answer w).2 := by
  induction types generalizing e w with
  | nil => exact h
  | cons target rest ih =>
      simp only [Engine.reconcileEach, Program.run_bind]
      exact ih (h.run (Reconciliation.run_restrained type target item e.actor [])) _

end

def failure? {α : Type} : Except Error α → Option Error
  | .ok _ => none
  | .error e => some e

namespace Operation

def Concerns (type : String) (item : ItemId) : Operation → Prop
  | .create target i _ _ => target = type ∧ i = item
  | .edit target i _ _ _ => target = type ∧ i = item
  | .unpin target i _ _ => target = type ∧ i = item
  | _ => False

def error? : Operation → System → Option Error
  | .create type item inputs actor, ⟨e, w⟩ =>
      failure? ((e.create type item inputs actor).run World.answer w).1
  | .edit type item language text actor, ⟨e, w⟩ =>
      failure? ((e.edit type item language text actor).run World.answer w).1.1
  | .unpin type item language actor, ⟨e, w⟩ =>
      failure? ((e.unpin type item language actor).run World.answer w).1
  | _, _ => none

/-- The records of the item stay as they are, and what is asked for it is refused. -/
def Spares (type : String) (item : ItemId) (op : Operation) (system : System) : Prop :=
  (op.perform system).world.recordsOf type item = system.world.recordsOf type item ∧
    (op.Concerns type item → ∃ e, op.error? system = some e ∧ e.isRefusal = true)

/-- A creation that passes its checks, for an item that the store knows. -/
def Unearths (type : String) (item : ItemId) (op : Operation) (system : System) : Prop :=
  ∃ inputs actor s, op = .create type item inputs actor ∧
    system.engine.registry.has type = true ∧ system.world.store? type = some s ∧
    s.items.contains item = true ∧ Creation.Valid system.world.directory inputs

variable {type : String} {item : ItemId} {e : Engine} {w : World}

theorem refuses_within {α : Type} {f : Attempt α} (h : w.Refuses (Flow.on type f.run)) :
    w.Refuses (e.within type f) := by
  rw [Engine.within]
  split
  · exact h
  · exact World.refuses_error rfl

theorem create_spares {inputs : List Submission} {actor : Actor}
    (h : w.Refuses (e.create type item inputs actor)) :
    (Operation.create type item inputs actor).Spares type item ⟨e, w⟩ := by
  obtain ⟨error, v, hrun, herror, halike⟩ := h
  refine ⟨?_, fun _ => ⟨error, ?_, herror⟩⟩
  · rw [perform, hrun]
    exact halike.recordsOf type item
  · rw [error?, hrun]
    rfl

theorem edit_spares (h : w.Gone type item) (e : Engine) (language : LanguageId) (text : Text)
    (actor : Actor) :
    (Operation.edit type item language text actor).Spares type item ⟨e, w⟩ := by
  obtain ⟨error, v, hrun, herror, halike⟩ :=
    refuses_within (e := e) (Edit.edit_refused h language text actor)
  have hedit : (e.edit type item language text actor).run World.answer w =
      ((.error error, e), v) := by
    rw [Engine.edit, Program.run_bind, hrun]
    rfl
  refine ⟨?_, fun _ => ⟨error, ?_, herror⟩⟩
  · rw [perform, hedit]
    exact halike.recordsOf type item
  · rw [error?, hedit]
    rfl

theorem unpin_spares (h : w.Gone type item) (e : Engine) (language : LanguageId) (actor : Actor) :
    (Operation.unpin type item language actor).Spares type item ⟨e, w⟩ := by
  obtain ⟨error, v, hrun, herror, halike⟩ :=
    refuses_within (e := e) (Edit.unpin_refused h language actor)
  refine ⟨?_, fun _ => ⟨error, ?_, herror⟩⟩
  · rw [perform, Engine.unpin, hrun]
    exact halike.recordsOf type item
  · rw [error?, Engine.unpin, hrun]
    rfl

theorem create_spares_of_not_unearths {inputs : List Submission} {actor : Actor}
    (h : ¬(Operation.create type item inputs actor).Unearths type item ⟨e, w⟩) :
    (Operation.create type item inputs actor).Spares type item ⟨e, w⟩ := by
  apply create_spares
  by_cases hvalid : Creation.Valid w.directory inputs
  · by_cases htype : e.registry.has type = true
    · refine refuses_within (Creation.create_refused_of_absent fun s hs => ?_)
      by_contra hitem
      exact h ⟨inputs, actor, s, rfl, htype, hs, Bool.of_not_eq_false hitem, hvalid⟩
    · rw [Engine.create, Engine.within, if_neg htype]
      exact World.refuses_error rfl
  · exact refuses_within (Creation.create_refused_of_not_valid hvalid)

/-- A creation that unearths an item writes its records, or the store finds that it has them. -/
theorem not_spares_of_unearths {op : Operation} {system : System}
    (h : op.Unearths type item system) : ¬op.Spares type item system := by
  obtain ⟨inputs, actor, s, rfl, htype, hs, hitem, hvalid⟩ := h
  obtain ⟨e, w⟩ := system
  rintro ⟨hrecords, hanswer⟩
  obtain ⟨error, herror, hrefusal⟩ := hanswer ⟨rfl, rfl⟩
  rw [perform, Engine.create, Engine.within, if_pos htype] at hrecords
  rw [error?, Engine.create, Engine.within, if_pos htype] at herror
  rcases Creation.create_reaches_store hvalid hs hitem actor with ⟨cause, hcause⟩ | hne
  · rw [hcause] at herror
    cases herror
    cases hrefusal
  · exact hne hrecords

/-- A handler looks whether the item is live before anything else. -/
theorem alike_handle (event : Event) (h : w.Gone event.contentType event.item) :
    w.Alike ((Flow.on event.contentType (Propagation.handle event)).run World.answer w).2 := by
  rw [Propagation.handle, Propagation.check, Flow.run_hasItem]
  simp only [Program.query, Program.ask_bind, Flow.on_ask, Program.run_ask]
  generalize hreply :
    (World.answer (.content event.contentType (.hasItem event.item)) w).1 = reply
  rcases h.hasItem hreply with rfl | rfl
  · exact World.alike_answer rfl
  · exact World.alike_answer rfl

theorem recordsOf_work {b : LanguageId} (hsound : w.Sound b) (hgone : w.Gone type item)
    (e : Engine) : (e.work World.backend w).2.recordsOf type item = w.recordsOf type item := by
  rw [Engine.work]
  split
  · rename_i event channel _
    rw [Engine.dispatch]
    split
    · rw [show World.backend = fun c w =>
          (some (World.answer c w).1, (World.answer c w).2) from rfl, Program.attempt_eq_run]
      by_cases hitem : event.contentType = type ∧ event.item = item
      · obtain ⟨rfl, rfl⟩ := hitem
        exact (alike_handle event hgone).recordsOf _ _
      · have hrestrained (past : List Heard) (c : Call) (hc : (Job.handle event).Grounds past c) :
            Restrained type item past c :=
          hc.restrained fun ht hi => hitem ⟨ht, hi⟩
        have hgrounded := (Propagation.handle_grounded event).weaken hrestrained fun _ _ h => h
        exact ((Spared.start hsound hgone).run hgrounded).records
    · rfl
  · rfl

theorem recordsOf_perform {b : LanguageId} {system : System} (hsound : system.world.Sound b)
    (hgone : system.world.Gone type item) {op : Operation} (hop : ¬op.Concerns type item) :
    (op.perform system).world.recordsOf type item = system.world.recordsOf type item := by
  obtain ⟨e, w⟩ := system
  have hspared := Spared.start hsound hgone
  have haside {target : String} {i : ItemId} (h : ¬(target = type ∧ i = item)) :
      target = type → i ≠ item :=
    fun ht hi => h ⟨ht, hi⟩
  cases op with
  | addItem target i =>
      rw [perform, World.recordsOf, World.recordsOf,
        World.store?_update (f := (·.addItem i)) fun _ hs => hs]
      split
      · rw [Option.elim_map]
        rfl
      · rfl
  | create target i inputs actor =>
      exact (hspared.within e ((Creation.create_grounded target i inputs actor).weaken
        (fun past c hc => hc.restrained (haside hop)) fun _ _ h => h)).records
  | edit target i language text actor =>
      have hkept := (hspared.within e ((Edit.edit_grounded target i language text actor).weaken
        (fun past c hc => hc.restrained (haside hop)) fun _ _ h => h)).records
      rw [← hkept]
      simp only [perform, Engine.edit, Program.run_bind]
      generalize (e.within target (Edit.edit target i language text actor)).run World.answer w = out
      obtain ⟨error | ⟨report, _ | event⟩, v⟩ := out <;> rfl
  | unpin target i language actor =>
      exact (hspared.within e ((Edit.unpin_grounded target i language actor).weaken
        (fun past c hc => hc.restrained (haside hop)) fun _ _ h => h)).records
  | reconcile target =>
      have hkept := (hspared.within e
        (Reconciliation.run_restrained type target item e.actor []).lifted).records
      rw [← hkept]
      simp only [perform, Engine.reconcile, Program.run_bind]
      generalize (e.within target (Reconciliation.run target e.actor)).run World.answer w = out
      obtain ⟨error | pass, v⟩ := out <;> rfl
  | reconcileAll => exact (hspared.reconcileEach e e.registry.names).records
  | backfill code =>
      have hkept := (hspared.run
        (Backfill.run_restrained e.registry.names e.actor code type item [])).records
      rw [← hkept]
      simp only [perform, Engine.backfill, Program.run_bind]
      rfl
  | work => exact recordsOf_work hsound hgone e

/-- A whole operation writes no record of an item that is not live, and refuses what is asked for
it, unless it is a creation in order and the store still keeps the item. -/
theorem spares_deleted_iff {system : System}
    (hsound : ∀ type s, system.world.store? type = some s → s.Sound)
    (hgone : system.world.Gone type item) (op : Operation) :
    op.Spares type item system ↔ ¬op.Unearths type item system := by
  refine ⟨fun hspares hunearths => not_spares_of_unearths hunearths hspares, fun h => ?_⟩
  obtain ⟨e, w⟩ := system
  by_cases hop : op.Concerns type item
  · cases op with
    | create target i inputs actor =>
        obtain ⟨rfl, rfl⟩ := hop
        exact create_spares_of_not_unearths h
    | edit target i language text actor =>
        obtain ⟨rfl, rfl⟩ := hop
        exact edit_spares hgone e language text actor
    | unpin target i language actor =>
        obtain ⟨rfl, rfl⟩ := hop
        exact unpin_spares hgone e language actor
    | _ => exact hop.elim
  · obtain ⟨b, hbase⟩ : ∃ b, w.directory.BaseWithin b := by
      cases hbase : w.directory.base with
      | none => exact ⟨0, fun l hl => by rw [hbase] at hl; cases hl⟩
      | some l => exact ⟨l.id, fun l' hl' => by rw [hbase] at hl'; cases hl'; rfl⟩
    exact ⟨recordsOf_perform ⟨hsound, hbase⟩ hgone hop, fun h => absurd h hop⟩

end Operation

namespace Bilingual

/-- A page in two languages that was deleted; the store keeps its records. -/
def shelved : Store :=
  (((Store.named "page").addItem 7).append 7
    [.pinned 1 (title "Hello"), .copy 2 (title "Hello")] "ann").softDelete 7

def shelf : System :=
  ⟨(Engine.start ⟨[("page", 5)]⟩ "sync").publish .joined ⟨"page", 7, 1, title "Welcome", "ann"⟩,
    ⟨directory, [shelved]⟩⟩

def buried : Store := ((Store.named "page").addItem 7).softDelete 7

def graveyard : System := ⟨.start ⟨[("page", 5)]⟩ "sync", ⟨directory, [buried]⟩⟩

theorem sound_shelved : shelved.Sound := by
  refine Store.Sound.softDelete (Store.Sound.append ((Store.sound_named "page").addItem 7) "ann"
    rfl (by decide) ?_) 7
  intro d _ r hr
  cases hr

end Bilingual

namespace Operation

open Bilingual in
theorem shelved_page_spared :
    shelf.world.Gone "page" 7 ∧ shelf.engine.channel.queue ≠ [] ∧
      work.Spares "page" 7 shelf ∧
      (edit "page" 7 2 (title "Bonjour") "bob").Spares "page" 7 shelf := by
  have hsound : ∀ type s, shelf.world.store? type = some s → s.Sound := by
    intro type s hs
    rw [List.mem_singleton.mp (List.mem_of_find?_eq_some hs)]
    exact sound_shelved
  have hgone : shelf.world.Gone "page" 7 := by
    intro s hs
    rw [List.mem_singleton.mp (List.mem_of_find?_eq_some hs)]
    decide
  refine ⟨hgone, by decide, (spares_deleted_iff hsound hgone _).mpr ?_,
    (spares_deleted_iff hsound hgone _).mpr ?_⟩
  · rintro ⟨_, _, _, heq, _⟩
    cases heq
  · rintro ⟨_, _, _, heq, _⟩
    cases heq

open Bilingual in
/-- The page is deleted, nothing fails, and it gets an English text and its French copy. -/
theorem creation_unearths_buried_page :
    let op := create "page" 7 [⟨1, title "Hello"⟩] "ann"
    buried.Reachable ∧ buried.faults = .none ∧ graveyard.world.Gone "page" 7 ∧
      op.error? graveyard = none ∧ graveyard.world.recordsOf "page" 7 = [] ∧
      ((op.perform graveyard).world.recordsOf "page" 7).map Record.content =
        [(1, title "Hello", false), (2, title "Hello", true)] ∧
      ¬op.Spares "page" 7 graveyard := by
  intro op
  have hgone : graveyard.world.Gone "page" 7 := by
    intro s hs
    rw [List.mem_singleton.mp (List.mem_of_find?_eq_some hs)]
    decide
  have hnone : graveyard.world.recordsOf "page" 7 = [] := by cbv
  have hanswer : op.error? graveyard = none := by cbv
  have hrecords : ((op.perform graveyard).world.recordsOf "page" 7).map Record.content =
      [(1, title "Hello", false), (2, title "Hello", true)] := by
    cbv
  refine ⟨.softDelete 7 (.addItem 7 (.named "page")), rfl, hgone, hanswer, hnone, hrecords, ?_⟩
  rintro ⟨hsame, _⟩
  rw [hsame, hnone] at hrecords
  cases hrecords

end Operation

end Polyglot
