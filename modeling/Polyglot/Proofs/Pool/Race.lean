import Polyglot.Proofs.Pool.Protection
import Polyglot.Proofs.Pool.Sweep
import Polyglot.Proofs.Store.Place

namespace Polyglot

def Move.Internal : Move → Prop
  | .start _ => False
  | .change _ => False
  | _ => True

instance : DecidablePred Move.Internal
  | .start _ => .isFalse id
  | .change _ => .isFalse id
  | .call _ _ => .isTrue trivial
  | .finish _ => .isTrue trivial
  | .take _ => .isTrue trivial

theorem Move.Internal.keepsBase {m : Move} {b : LanguageId} (h : m.Internal) : m.KeepsBase b := by
  cases m with
  | change c => cases h
  | start job => trivial
  | call job c => trivial
  | finish job => trivial
  | take event => trivial

/-- The texts that edits wrote, that they published and that the worker took. -/
def Move.written? : Move → Option Text
  | .call (.edit _ _ _ text _) (.content _ (.write ..)) => some text
  | _ => none

def Move.published? : Move → Option Text
  | .finish (.edit _ _ _ text _) => some text
  | _ => none

def Move.taken? : Move → Option Text
  | .take event => some event.text
  | _ => none

namespace Pool

def written (log : List Entry) : List Text := log.filterMap (·.move.written?)

def published (log : List Entry) : List Text := log.filterMap (·.move.published?)

def taken (log : List Entry) : List Text := log.filterMap (·.move.taken?)

end Pool

def World.text? (w : World) (type : String) (item : ItemId) (language : LanguageId) :
    Option Text :=
  (w.store? type).bind fun s => (s.recordIn? item language).map (·.text)

/-- The jobs that contend for one item: edits of its base text, handlers of their events, and
passes. -/
inductive Job.Contends (type : String) (item : ItemId) (b : LanguageId) (texts : List Text)
    (passes : List Actor) : Job → Prop where
  | edit {text : Text} (actor : Actor) (htext : text ∈ texts) :
      Contends type item b texts passes (.edit type item b text actor)
  | handle {text : Text} (actor : Actor) (htext : text ∈ texts) :
      Contends type item b texts passes
        (.handle { contentType := type, item, language := b, text, actor })
  | pass {actor : Actor} (hactor : actor ∈ passes) :
      Contends type item b texts passes (.reconcile type actor)

/-- The base language is there, nothing is made to fail, and a live item has its base record, which
has this id. -/
structure World.Ready (type : String) (item : ItemId) (b : LanguageId) (id : RecordId)
    (w : World) : Prop where
  base : ∃ l, w.directory.base = some l ∧ l.id = b
  store : ∃ s, w.store? type = some s ∧ s.faults = .none ∧ s.live item = true ∧
    ∃ rb ∈ s.records, rb.item = item ∧ rb.language = b ∧ rb.id = id

/-- Nothing that was heard keeps an edit of the base text from writing and publishing. -/
structure Unhindered (type : String) (item : ItemId) (b : LanguageId) (id : RecordId)
    (past : List Heard) : Prop where
  clear : Clear type item b past
  based : ∀ rs, (⟨.content type (.records item), .ok rs⟩ : Heard) ∈ past →
    (rs.find? (·.language = b)).map (·.id) = some id
  written : ∀ other text follows actor e,
    (⟨.content type (.write other text follows actor), .error e⟩ : Heard) ∉ past

section

variable {type : String} {item : ItemId} {b : LanguageId} {id : RecordId} {texts : List Text}
  {passes : List Actor} {past : List Heard} {w : World} {s : Store}

theorem Store.Sound.find?_recordsOf (hs : s.Sound) {rb : Record} (hrb : rb ∈ s.records) :
    (s.recordsOf rb.item).find? (·.language = rb.language) = some rb :=
  (hs.find?_recordsOf_eq _ _).trans (hs.recordIn?_eq hrb rfl rfl)

theorem Unhindered.nil : Unhindered type item b id [] := ⟨.nil type item b, nofun, nofun⟩

theorem Unhindered.answer (h : Unhindered type item b id past) (hready : w.Ready type item b id)
    (hsound : w.Sound b) {job : Job} (hjob : job.Contends type item b texts passes) {c : Call}
    (hgrounds : job.Grounds past c) :
    Unhindered type item b id (⟨c, (World.answer c w).1⟩ :: past) := by
  obtain ⟨l, hbase, hl⟩ := hready.base
  obtain ⟨s, hs, hfaults, hlive, rb, hrb, hitem, hlanguage, hid⟩ := hready.store
  have hstore := hsound.stores type s hs
  refine ⟨h.clear.answer hbase hl hs hfaults hlive c, ?_, ?_⟩
  · intro rs hread
    rcases List.mem_cons.mp hread with heq | hread
    · have hreply := World.told heq
      rw [World.reply_answer hs] at hreply
      rw [← Except.ok.inj hreply, ← hitem, ← hlanguage, hstore.find?_recordsOf hrb]
      exact congrArg some hid
    · exact h.based rs hread
  · intro other text follows actor e hwrite
    rcases List.mem_cons.mp hwrite with heq | hwrite
    · have hreply := World.told heq
      rw [World.reply_answer hs] at hreply
      have hc : c = .content type (.write other text follows actor) :=
        (congrArg Answered.question heq).symm
      subst hc
      have hother : other = rb.id := by
        cases hjob with
        | edit actor htext =>
            cases hgrounds with
            | look hlooks => cases hlooks
            | edited hread hfind =>
                have hbased := h.based _ hread
                rw [hfind] at hbased
                rw [hid]
                exact Option.some.inj hbased
        | handle actor htext =>
            cases hgrounds with
            | look hlooks => cases hlooks
        | pass hactor =>
            cases hgrounds with
            | look hlooks => cases hlooks
      rw [hother, Store.answer_write hrb] at hreply
      cases hreply
    · exact h.written other text follows actor e hwrite

theorem Unhindered.not_hindered (h : Unhindered type item b id past) {text : Text}
    (htext : text.isEmpty = false) : ¬ EditHindered past type item b text := by
  rintro (hempty | hgone | ⟨rs, hread, hnone⟩ | ⟨q, e, hlooks, he⟩ | ⟨other, follows, actor, e, he⟩)
  · rw [htext] at hempty
    cases hempty
  · cases h.clear.there false hgone
  · have hbased := h.based rs hread
    rw [hnone] at hbased
    cases hbased
  · exact h.clear.answered q e hlooks he
  · exact h.written other text follows actor e he

namespace Pool

variable {p q : Pool} {m : Move} {log : List Entry}

theorem Sound.ready_step (hp : p.Sound b) (h : p.world.Ready type item b id) (hstep : Step p m q)
    (hm : m.Internal) : q.world.Ready type item b id := by
  have hdirectory : q.world.directory = p.world.directory :=
    hstep.directory fun d heq => by
      rw [heq] at hm
      exact hm
  obtain ⟨s, hs, hfaults, hlive, rb, hrb, rfl, hlanguage, rfl⟩ := h.store
  have ht : q.world.store? type = some (m.at p.world.directory type s) := by
    rw [hstep.store? type, hs]
    rfl
  have hframe : (m.at p.world.directory type s).faults = s.faults ∧
      (m.at p.world.directory type s).items = s.items := by
    cases m with
    | call job c => exact c.at_faults p.world.directory type s
    | change c => exact False.elim hm
    | start job => exact ⟨rfl, rfl⟩
    | finish job => exact ⟨rfl, rfl⟩
    | take event => exact ⟨rfl, rfl⟩
  refine ⟨hdirectory ▸ h.base, _, ht, hframe.1.trans hfaults, ?_, ?_⟩
  · rw [Store.live, hframe.2]
    exact hlive
  · rcases hp.keeps hstep ⟨s, hs, hrb⟩ (Or.inr hlanguage) with
      ⟨t, ht', hr⟩ | ⟨text, follows, actor, now, _, ⟨t, ht', hr⟩⟩ | hdelete
    · cases ht.symm.trans ht'
      exact ⟨rb, hr, rfl, hlanguage, rfl⟩
    · cases ht.symm.trans ht'
      exact ⟨_, hr, rfl, hlanguage, rfl⟩
    · rw [hdelete] at hm
      exact False.elim hm

/-- What holds throughout a race. The events that were published are those that were taken and,
after them, those that wait. -/
structure Racing (type : String) (item : ItemId) (b : LanguageId) (id : RecordId)
    (texts : List Text) (passes : List Actor) (log : List Entry) (p : Pool) : Prop where
  sound : p.Sound b
  ready : p.world.Ready type item b id
  jobs : ∀ t ∈ p.tasks, t.job.Contends type item b texts passes
  unhindered : ∀ t ∈ p.tasks, Unhindered type item b id t.past
  accepting : p.engine.accepting = true
  receiving : p.engine.channel.receiving = true
  queue : ∀ event ∈ p.engine.channel.queue,
    (Job.handle event).Contends type item b texts passes
  order : published log = (p.engine.channel.queue.map (·.text)).reverse ++ taken log

theorem Racing.unhindered_step (h : Racing type item b id texts passes log p)
    (hstep : Step p m q) : ∀ t ∈ q.tasks, Unhindered type item b id t.past := by
  refine hstep.forall_tasks h.unhindered (fun _ _ ht => ht) (fun _ _ => .nil) ?_
  intro job past c next _ _ hmem ht
  exact ht.answer h.ready h.sound.world (h.jobs _ hmem) (h.sound.grounded _ hmem).1

theorem Racing.jobs_step (h : Racing type item b id texts passes log p) (hstep : Step p m q)
    (hm : m.Internal) : ∀ t ∈ q.tasks, t.job.Contends type item b texts passes := by
  refine hstep.forall_tasks h.jobs (fun _ _ ht => ht) ?_ fun job past c next _ _ _ ht => ht
  rintro job (rfl | ⟨event, rfl, rfl⟩)
  · exact False.elim hm
  · cases hstep with
    | take event channel hidle hreceive =>
        obtain ⟨_, rest, hqueue, _⟩ := Channel.receive_eq_event hreceive
        exact h.queue event (hqueue ▸ List.mem_cons_self)

/-- An edit of the base text that ends has written, and it publishes its event. -/
theorem Racing.edit_ends (h : Racing type item b id texts passes log p)
    (htexts : ∀ text ∈ texts, text.isEmpty = false) {t : Task} (ht : t ∈ p.tasks) {text : Text}
    {actor : Actor} {f : Engine → Engine} (hjob : t.job = .edit type item b text actor)
    (hrest : t.rest = .done f) :
    (∃ other, (⟨.content type (.write other text false actor), .ok ()⟩ : Heard) ∈ t.past) ∧
      f = fun e =>
        e.publish e.handle { contentType := type, item, language := b, text, actor } := by
  have hends : t.rest.Grounded t.job.Grounds t.job.Ends t.past := h.sound.grounded t ht
  rw [hrest, hjob, Program.grounded_done] at hends
  have hunhindered := h.unhindered t ht
  have hcontends := h.jobs t ht
  rw [hjob] at hcontends
  cases hcontends with
  | edit _ htext =>
      rcases hends with ⟨hhindered, _⟩ | ⟨other, hwrite, o, ho, hf⟩
      · exact absurd hhindered (hunhindered.not_hindered (htexts text htext))
      · obtain ⟨l, hl, hid⟩ := hunhindered.clear.base o ho
        refine ⟨⟨other, hwrite⟩, ?_⟩
        rw [hf, if_pos]
        simp [Option.mem_def.mp hl, hid]

theorem Racing.step (htexts : ∀ text ∈ texts, text.isEmpty = false)
    (h : Racing type item b id texts passes log p) (hstep : Step p m q) (hm : m.Internal) :
    Racing type item b id texts passes (⟨m, p.world, q.world⟩ :: log) q := by
  have hsound := h.sound.step hstep hm.keepsBase
  have hready := h.sound.ready_step h.ready hstep hm
  have hjobs := h.jobs_step hstep hm
  have hunhindered := h.unhindered_step hstep
  have hcontends := h.jobs
  cases hstep with
  | start job => exact False.elim hm
  | change c => exact False.elim hm
  | call before after job past c next htasks =>
      refine ⟨hsound, hready, hjobs, hunhindered, h.accepting, h.receiving, h.queue, ?_⟩
      exact h.order
  | take event channel hidle hreceive =>
      obtain ⟨_, rest, hqueue, rfl⟩ := Channel.receive_eq_event hreceive
      refine ⟨hsound, hready, hjobs, hunhindered, h.accepting, h.receiving, ?_, ?_⟩
      · intro other hother
        exact h.queue other (hqueue ▸ List.mem_cons_of_mem _ hother)
      · have horder := h.order
        rw [hqueue] at horder
        simpa [published, taken, Move.published?, Move.taken?] using horder
  | finish before after job past f htasks =>
      have hmem : (⟨job, past, .done f⟩ : Task) ∈ p.tasks := by
        rw [htasks]
        exact List.mem_append_cons_self
      have hends : job.Ends past f := h.sound.grounded _ hmem
      -- A handler or a pass adds nothing to the queue and nothing to what was published.
      have hquiet (hengine : (f p.engine).channel = p.engine.channel ∧
            (f p.engine).accepting = p.engine.accepting)
          (hnone : (Move.finish job).published? = none) :
          Racing type item b id texts passes (⟨.finish job, p.world, p.world⟩ :: log)
            { p with engine := f p.engine, tasks := before ++ after } := by
        refine ⟨hsound, hready, hjobs, hunhindered, ?_, ?_, ?_, ?_⟩
        · rw [hengine.2]
          exact h.accepting
        · rw [hengine.1]
          exact h.receiving
        · rw [hengine.1]
          exact h.queue
        · rw [hengine.1, published, List.filterMap_cons, hnone]
          exact h.order
      cases hcontends _ hmem with
      | handle actor htext => exact hquiet (hends.2 _) rfl
      | pass hactor => exact hquiet (hends _) rfl
      | edit actor htext =>
          have hf := (h.edit_ends htexts hmem rfl rfl).2
          subst hf
          have hpublish := Engine.publish_of_running h.accepting h.receiving
          refine ⟨hsound, hready, hjobs, hunhindered, ?_, ?_, ?_, ?_⟩ <;> simp only [hpublish]
          · exact h.accepting
          · exact h.receiving
          · intro other hother
            rcases List.mem_append.mp hother with hother | hother
            · exact h.queue other hother
            · rw [List.mem_singleton.mp hother]
              exact .handle actor htext
          · have horder := h.order
            simpa [published, taken, Move.published?, Move.taken?] using horder

theorem Sound.text?_eq (h : p.Sound b) {r : Record} (hr : p.world.Holds type r) :
    p.world.text? type r.item r.language = some r.text := by
  obtain ⟨s, hs, hr⟩ := hr
  simp only [World.text?, hs, Option.bind_some]
  rw [(h.world.stores type s hs).recordIn?_eq hr rfl rfl]
  rfl

theorem Racing.write_call (h : Racing type item b id texts passes log p) {job : Job}
    {target : String} {other : RecordId} {text : Text} {follows : Bool} {actor : Actor}
    (hstep : Step p (.call job (.content target (.write other text follows actor))) q) :
    target = type ∧ other = id ∧ follows = false ∧ job = .edit type item b text actor ∧
      text ∈ texts := by
  obtain ⟨past, next, hmem⟩ := hstep.caller
  have hgrounds := (h.sound.grounded _ hmem).1
  have hunhindered := h.unhindered _ hmem
  cases h.jobs _ hmem with
  | edit actor htext =>
      cases hgrounds with
      | look hlooks => cases hlooks
      | edited hread hfind =>
          have hbased := hunhindered.based _ hread
          rw [hfind] at hbased
          exact ⟨rfl, Option.some.inj hbased, rfl, rfl, htext⟩
  | handle actor htext =>
      cases hgrounds with
      | look hlooks => cases hlooks
  | pass hactor =>
      cases hgrounds with
      | look hlooks => cases hlooks

theorem Racing.text?_step (h : Racing type item b id texts passes log p) (hstep : Step p m q)
    (hm : m.Internal) :
    (∀ text, m.written? = some text →
        text ∈ texts ∧ q.world.text? type item b = some text) ∧
      (m.written? = none → q.world.text? type item b = p.world.text? type item b) := by
  obtain ⟨s, hs, _, _, rb, hrb, rfl, rfl, rfl⟩ := h.ready.store
  have hq := h.sound.step hstep hm.keepsBase
  have hbefore := h.sound.text?_eq ⟨s, hs, hrb⟩
  constructor
  · intro text hwritten
    obtain ⟨type', item', language', text', actor', target, other, text'', follows, actor, rfl⟩ :
        ∃ type' item' language' text' actor' target other text'' follows actor,
          m = .call (.edit type' item' language' text' actor')
            (.content target (.write other text'' follows actor)) := by
      unfold Move.written? at hwritten
      split at hwritten
      · exact ⟨_, _, _, _, _, _, _, _, _, _, rfl⟩
      · cases hwritten
    obtain ⟨rfl, rfl, rfl, hjob, htext⟩ := h.write_call hstep
    cases hjob
    cases hwritten
    refine ⟨htext, ?_⟩
    have hreply : (World.answer (.content type' (.write rb.id text false actor')) p.world).1 =
        .ok () := by
      rw [World.reply_answer hs, Store.answer_write hrb]
    obtain ⟨r, hr, _, hitem, hlanguage, rfl, _, _⟩ := h.sound.edited hstep hreply
    rw [← hitem, ← hlanguage]
    exact hq.text?_eq hr
  · intro hwritten
    rcases h.sound.keeps hstep ⟨s, hs, hrb⟩ (Or.inr rfl) with
      hr | ⟨text, follows, actor, now, hrewrites, _⟩ | hdelete
    · rw [hbefore]
      exact hq.text?_eq hr
    · cases hrewrites with
      | edit text actor => cases hwritten
      | unpin text actor hlanguage => exact absurd rfl hlanguage
    · rw [hdelete] at hm
      exact False.elim hm

/-- The base record has the text that was written last, and no edit publishes before it wrote. -/
structure Editing (type : String) (item : ItemId) (b : LanguageId) (texts : List Text)
    (log : List Entry) (p : Pool) : Prop where
  base : ∀ text, (written log).head? = some text →
    text ∈ texts ∧ p.world.text? type item b = some text
  wrote : ∀ t ∈ p.tasks, ∀ other text follows actor reply,
    (⟨.content type (.write other text follows actor), reply⟩ : Heard) ∈ t.past →
      written log ≠ []
  announced : ∀ text ∈ published log, text ∈ texts ∧ written log ≠ []
  pending : published log = [] →
    ∃ t ∈ p.tasks, ∃ text actor, t.job = .edit type item b text actor

theorem written_cons_ne_nil {e : Entry} (h : written log ≠ []) : written (e :: log) ≠ [] := by
  rw [written, List.filterMap_cons]
  split
  · exact h
  · exact List.cons_ne_nil _ _

theorem Editing.base_step (hrace : Racing type item b id texts passes log p)
    (h : Editing type item b texts log p) (hstep : Step p m q) (hm : m.Internal) (text : Text)
    (hhead : (written (⟨m, p.world, q.world⟩ :: log)).head? = some text) :
    text ∈ texts ∧ q.world.text? type item b = some text := by
  obtain ⟨hwrites, hkeeps⟩ := hrace.text?_step hstep hm
  rw [written, List.filterMap_cons] at hhead
  split at hhead
  · rename_i hnone
    rw [hkeeps hnone]
    exact h.base text hhead
  · rename_i hsome
    cases hhead
    exact hwrites _ hsome

theorem Editing.wrote_step (hrace : Racing type item b id texts passes log p)
    (h : Editing type item b texts log p) (hstep : Step p m q) :
    ∀ t ∈ q.tasks, ∀ other text follows actor reply,
      (⟨.content type (.write other text follows actor), reply⟩ : Heard) ∈ t.past →
        written (⟨m, p.world, q.world⟩ :: log) ≠ [] := by
  refine hstep.forall_tasks h.wrote ?_ ?_ ?_
  · intro t _ ht other text follows actor reply hheard
    exact written_cons_ne_nil (ht other text follows actor reply hheard)
  · intro job _ other text follows actor reply hheard
    cases hheard
  · intro job past c next hcall _ _ ht other text follows actor reply hheard
    rcases List.mem_cons.mp hheard with heq | hheard
    · have hc : c = .content type (.write other text follows actor) :=
        (congrArg Answered.question heq).symm
      subst hcall hc
      obtain ⟨_, _, _, rfl, _⟩ := hrace.write_call hstep
      simp [written, Move.written?]
    · exact written_cons_ne_nil (ht other text follows actor reply hheard)

theorem Editing.step (htexts : ∀ text ∈ texts, text.isEmpty = false)
    (hrace : Racing type item b id texts passes log p) (h : Editing type item b texts log p)
    (hstep : Step p m q) (hm : m.Internal) :
    Editing type item b texts (⟨m, p.world, q.world⟩ :: log) q := by
  have hbase := Editing.base_step hrace h hstep hm
  have hwrote := Editing.wrote_step hrace h hstep
  refine ⟨hbase, hwrote, ?_, ?_⟩
  · intro text hmem
    rw [published, List.filterMap_cons] at hmem
    split at hmem
    · obtain ⟨htext, hwritten⟩ := h.announced text hmem
      exact ⟨htext, written_cons_ne_nil hwritten⟩
    · rename_i text' hpublished
      cases hstep with
      | finish before after job past f htasks =>
          have hmem' : (⟨job, past, .done f⟩ : Task) ∈ p.tasks := by
            rw [htasks]
            exact List.mem_append_cons_self
          cases hrace.jobs _ hmem' with
          | edit actor htext =>
              obtain ⟨⟨other, hwrite⟩, _⟩ := hrace.edit_ends htexts hmem' rfl rfl
              have hwritten := h.wrote _ hmem' _ _ _ _ _ hwrite
              refine ⟨?_, written_cons_ne_nil hwritten⟩
              cases hpublished
              rcases List.mem_cons.mp hmem with rfl | hmem
              · exact htext
              · exact (h.announced text hmem).1
          | handle => cases hpublished
          | pass => cases hpublished
      | start => cases hpublished
      | call => cases hpublished
      | take => cases hpublished
      | change => cases hpublished
  · intro hnone
    rw [published, List.filterMap_cons] at hnone
    split at hnone
    · rename_i hquiet
      obtain ⟨t, ht, text, actor, hjob⟩ := h.pending hnone
      have hends : m ≠ .finish t.job := by
        rintro rfl
        rw [hjob] at hquiet
        cases hquiet
      obtain ⟨t', ht', hjob'⟩ := hstep.stays ht hends
      exact ⟨t', ht', text, actor, hjob'.trans hjob⟩
    · cases hnone

end Pool

end

end Polyglot
