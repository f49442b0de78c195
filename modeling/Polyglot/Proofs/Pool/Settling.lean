import Polyglot.Proofs.Pool.Race

namespace Polyglot

def World.record? (w : World) (type : String) (id : RecordId) : Option Record :=
  (w.store? type).bind (·.record? id)

namespace World

variable {w : World} {type : String} {s : Store} {r : Record}

theorem record?_eq (hs : w.store? type = some s) (hsound : s.Sound) (hr : r ∈ s.records) :
    w.record? type r.id = some r := by
  rw [record?, hs]
  exact hsound.record?_eq hr

theorem mem_of_record? (hs : w.store? type = some s) {id : RecordId}
    (h : w.record? type id = some r) : r ∈ s.records := by
  rw [record?, hs] at h
  exact List.mem_of_find?_eq_some h

theorem holds_of_record? {id : RecordId} (h : w.record? type id = some r) : w.Holds type r := by
  obtain ⟨s, hs, hr⟩ := Option.bind_eq_some_iff.mp h
  exact ⟨s, hs, List.mem_of_find?_eq_some hr⟩

end World

def World.Agrees (w : World) (type : String) (item : ItemId) (b : LanguageId) : Prop :=
  ∀ r, w.Holds type r → r.item = item → r.IsCopy b → w.text? type item b = some r.text

theorem World.not_agrees {w : World} {type : String} {item : ItemId} {b : LanguageId}
    {id : RecordId} {text : Text} {r : Record} (hbase : w.text? type item b = some text)
    (hr : w.record? type id = some r) (hitem : r.item = item) (hcopy : r.IsCopy b)
    (hne : r.text ≠ text) : ¬ w.Agrees type item b := by
  intro hagrees
  have htext := hagrees r (World.holds_of_record? hr) hitem hcopy
  rw [hbase] at htext
  exact hne (Option.some.inj htext).symm

namespace Pool

/-- The last move that changed the record with this id. -/
def lastWriter (type : String) (id : RecordId) (log : List Entry) : Option Move :=
  (log.find? fun e => e.before.record? type id ≠ e.after.record? type id).map (·.move)

/-- The record has this text, or a pass was the last to write it. -/
def Carries (passes : List Actor) (type : String) (log : List Entry) (text : Text)
    (r : Record) : Prop :=
  r.text = text ∨ ∃ actor ∈ passes, ∃ c,
    lastWriter type r.id log = some (.call (.reconcile type actor) c)

section

variable {type : String} {item : ItemId} {b : LanguageId} {id : RecordId} {texts : List Text}
  {passes : List Actor} {p q : Pool} {m : Move} {log : List Entry} {e : Entry} {s t : Store}
  {r : Record}

theorem lastWriter_cons_of_eq
    (h : e.before.record? type id = e.after.record? type id) :
    lastWriter type id (e :: log) = lastWriter type id log := by
  simp [lastWriter, h]

theorem lastWriter_cons_of_ne
    (h : e.before.record? type id ≠ e.after.record? type id) :
    lastWriter type id (e :: log) = some e.move := by
  simp [lastWriter, h]

theorem Racing.copy_of_edit (h : Racing type item b id texts passes log p) {text : Text}
    {actor : Actor} {c : Call} (hstep : Step p (.call (.edit type item b text actor) c) q)
    (hs : p.world.store? type = some s) (hr : r ∈ (c.at p.world.directory type s).records)
    (hcopy : r.IsCopy b) : r ∈ s.records := by
  obtain ⟨s', hs', _, _, rb, hrb, _, hlanguage, hid⟩ := h.ready.store
  cases hs.symm.trans hs'
  obtain ⟨past, hgrounds, _⟩ := h.sound.grounds hstep
  rcases c.becomes_at p.world.directory type s with heq | ⟨query, rfl, hbecomes⟩
  · exact heq ▸ hr
  · generalize (Call.content type query).at p.world.directory type s = t at hr hbecomes
    cases hbecomes with
    | same => exact hr
    | inserted =>
        cases hgrounds with
        | look hlooks => cases hlooks
        | filled hpass => cases hpass
    | overwritten r₀ =>
        generalize r₀.id = id' at hgrounds
        cases hgrounds with
        | look hlooks => cases hlooks
        | refreshed hpass => cases hpass
    | written r₀ text follows actor hr₀ =>
        obtain ⟨_, hid₀, _⟩ := h.write_call hstep
        rcases Store.mem_put.mp hr with ⟨hr, _⟩ | ⟨r₁, hr₁, hid₁, rfl⟩
        · exact hr
        · -- The record that an edit rewrites is the base record, and this is no copy.
          have hsound := h.sound.world.stores type s hs
          have heq := hsound.eq_of_id hr₁ hrb (hid₁.trans (hid₀.trans hid.symm))
          rw [heq] at hcopy
          exact absurd hlanguage hcopy.2

/-- A copy that is new after a step comes of a pass, or has the text of the event at hand. -/
theorem Racing.copies_step (h : Racing type item b id texts passes log p) (hstep : Step p m q)
    (hm : m.Internal) (hs : p.world.store? type = some s) (ht : q.world.store? type = some t)
    (hr : r ∈ t.records) (hcopy : r.IsCopy b) :
    r ∈ s.records ∨ (∃ actor ∈ passes, ∃ c, m = .call (.reconcile type actor) c) ∨
      ∃ event c, m = .call (.handle event) c ∧ r.text = event.text := by
  have hstore := hstep.store? type
  rw [hs, ht] at hstore
  cases Option.some.inj hstore
  cases m with
  | start job => exact Or.inl hr
  | finish job => exact Or.inl hr
  | take event => exact Or.inl hr
  | change c => exact False.elim hm
  | call job c =>
      obtain ⟨past, next, hmem⟩ := hstep.caller
      have hgrounds : job.Grounds past c := (h.sound.grounded _ hmem).1
      have hcontends : job.Contends type item b texts passes := h.jobs _ hmem
      cases hcontends with
      | pass hactor => exact Or.inr (Or.inl ⟨_, hactor, c, rfl⟩)
      | handle actor htext =>
          rcases text_of_handler hgrounds hr with hr | htext
          · exact Or.inl hr
          · exact Or.inr (Or.inr ⟨_, c, rfl, htext⟩)
      | edit actor htext => exact Or.inl (h.copy_of_edit hstep hs hr hcopy)

/-- A step leaves a copy carrying the text, or as it was. -/
theorem Racing.carries_step (h : Racing type item b id texts passes log p) (hstep : Step p m q)
    (hm : m.Internal) (hs : p.world.store? type = some s) (ht : q.world.store? type = some t)
    (hr : r ∈ t.records) (hcopy : r.IsCopy b) {text : Text}
    (htext : ∀ event c, m = .call (.handle event) c → event.text = text) :
    Carries passes type (⟨m, p.world, q.world⟩ :: log) text r ∨
      (r ∈ s.records ∧ (Carries passes type log text r →
        Carries passes type (⟨m, p.world, q.world⟩ :: log) text r)) := by
  have hafter := World.record?_eq ht ((h.sound.step hstep hm.keepsBase).world.stores type t ht) hr
  by_cases hmem : r ∈ s.records
  · right
    refine ⟨hmem, ?_⟩
    have hbefore := World.record?_eq hs (h.sound.world.stores type s hs) hmem
    rw [Carries, Carries, lastWriter_cons_of_eq (hbefore.trans hafter.symm)]
    exact fun hcarries => hcarries
  · left
    rcases h.copies_step hstep hm hs ht hr hcopy with
      hold | ⟨actor, hactor, c, rfl⟩ | ⟨event, c, rfl, heq⟩
    · exact absurd hold hmem
    · refine Or.inr ⟨actor, hactor, c, lastWriter_cons_of_ne fun heq => hmem ?_⟩
      exact World.mem_of_record? hs (heq.trans hafter)
    · exact Or.inl (heq.trans (htext event c rfl))

/-- The handler at work spreads the text of the last event that was taken. When there is no handler
at work, the copies carry that text. -/
structure Settling (type : String) (item : ItemId) (b : LanguageId) (passes : List Actor)
    (log : List Entry) (p : Pool) : Prop where
  sweeping : ∀ t ∈ p.tasks, ∀ event, t.job = .handle event →
    (taken log).head? = some event.text ∧ ∀ s, p.world.store? type = some s →
      Sweeping event (Carries passes type log event.text) t.past s
  settled : (∀ t ∈ p.tasks, t.job.isHandler = false) →
    ∀ text, (taken log).head? = some text → ∀ s, p.world.store? type = some s →
      ∀ r ∈ s.records, r.item = item → r.IsCopy b → Carries passes type log text r

theorem taken_cons_of_none (h : e.move.taken? = none) : taken (e :: log) = taken log := by
  rw [taken, List.filterMap_cons, h]
  rfl

theorem Settling.text_of_call (h : Settling type item b passes log p) (hstep : Step p m q)
    {text : Text} (hhead : (taken log).head? = some text) :
    ∀ event c, m = .call (.handle event) c → event.text = text := by
  rintro event c rfl
  obtain ⟨past, next, hmem⟩ := hstep.caller
  have htaken := (h.sweeping _ hmem event rfl).1
  exact Option.some.inj (htaken.symm.trans hhead)

theorem Settling.sweeping_step (hrace : Racing type item b id texts passes log p)
    (h : Settling type item b passes log p) (hstep : Step p m q) (hm : m.Internal)
    (htaken : m.taken? = none) :
    ∀ t ∈ q.tasks, ∀ event, t.job = .handle event →
      (taken (⟨m, p.world, q.world⟩ :: log)).head? = some event.text ∧
        ∀ s, q.world.store? type = some s →
          Sweeping event (Carries passes type (⟨m, p.world, q.world⟩ :: log) event.text)
            t.past s := by
  have hlog : taken (⟨m, p.world, q.world⟩ :: log) = taken log := taken_cons_of_none htaken
  have hmono {event : Event} {past : List Heard} {s t : Store}
      (hhead : (taken log).head? = some event.text)
      (hcontends : (Job.handle event).Contends type item b texts passes)
      (hs : p.world.store? type = some s) (ht : q.world.store? type = some t)
      (hsweeping : Sweeping event (Carries passes type log event.text) past s) :
      Sweeping event (Carries passes type (⟨m, p.world, q.world⟩ :: log) event.text) past t := by
    refine hsweeping.mono fun r hr _ hcopy => ?_
    cases hcontends
    exact hrace.carries_step hstep hm hs ht hr hcopy (h.text_of_call hstep hhead)
  obtain ⟨s, hs, hfaults, _⟩ := hrace.ready.store
  have hq : q.world.store? type = some (m.at p.world.directory type s) := by
    rw [hstep.store? type, hs]
    rfl
  rw [hlog]
  -- The step moves the store under every handler; the one that called hears its reply as well.
  refine hstep.forall_tasks h.sweeping ?_ ?_ ?_
  · intro t hmem ht event hjob
    obtain ⟨hhead, hsweeping⟩ := ht event hjob
    refine ⟨hhead, fun t' ht' => ?_⟩
    exact hmono hhead (hjob ▸ hrace.jobs t hmem) hs ht' (hsweeping s hs)
  · rintro job (rfl | ⟨event, rfl, rfl⟩)
    · exact False.elim hm
    · cases htaken
  · rintro job past c next rfl _ hmem ht event rfl
    obtain ⟨hhead, hsweeping⟩ := ht event rfl
    refine ⟨hhead, fun t' ht' => ?_⟩
    cases hq.symm.trans ht'
    have hcontends := hrace.jobs _ hmem
    have hmoved := hmono hhead hcontends hs hq (hsweeping s hs)
    cases hcontends with
    | handle actor htext =>
        exact hmoved.answer hs (hrace.sound.world.stores type s hs) hfaults fun _ => Or.inl

theorem Settling.settled_of_finish (hrace : Racing type item b id texts passes log p)
    (h : Settling type item b passes log p) {before after : List Task} {job : Job}
    {past : List Heard} {f : Engine → Engine}
    (htasks : p.tasks = before ++ ⟨job, past, .done f⟩ :: after)
    (hnone : ∀ t ∈ before ++ after, t.job.isHandler = false) {text : Text}
    (hhead : (taken log).head? = some text) (hs : p.world.store? type = some s)
    (hr : r ∈ s.records) (hitem : r.item = item) (hcopy : r.IsCopy b) :
    Carries passes type log text r := by
  have hmem : (⟨job, past, .done f⟩ : Task) ∈ p.tasks := by
    rw [htasks]
    exact List.mem_append_cons_self
  by_cases hhandler : job.isHandler = true
  · have hends : job.Ends past f := hrace.sound.grounded _ hmem
    have hunhindered := hrace.unhindered _ hmem
    cases hrace.jobs _ hmem with
    | edit => cases hhandler
    | pass => cases hhandler
    | handle actor htext =>
        obtain ⟨hold, hswept⟩ := h.sweeping _ hmem _ rfl
        cases hold.symm.trans hhead
        rcases hends.1 with hcovered | hhindered
        · exact (hswept s hs).good_of_covered hcovered (fun _ => Or.inl) hr hitem hcopy
        · exact absurd hhindered hunhindered.clear.not_hindered
  · refine h.settled (fun t ht => ?_) text hhead s hs r hr hitem hcopy
    rw [htasks] at ht
    rcases List.mem_append.mp ht with ht | ht
    · exact hnone t (List.mem_append_left _ ht)
    · rcases List.mem_cons.mp ht with rfl | ht
      · exact eq_false_of_ne_true hhandler
      · exact hnone t (List.mem_append_right _ ht)

theorem Settling.step (hrace : Racing type item b id texts passes log p)
    (h : Settling type item b passes log p) (hstep : Step p m q) (hm : m.Internal) :
    Settling type item b passes (⟨m, p.world, q.world⟩ :: log) q := by
  have hsweeping := h.sweeping_step hrace hstep hm
  obtain ⟨s, hs, _⟩ := hrace.ready.store
  cases hstep with
  | start job => exact False.elim hm
  | change c => exact False.elim hm
  | take event channel hidle hreceive =>
      constructor
      · intro t ht event' hjob
        rcases List.mem_append.mp ht with ht | ht
        · have hother := hidle t ht
          rw [hjob] at hother
          cases hother
        · rw [List.mem_singleton.mp ht] at hjob ⊢
          cases hjob
          exact ⟨rfl, fun s _ => .nil event _ s⟩
      · intro hnone
        cases hnone _ (List.mem_append_right _ List.mem_cons_self)
  | call before after job past c next htasks =>
      refine ⟨hsweeping rfl, ?_⟩
      intro hnone text hhead t ht r hr hitem hcopy
      have hstep : Step p (.call job c) _ := .call p before after job past c next htasks
      have hidle : ∀ t ∈ p.tasks, t.job.isHandler = false := by
        intro t hmem
        obtain ⟨t', ht', hjob⟩ := hstep.stays hmem nofun
        exact hjob ▸ hnone t' ht'
      have hsettled := h.settled hidle text hhead s hs r
      rcases hrace.carries_step hstep hm hs ht hr hcopy (h.text_of_call hstep hhead) with
        hcarries | ⟨hr, hkeeps⟩
      · exact hcarries
      · exact hkeeps (hsettled hr hitem hcopy)
  | finish before after job past f htasks =>
      refine ⟨hsweeping rfl, ?_⟩
      intro hnone text hhead t ht r hr hitem hcopy
      cases hs.symm.trans ht
      rw [Carries, lastWriter_cons_of_eq rfl]
      exact h.settled_of_finish hrace htasks hnone hhead hs hr hitem hcopy

theorem Settling.carries_last (hrace : Racing type item b id texts passes log p)
    (h : Settling type item b passes log p) (htasks : p.tasks = [])
    (hqueue : p.engine.channel.queue = []) {text : Text}
    (hhead : (published log).head? = some text) (hr : p.world.Holds type r) (hitem : r.item = item)
    (hcopy : r.IsCopy b) : Carries passes type log text r := by
  obtain ⟨s, hs, hr⟩ := hr
  have horder : published log = taken log := by
    have horder := hrace.order
    rwa [hqueue] at horder
  refine h.settled (fun t ht => ?_) text (horder ▸ hhead) s hs r hr hitem hcopy
  rw [htasks] at ht
  cases ht

structure Race (type : String) (item : ItemId) (b : LanguageId) (id : RecordId)
    (texts : List Text) (passes : List Actor) (log : List Entry) (p : Pool) : Prop where
  racing : Racing type item b id texts passes log p
  editing : Editing type item b texts log p
  settling : Settling type item b passes log p

theorem Race.start {w : World} {e : Engine} {jobs : List Job} (hw : w.Sound b)
    (hready : w.Ready type item b id) (haccepting : e.accepting = true)
    (hreceiving : e.channel.receiving = true) (hqueue : e.channel.queue = [])
    (hjobs : ∀ job ∈ jobs, job.Contends type item b texts passes)
    (hidle : ∀ job ∈ jobs, job.isHandler = false)
    (hedit : ∃ text actor, Job.edit type item b text actor ∈ jobs) :
    Race type item b id texts passes [] ⟨w, e, jobs.map Job.task⟩ := by
  have htasks {t : Task} (ht : t ∈ jobs.map Job.task) : ∃ job ∈ jobs, t = job.task := by
    obtain ⟨job, hjob, rfl⟩ := List.mem_map.mp ht
    exact ⟨job, hjob, rfl⟩
  refine ⟨⟨⟨hw, ?_, ?_⟩, hready, ?_, ?_, haccepting, hreceiving, ?_, ?_⟩, ⟨nofun, ?_, nofun, ?_⟩,
    ⟨?_, nofun⟩⟩
  · intro t ht
    obtain ⟨job, _, rfl⟩ := htasks ht
    exact job.task_grounded
  · intro t ht
    obtain ⟨job, _, rfl⟩ := htasks ht
    exact .nil b w
  · intro t ht
    obtain ⟨job, hjob, rfl⟩ := htasks ht
    exact hjobs job hjob
  · intro t ht
    obtain ⟨job, _, rfl⟩ := htasks ht
    exact .nil
  · rw [hqueue]
    exact nofun
  · rw [hqueue]
    rfl
  · intro t ht _ _ _ _ _ hheard
    obtain ⟨job, _, rfl⟩ := htasks ht
    cases hheard
  · intro _
    obtain ⟨text, actor, hmem⟩ := hedit
    exact ⟨_, List.mem_map_of_mem hmem, text, actor, rfl⟩
  · intro t ht event heq
    obtain ⟨job, hjob, rfl⟩ := htasks ht
    have hother := hidle job hjob
    rw [show job = .handle event from heq] at hother
    cases hother

theorem Race.run (htexts : ∀ text ∈ texts, text.isEmpty = false)
    (h : Race type item b id texts passes [] p) (hrun : Run Move.Internal p log q) :
    Race type item b id texts passes log q := by
  induction hrun with
  | refl => exact h
  | step hrun hm hstep ih =>
      exact ⟨ih.racing.step htexts hstep hm, ih.editing.step htexts ih.racing hstep hm,
        ih.settling.step ih.racing hstep hm⟩

/-- At the end the base record has the text that was written last, and the copies carry the text
that was published last. -/
theorem Race.ended (h : Race type item b id texts passes log p) (htasks : p.tasks = [])
    (hqueue : p.engine.channel.queue = []) :
    ∃ wrote ∈ texts, ∃ last ∈ texts, (written log).head? = some wrote ∧
      (published log).head? = some last ∧ p.world.text? type item b = some wrote ∧
      ∀ r, p.world.Holds type r → r.item = item → r.IsCopy b → Carries passes type log last r := by
  cases hpublished : published log with
  | nil =>
      obtain ⟨t, ht, _⟩ := h.editing.pending hpublished
      rw [htasks] at ht
      cases ht
  | cons last earlier =>
      have hhead : (published log).head? = some last := by rw [hpublished]; rfl
      obtain ⟨hlast, hwritten⟩ := h.editing.announced last (hpublished ▸ List.mem_cons_self)
      obtain ⟨wrote, hwrote⟩ :=
        Option.ne_none_iff_exists'.mp (mt List.head?_eq_none_iff.mp hwritten)
      obtain ⟨hmem, htext⟩ := h.editing.base wrote hwrote
      refine ⟨wrote, hmem, last, hlast, hwrote, rfl, htext, ?_⟩
      intro r hr hitem hcopy
      exact h.settling.carries_last h.racing htasks hqueue hhead hr hitem hcopy

def ended (r : List Entry × Pool) : Bool :=
  r.1.all (·.move.Internal) && r.2.tasks.isEmpty && r.2.engine.channel.queue.isEmpty

theorem run_of_ended (p : Pool) (schedule : List Turn) (h : ended (p.play schedule) = true) :
    Run Move.Internal p (p.play schedule).1 (p.play schedule).2 ∧
      (p.play schedule).2.tasks = [] ∧ (p.play schedule).2.engine.channel.queue = [] := by
  simp only [ended, Bool.and_eq_true, List.isEmpty_iff] at h
  obtain ⟨⟨hall, htasks⟩, hqueue⟩ := h
  refine ⟨run_play fun e he => ?_, htasks, hqueue⟩
  exact of_decide_eq_true (List.all_eq_true.mp hall e he)

end

end Pool

namespace Bilingual

def page : Store :=
  { name := "page"
    items := SortedMap.empty.insert 7 true
    records :=
      [⟨1, 7, 1, title "Hello", false, "ann", "ann", 0, 0⟩,
        ⟨2, 7, 2, title "Hello", true, "ann", "ann", 0, 0⟩]
    nextId := 3
    clock := 1
    faults := .none }

def site : World := ⟨directory, [page]⟩

def engine : Engine := .start ⟨[("page", 5)]⟩ "sync"

theorem sound_page : page.Sound where
  first := by decide
  ids := by decide
  ids_nodup := by decide
  keys_nodup := by decide
  items := by decide

theorem sound_site : site.Sound 1 where
  stores type s hs := by
    rw [List.mem_singleton.mp (List.mem_of_find?_eq_some hs)]
    exact sound_page
  base := by decide

theorem ready_site : site.Ready "page" 7 1 1 where
  base := ⟨_, rfl, rfl⟩
  store := ⟨page, rfl, rfl, rfl, _, List.mem_cons_self, rfl, rfl, rfl⟩

end Bilingual

end Polyglot
