import Polyglot.Proofs.Pool.Settling

namespace Polyglot

def Listed (type : String) (past : List Heard) : Prop :=
  ∀ items, (⟨.content type .items, .ok items⟩ : Heard) ∈ past → items.Nodup

def Unread (type : String) (item : ItemId) (past : List Heard) : Prop :=
  ∀ reply, (⟨.content type (.records item), reply⟩ : Heard) ∉ past

def ReadsOnce (type : String) (past : List Heard) (c : Call) : Prop :=
  ∀ item, c = .content type (.records item) → Listed type past → Unread type item past

namespace Reconciliation

section

variable {type : String} {past : List Heard} {base : LanguageId} {active : List LanguageId}
  {actor : Actor}

theorem reconcileItem_reads (type : String) (past : List Heard) (base : LanguageId)
    (active : List LanguageId) (actor : Actor) (item : ItemId) :
    (Flow.on type (reconcileItem base active actor item).run).Grounded
      (fun later c => (c = .content type (.records item) ∧ later = past) ∨ c.looks = false)
      (fun _ _ => True) past := by
  refine .demand (Or.inl ⟨rfl, rfl⟩) (fun _ => trivial) fun rs => ?_
  split
  · trivial
  · refine .lift (Copies.overwriteAll_grounded fun _ _ _ _ => Or.inr rfl) fun _ _ _ _ => ?_
    refine Program.Grounded.attempt (m := fun _ _ => True) ?_ (fun _ _ _ _ => trivial)
      (fun _ _ _ _ => trivial)
    exact Copies.fillGaps_grounded fun _ _ => Or.inr rfl

theorem reconcileItems_once (items : List ItemId) (pass : Pass)
    (hfresh : Listed type past → items.Nodup ∧ ∀ item ∈ items, Unread type item past) :
    (Flow.on type (reconcileItems base active actor items pass)).Grounded (ReadsOnce type)
      (fun _ _ => True) past := by
  induction items generalizing past pass with
  | nil => trivial
  | cons item rest ih =>
      rw [reconcileItems, Flow.on_bind]
      have hitem := (reconcileItem_reads type past base active actor item).heard
      refine (hitem.weaken ?_ fun _ _ h => h).bind ?_
      · rintro later c (⟨rfl, rfl⟩ | hwrites) other hother hlisted
        · cases hother
          exact (hfresh hlisted).2 item List.mem_cons_self
        · rw [hother] at hwrites
          cases hwrites
      · rintro later outcome hsuffix ⟨_, hheard⟩
        refine ih _ fun hlisted => ?_
        obtain ⟨hnodup, hunread⟩ := hfresh fun is his => hlisted is (hsuffix.subset his)
        obtain ⟨hitem, hrest⟩ := List.nodup_cons.mp hnodup
        refine ⟨hrest, fun other hother reply hread => ?_⟩
        rcases hheard _ hread with hold | ⟨older, ⟨heq, _⟩ | hwrites⟩
        · exact hunread other (List.mem_cons_of_mem _ hother) reply hold
        · cases heq
          exact hitem hother
        · cases hwrites

theorem run_once : (Flow.on type (run type actor)).Grounded (ReadsOnce type)
    (fun _ _ => True) [] := by
  rw [run, Flow.on_bind]
  have hsurvey : (Flow.on type survey.run).Grounded (ReadsOnce type)
      (fun later result => ∀ base active items, result = .ok (base, active, items) →
        Listed type later → items.Nodup ∧ ∀ item ∈ items, Unread type item later) [] := by
    have hlooks {past : List Heard} (l : Lookup) :
        ReadsOnce type past (.content type (.language l)) := by
      intro item heq
      cases heq
    have hitems {past : List Heard} : ReadsOnce type past (.content type .items) := by
      intro item heq
      cases heq
    have herror {past : List Heard} (e : Error) (base : LanguageId) (active : List LanguageId)
        (items : List ItemId)
        (h : (Except.error e : Except Error _) = .ok (base, active, items)) :
        Listed type past → items.Nodup ∧ ∀ item ∈ items, Unread type item past := by
      cases h
    refine .demand (hlooks .base) (fun e => herror e) fun base? => ?_
    cases base? with
    | none => exact herror _
    | some base =>
        refine .demand (hlooks .active) (fun e => herror e) fun active => ?_
        refine .demand hitems (fun e => herror e) fun items => ?_
        intro _ _ _ heq hlisted
        cases heq
        refine ⟨hlisted items List.mem_cons_self, fun item _ reply hread => ?_⟩
        simp at hread
  refine hsurvey.bind ?_
  rintro later (e | ⟨base, active, items⟩) _ hfresh
  · trivial
  · exact reconcileItems_once items _ (hfresh base active items rfl)

end

end Reconciliation

section

variable {type : String} {item : ItemId} {b : LanguageId} {actor : Actor} {past : List Heard}
  {w : World} {s : Store}

theorem Listed.nil (type : String) : Listed type [] := nofun

theorem Listed.answer (h : Listed type past) (c : Call) :
    Listed type (⟨c, (World.answer c w).1⟩ :: past) := by
  intro items hitems
  rcases List.mem_cons.mp hitems with heq | hitems
  · obtain ⟨s, _, hreply⟩ := World.store?_of_reply (World.told heq)
    simp only [Store.answer, Store.list] at hreply
    split at hreply
    · cases hreply
    · cases hreply
      exact s.nodup_liveItems
  · exact h items hitems

/-- What a pass writes has the base text that was read with the records of the item. -/
theorem text_of_pass {c : Call} {d : Directory}
    (hgrounds : (Job.reconcile type actor).Grounds past c) (hi : Informed b w past)
    (hs : w.store? type = some s) {r : Record} (hr : r ∈ (c.at d type s).records) :
    r ∈ s.records ∨ ∃ rs rb, (⟨.content type (.records r.item), .ok rs⟩ : Heard) ∈ past ∧
      rs.find? (·.language = b) = some rb ∧ r.text = rb.text := by
  rcases c.becomes_at d type s with heq | ⟨q, rfl, hbecomes⟩
  · exact Or.inl (heq ▸ hr)
  · generalize (Call.content type q).at d type s = t at hr hbecomes
    cases hbecomes with
    | same => exact Or.inl hr
    | inserted target drafts actor' =>
        rcases List.mem_append.mp hr with hr | hr
        · exact Or.inl hr
        · right
          obtain ⟨draft, hdraft, n, _, rfl⟩ := Store.mem_enrol hr
          cases hgrounds with
          | look hlooks => cases hlooks
          | filled hpass hread =>
              obtain ⟨language, _, rfl⟩ := List.mem_map.mp hdraft
              have hfound := hread.found
              rw [hi.base hread] at hfound
              exact ⟨_, _, hread.read, hfound, rfl⟩
    | overwritten r₀ text actor' hr₀ =>
        rcases Store.mem_put.mp hr with ⟨hr, _⟩ | ⟨r₁, hr₁, hid, rfl⟩
        · exact Or.inl hr
        · right
          generalize r₀.id = id at hgrounds hid
          cases hgrounds with
          | look hlooks => cases hlooks
          | refreshed hpass hread hmem =>
              cases hpass
              obtain ⟨hitem, _⟩ := hi.place hread.read hs (Copies.mem_among.mp hmem).1 hr₁ hid
              have hfound := hread.found
              rw [hi.base hread] at hfound
              exact ⟨_, _, hitem ▸ hread.read, hfound, rfl⟩
    | written r₀ text follows actor' hr₀ =>
        generalize r₀.id = id at hgrounds
        cases hgrounds with
        | look hlooks => cases hlooks

end

namespace Pool

/-- The base text that the pass found when it read the records of the item. -/
def readBase (type : String) (item : ItemId) (b : LanguageId) (actor : Actor)
    (log : List Entry) : Option Text :=
  (log.find? (·.move = .call (.reconcile type actor) (.content type (.records item)))).bind
    (·.before.text? type item b)

/-- What holds of the only pass throughout a race. -/
structure Passing (type : String) (item : ItemId) (b : LanguageId) (actor : Actor)
    (log : List Entry) (p : Pool) : Prop where
  distinct : (p.tasks.map (·.job)).Nodup
  once : ∀ t ∈ p.tasks, t.job = .reconcile type actor →
    Listed type t.past ∧ t.rest.Grounded (ReadsOnce type) (fun _ _ => True) t.past
  found : ∀ t ∈ p.tasks, t.job = .reconcile type actor →
    (Unread type item t.past → readBase type item b actor log = none) ∧
      ∀ rs rb, (⟨.content type (.records item), .ok rs⟩ : Heard) ∈ t.past →
        rs.find? (·.language = b) = some rb → readBase type item b actor log = some rb.text
  wrote : ∀ r c, p.world.Holds type r → r.item = item → r.IsCopy b →
    lastWriter type r.id log = some (.call (.reconcile type actor) c) →
      readBase type item b actor log = some r.text

section

variable {type : String} {item : ItemId} {b : LanguageId} {id : RecordId} {texts : List Text}
  {actor : Actor} {p q : Pool} {m : Move} {log : List Entry} {e : Entry}

theorem readBase_cons_of_ne
    (h : e.move ≠ .call (.reconcile type actor) (.content type (.records item))) :
    readBase type item b actor (e :: log) = readBase type item b actor log := by
  simp [readBase, h]

theorem readBase_cons_of_eq
    (h : e.move = .call (.reconcile type actor) (.content type (.records item))) :
    readBase type item b actor (e :: log) = e.before.text? type item b := by
  simp [readBase, h]

theorem Step.distinct (hstep : Step p m q) (hm : m.Internal)
    (h : (p.tasks.map (·.job)).Nodup) : (q.tasks.map (·.job)).Nodup := by
  cases hstep with
  | start job => exact False.elim hm
  | change c => exact False.elim hm
  | call before after job past c next htasks =>
      rw [htasks] at h
      simpa using h
  | finish before after job past f htasks =>
      rw [htasks] at h
      exact h.sublist (((List.sublist_cons_self _ after).append_left before).map _)
  | take event channel hidle hreceive =>
      rw [List.map_append]
      refine h.append (List.nodup_singleton _) fun job hmem hjob => ?_
      obtain ⟨t, ht, rfl⟩ := List.mem_map.mp hmem
      have hother := hidle t ht
      rw [List.mem_singleton.mp hjob] at hother
      cases hother

theorem Passing.once_step (h : Passing type item b actor log p) (hstep : Step p m q)
    (hm : m.Internal) : ∀ t ∈ q.tasks, t.job = .reconcile type actor →
      Listed type t.past ∧ t.rest.Grounded (ReadsOnce type) (fun _ _ => True) t.past := by
  refine hstep.forall_tasks h.once (fun _ _ ht => ht) ?_ ?_
  · rintro job (rfl | ⟨event, _, rfl⟩) hjob
    · exact False.elim hm
    · cases hjob
  · intro job past c next _ _ _ ht hjob
    obtain ⟨hlisted, hgrounded⟩ := ht hjob
    exact ⟨hlisted.answer c, hgrounded.2 _⟩

/-- The pass has not read the item before it asks for its records. -/
theorem Passing.unread (h : Passing type item b actor log p)
    (hstep : Step p (.call (.reconcile type actor) (.content type (.records item))) q) :
    readBase type item b actor log = none := by
  obtain ⟨past, next, hmem⟩ := hstep.caller
  obtain ⟨hlisted, hgrounded⟩ := h.once _ hmem rfl
  exact (h.found _ hmem rfl).1 (hgrounded.1 item rfl hlisted)

theorem job_ne_of_distinct {before after : List Task} {t t' : Task}
    (h : ((before ++ t :: after).map (·.job)).Nodup) (ht' : t' ∈ before ++ after) :
    t'.job ≠ t.job := by
  rw [List.map_append, List.map_cons, List.nodup_middle, List.nodup_cons, ← List.map_append] at h
  exact fun heq => h.1 (heq ▸ List.mem_map_of_mem ht')

theorem Passing.found_read (hrace : Racing type item b id texts [actor] log p)
    (h : Passing type item b actor log p)
    (hstep : Step p (.call (.reconcile type actor) (.content type (.records item))) q) :
    ∀ t ∈ q.tasks, t.job = .reconcile type actor → ¬ Unread type item t.past ∧
      ∀ rs rb, (⟨.content type (.records item), .ok rs⟩ : Heard) ∈ t.past →
        rs.find? (·.language = b) = some rb → p.world.text? type item b = some rb.text := by
  obtain ⟨s, hs, _, _, rb, hrb, rfl, rfl, rfl⟩ := hrace.ready.store
  have htext := hrace.sound.text?_eq ⟨s, hs, hrb⟩
  have hfind := (hrace.sound.world.stores type s hs).find?_recordsOf hrb
  have hdistinct := h.distinct
  cases hstep with
  | call before after _ past _ next htasks =>
      have hmem : (⟨.reconcile type actor, past, .ask (.content type (.records rb.item)) next⟩ :
          Task) ∈ p.tasks := by
        rw [htasks]
        exact List.mem_append_cons_self
      obtain ⟨hlisted, hgrounded⟩ := h.once _ hmem rfl
      rw [htasks] at hdistinct
      intro t ht hjob
      rw [List.mem_append, List.mem_cons, or_left_comm, ← List.mem_append] at ht
      rcases ht with rfl | ht
      · refine ⟨fun hunread => hunread _ List.mem_cons_self, fun rs rb' hread hrb' => ?_⟩
        rcases List.mem_cons.mp hread with heq | hread
        · have hreply := World.told heq
          rw [World.reply_answer hs] at hreply
          rw [← Except.ok.inj hreply, hfind] at hrb'
          rw [htext, Option.some.inj hrb']
        · exact absurd hread (hgrounded.1 _ rfl hlisted _)
      · exact absurd hjob (job_ne_of_distinct hdistinct ht)

theorem Passing.found_step (hrace : Racing type item b id texts [actor] log p)
    (h : Passing type item b actor log p) (hstep : Step p m q) (hm : m.Internal) :
    ∀ t ∈ q.tasks, t.job = .reconcile type actor →
      (Unread type item t.past →
        readBase type item b actor (⟨m, p.world, q.world⟩ :: log) = none) ∧
      ∀ rs rb, (⟨.content type (.records item), .ok rs⟩ : Heard) ∈ t.past →
        rs.find? (·.language = b) = some rb →
          readBase type item b actor (⟨m, p.world, q.world⟩ :: log) = some rb.text := by
  by_cases hread : m = .call (.reconcile type actor) (.content type (.records item))
  · subst hread
    rw [readBase_cons_of_eq rfl]
    intro t ht hjob
    obtain ⟨hread, hfound⟩ := h.found_read hrace hstep t ht hjob
    exact ⟨fun hunread => absurd hunread hread, hfound⟩
  · rw [readBase_cons_of_ne hread]
    refine hstep.forall_tasks h.found (fun _ _ ht => ht) ?_ ?_
    · rintro job (rfl | ⟨event, _, rfl⟩) hjob
      · exact False.elim hm
      · cases hjob
    · rintro job past c next rfl _ _ ht rfl
      obtain ⟨hunread, hfound⟩ := ht rfl
      constructor
      · intro hnone
        exact hunread fun reply hmem => hnone reply (List.mem_cons_of_mem _ hmem)
      · intro rs rb hmem
        rcases List.mem_cons.mp hmem with heq | hmem
        · have hc : c = .content type (.records item) :=
            (congrArg Answered.question heq).symm
          exact absurd (hc ▸ rfl) hread
        · exact hfound rs rb hmem

/-- A copy that the pass wrote last has the base text that the pass found. -/
theorem Passing.wrote_step (hrace : Racing type item b id texts [actor] log p)
    (h : Passing type item b actor log p) (hstep : Step p m q) (hm : m.Internal) {r : Record}
    {c : Call} (hr : q.world.Holds type r) (hitem : r.item = item) (hcopy : r.IsCopy b)
    (hlast : lastWriter type r.id (⟨m, p.world, q.world⟩ :: log) =
      some (.call (.reconcile type actor) c)) :
    readBase type item b actor (⟨m, p.world, q.world⟩ :: log) = some r.text := by
  obtain ⟨t, ht, hr⟩ := hr
  obtain ⟨s, hs, _⟩ := hrace.ready.store
  have hafter := World.record?_eq ht
    ((hrace.sound.step hstep hm.keepsBase).world.stores type t ht) hr
  by_cases hold : r ∈ s.records
  · have hbefore := World.record?_eq hs (hrace.sound.world.stores type s hs) hold
    rw [lastWriter_cons_of_eq (hbefore.trans hafter.symm)] at hlast
    have hwrote := h.wrote r c ⟨s, hs, hold⟩ hitem hcopy hlast
    rw [readBase_cons_of_ne, hwrote]
    -- The pass reads the item before it writes there, so that it owns no copy when it reads.
    rintro rfl
    rw [h.unread hstep] at hwrote
    cases hwrote
  · rw [lastWriter_cons_of_ne fun heq => hold (World.mem_of_record? hs (heq.trans hafter))] at hlast
    cases Option.some.inj hlast
    obtain ⟨past, next, hmem⟩ := hstep.caller
    have hstore := hstep.store? type
    rw [hs, ht] at hstore
    cases Option.some.inj hstore
    rcases text_of_pass (hrace.sound.grounded _ hmem).1 (hrace.sound.informed _ hmem) hs hr with
      hr | ⟨rs, rb, hread, hfind, htext⟩
    · exact absurd hr hold
    · rw [hitem] at hread
      have hfound := (h.found _ hmem rfl).2 rs rb hread hfind
      rw [readBase_cons_of_ne, hfound, htext]
      intro heq
      cases heq
      rw [h.unread hstep] at hfound
      cases hfound

theorem Passing.step (hrace : Racing type item b id texts [actor] log p)
    (h : Passing type item b actor log p) (hstep : Step p m q) (hm : m.Internal) :
    Passing type item b actor (⟨m, p.world, q.world⟩ :: log) q where
  distinct := hstep.distinct hm h.distinct
  once := h.once_step hstep hm
  found := h.found_step hrace hstep hm
  wrote _ _ hr hitem hcopy hlast := h.wrote_step hrace hstep hm hr hitem hcopy hlast

theorem Passing.start {w : World} {engine : Engine} {text : Text} {editor : Actor} :
    Passing type item b actor []
      ⟨w, engine, [.reconcile type actor, .edit type item b text editor].map Job.task⟩ := by
  have htasks {t : Task} (ht : t ∈ [Job.reconcile type actor, .edit type item b text editor].map
      Job.task) (hjob : t.job = .reconcile type actor) : t = (Job.reconcile type actor).task := by
    obtain ⟨job, _, rfl⟩ := List.mem_map.mp ht
    rw [show job = .reconcile type actor from hjob]
  refine ⟨by simp [Job.task], ?_, ?_, ?_⟩
  · intro t ht hjob
    rw [htasks ht hjob]
    refine ⟨.nil type, ?_⟩
    exact Reconciliation.run_once.bind fun _ _ _ _ => trivial
  · intro t ht hjob
    rw [htasks ht hjob]
    refine ⟨fun _ => rfl, fun rs rb hread => ?_⟩
    cases hread
  · intro r c _ _ _ hlast
    cases hlast

theorem Passing.run (htexts : ∀ text ∈ texts, text.isEmpty = false)
    (hrace : Race type item b id texts [actor] [] p) (h : Passing type item b actor [] p)
    (hrun : Run Move.Internal p log q) : Passing type item b actor log q := by
  induction hrun with
  | refl => exact h
  | step hrun hm hstep ih => exact ih.step (hrace.run htexts hrun).racing hstep hm

/-- Once a pass and an edit have ended and the event is handled, the copies hold the base text if
and only if the pass wrote none of them last or had found the text of the edit. -/
theorem pass_and_edit_agree_iff {w : World} {engine : Engine} {text : Text} {editor : Actor}
    (hw : w.Sound b) (hready : w.Ready type item b id) (haccepting : engine.accepting = true)
    (hreceiving : engine.channel.receiving = true) (hqueue : engine.channel.queue = [])
    (htext : text.isEmpty = false)
    (hrun : Run Move.Internal
      ⟨w, engine, [(Job.reconcile type actor).task, (Job.edit type item b text editor).task]⟩ log p)
    (htasks : p.tasks = []) (hhandled : p.engine.channel.queue = []) :
    p.world.Agrees type item b ↔
      ((∃ r, p.world.Holds type r ∧ r.item = item ∧ r.IsCopy b ∧
          ∃ c, lastWriter type r.id log = some (.call (.reconcile type actor) c)) →
        readBase type item b actor log = some text) := by
  have htexts : ∀ text' ∈ [text], text'.isEmpty = false := by
    intro text' hmem
    rw [List.mem_singleton.mp hmem]
    exact htext
  have hstart : Race type item b id [text] [actor] []
      ⟨w, engine, [.reconcile type actor, .edit type item b text editor].map Job.task⟩ := by
    refine .start hw hready haccepting hreceiving hqueue ?_ ?_ ?_
    · intro job hmem
      rcases List.mem_cons.mp hmem with rfl | hmem
      · exact .pass List.mem_cons_self
      · rw [List.mem_singleton.mp hmem]
        exact .edit editor List.mem_cons_self
    · intro job hmem
      rcases List.mem_cons.mp hmem with rfl | hmem
      · rfl
      · rw [List.mem_singleton.mp hmem]
        rfl
    · exact ⟨text, editor, List.mem_cons_of_mem _ List.mem_cons_self⟩
  obtain ⟨wrote, hwrote, last, hlast, _, _, hbase, hcarries⟩ :=
    (hstart.run htexts hrun).ended htasks hhandled
  cases List.mem_singleton.mp hwrote
  cases List.mem_singleton.mp hlast
  have hpassed := Passing.start.run htexts hstart hrun
  constructor
  · rintro hagrees ⟨r, hr, hitem, hcopy, c, hwriter⟩
    rw [hpassed.wrote r c hr hitem hcopy hwriter, ← hagrees r hr hitem hcopy, hbase]
  · intro hfound r hr hitem hcopy
    rw [hbase]
    rcases hcarries r hr hitem hcopy with htext | ⟨actor', hactor, c, hwriter⟩
    · rw [htext]
    · rw [List.mem_singleton.mp hactor] at hwriter
      rw [← hfound ⟨r, hr, hitem, hcopy, c, hwriter⟩]
      exact hpassed.wrote r c hr hitem hcopy hwriter

end

end Pool

namespace Bilingual

/-- German was added when the page had its records already. -/
def threefold : World :=
  { site with
    directory :=
      ⟨[⟨1, "en", "English", true, false⟩, ⟨2, "fr", "French", true, false⟩,
        ⟨3, "de", "German", true, false⟩], "en"⟩ }

theorem sound_threefold : threefold.Sound 1 where
  stores := sound_site.stores
  base := by decide

theorem ready_threefold : threefold.Ready "page" 7 1 1 where
  base := ⟨_, rfl, rfl⟩
  store := ready_site.store

def passing : Pool :=
  ⟨threefold, engine,
    [(Job.reconcile "page" "sync").task, (Job.edit "page" 7 1 (title "Welcome") "ann").task]⟩

/-- The pass reads the page after the edit has written and before it publishes. -/
def writeFirst : List Turn :=
  List.replicate 4 (.task 1) ++ List.replicate 7 (.task 0) ++ .task 0 ::
    .take :: List.replicate 4 (.task 0)

/-- The edit and its event come between the reading of the page and the German copy. -/
def readFirst : List Turn :=
  List.replicate 4 (.task 0) ++ List.replicate 5 (.task 1) ++
    .take :: List.replicate 5 (.task 1) ++ [.task 0, .task 0]

end Bilingual

namespace Pool

open Bilingual in
theorem fresh_pass_agrees :
    Run Move.Internal passing (passing.play writeFirst).1 (passing.play writeFirst).2 ∧
      readBase "page" 7 1 "sync" (passing.play writeFirst).1 = some (title "Welcome") ∧
      (passing.play writeFirst).2.world.Agrees "page" 7 1 := by
  obtain ⟨hrun, htasks, hhandled⟩ := run_of_ended passing writeFirst (by cbv)
  have hfound : readBase "page" 7 1 "sync" (passing.play writeFirst).1 =
      some (title "Welcome") := by
    cbv
  exact ⟨hrun, hfound, (pass_and_edit_agree_iff sound_threefold ready_threefold rfl rfl rfl rfl hrun
    htasks hhandled).mpr fun _ => hfound⟩

open Bilingual in
theorem stale_pass_leaves_old_text :
    Run Move.Internal passing (passing.play readFirst).1 (passing.play readFirst).2 ∧
      (passing.play readFirst).2.tasks = [] ∧
      (passing.play readFirst).2.engine.channel.queue = [] ∧
      (passing.play readFirst).2.world.text? "page" 7 1 = some (title "Welcome") ∧
      (passing.play readFirst).2.world.record? "page" 3 =
        some ⟨3, 7, 3, title "Hello", true, "sync", "sync", 3, 3⟩ ∧
      ¬ (passing.play readFirst).2.world.Agrees "page" 7 1 := by
  obtain ⟨hrun, htasks, hhandled⟩ := run_of_ended passing readFirst (by cbv)
  have hbase : (passing.play readFirst).2.world.text? "page" 7 1 = some (title "Welcome") := by
    cbv
  have hcopy : (passing.play readFirst).2.world.record? "page" 3 =
      some ⟨3, 7, 3, title "Hello", true, "sync", "sync", 3, 3⟩ := by
    cbv
  refine ⟨hrun, htasks, hhandled, hbase, hcopy, World.not_agrees hbase hcopy rfl ?_ ?_⟩
  · exact ⟨rfl, by decide⟩
  · decide

end Pool

end Polyglot
