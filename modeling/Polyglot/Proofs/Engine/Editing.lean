import Polyglot.Proofs.Engine.Isolation
import Polyglot.Proofs.Flow.Outcome

namespace Polyglot

namespace Store

/-- The store with another text for one record. All else is as it was, but time has passed. -/
structure Rewrites (s : Store) (r : Record) (text : Text) (follows : Bool) (actor : Actor)
    (t : Store) : Prop where
  mem : r ∈ s.records
  records : ∀ r', r' ∈ t.records ↔
    (r' ∈ s.records ∧ r' ≠ r) ∨ r' = r.rewritten text follows actor s.clock
  rest : t = { s with records := t.records, clock := s.clock + 1 }

theorem Sound.rewrites_put {s : Store} (hs : s.Sound) {r : Record} (hr : r ∈ s.records)
    (text : Text) (follows : Bool) (actor : Actor) :
    s.Rewrites r text follows actor (s.put r.id text follows actor) where
  mem := hr
  rest := rfl
  records r' := by
    rw [mem_put]
    constructor
    · rintro (⟨hr', hid⟩ | ⟨r₀, hr₀, hid, rfl⟩)
      · exact Or.inl ⟨hr', fun heq => hid (congrArg Record.id heq)⟩
      · exact Or.inr (by rw [hs.eq_of_id hr₀ hr hid])
    · rintro (⟨hr', hne⟩ | rfl)
      · exact Or.inl ⟨hr', fun hid => hne (hs.eq_of_id hr' hr hid)⟩
      · exact Or.inr ⟨r, hr, rfl, rfl⟩

end Store

namespace Edit

variable {d : Directory} {refuse : Refusals} {σ : Session}

def Finds (s : Store) (item : ItemId) (language : LanguageId) : Prop :=
  s.live item = true ∧ (s.recordIn? item language).isSome = true

theorem load_run (refuse : Refusals) (hs : σ.store.Sound) (item : ItemId) (language : LanguageId) :
    let out := (load item language).run.run (Session.answer d refuse) σ
    out.2.store = σ.store ∧
      ((∃ err, out.1 = .error err ∧ (refuse.Bites ∨ ¬ Finds σ.store item language)) ∨
        ∃ r, σ.store.live item = true ∧ σ.store.recordIn? item language = some r ∧
          out.1 = .ok (σ.store.recordsOf item, r)) := by
  have hlive : (σ.store.answer d (.hasItem item)).1 = .ok (σ.store.live item) := rfl
  rw [load, Flow.hasItem]
  rcases Session.run_demand refuse rfl hlive _ with ⟨err, hbites, hrun⟩ | hrun
  · rw [hrun]
    exact ⟨rfl, Or.inl ⟨err, rfl, Or.inl hbites⟩⟩
  · rw [hrun]
    clear hrun
    cases hitem : σ.store.live item with
    | false =>
        refine ⟨rfl, Or.inl ⟨_, rfl, Or.inr fun h => ?_⟩⟩
        rw [h.1] at hitem
        cases hitem
    | true =>
        set σ' := σ.note (.hasItem item) (.ok true) σ.store
        have hrecords : (σ'.store.answer d (.records item)).1 = .ok (σ.store.recordsOf item) := rfl
        dsimp only
        rw [Flow.records]
        rcases Session.run_demand refuse rfl hrecords _ with ⟨err, hbites, hrun⟩ | hrun
        · rw [hrun]
          exact ⟨rfl, Or.inl ⟨err, rfl, Or.inl hbites⟩⟩
        · rw [hrun, hs.find?_recordsOf_eq]
          clear hrun
          cases hfind : σ.store.recordIn? item language with
          | none =>
              refine ⟨rfl, Or.inl ⟨_, rfl, Or.inr fun h => ?_⟩⟩
              rw [Finds, hfind] at h
              cases h.2
          | some r => exact ⟨rfl, Or.inr ⟨r, rfl, rfl, rfl⟩⟩

/-- The one write of an operation on a record, with nothing after it that could fail. -/
theorem write_run {α : Type} (refuse : Refusals) (hs : σ.store.Sound) {r : Record}
    (hr : r ∈ σ.store.records) (text : Text) (follows : Bool) (actor : Actor) (a : α) :
    let out := (do Flow.write r.id text follows actor; return a : Attempt α).run.run
      (Session.answer d refuse) σ
    (refuse.Bites ∧ (∃ err, out.1 = .error err) ∧ out.2.store = σ.store) ∨
      (out.1 = .ok a ∧ σ.store.Rewrites r text follows actor out.2.store) := by
  rw [Flow.run_write_bind, Program.run_ask, Session.answer]
  cases hrefuse : refuse σ.calls (.write r.id text follows actor) with
  | some err => exact Or.inl ⟨Refusals.bites hrefuse, ⟨err, rfl⟩, rfl⟩
  | none =>
      rw [Store.answer_write hr]
      exact Or.inr ⟨rfl, hs.rewrites_put hr text follows actor⟩

def news (d : Directory) (type : String) (item : ItemId) (language : LanguageId) (text : Text)
    (actor : Actor) : Option Event :=
  if d.base.any (·.id = language) then some { contentType := type, item, language, text, actor }
  else none

theorem edit_run (refuse : Refusals) (hs : σ.store.Sound) (type : String) (item : ItemId)
    (language : LanguageId) (text : Text) (actor : Actor) :
    let out := (edit type item language text actor).run.run (Session.answer d refuse) σ
    let event := news d type item language text actor
    ((∃ err, out.1 = .error err) ∧ out.2.store = σ.store ∧
        (refuse.Bites ∨ text.isEmpty = true ∨ ¬ Finds σ.store item language)) ∨
      ∃ r, text.isEmpty = false ∧ σ.store.live item = true ∧
        σ.store.recordIn? item language = some r ∧ out.1 = .ok (⟨r.id, event.isSome⟩, event) ∧
        σ.store.Rewrites r text false actor out.2.store := by
  rw [edit]
  cases hempty : text.isEmpty with
  | true => exact Or.inl ⟨⟨_, rfl⟩, rfl, Or.inr (Or.inl rfl)⟩
  | false =>
      rw [if_neg Bool.false_ne_true, Flow.run_attempt]
      have hload := load_run (d := d) refuse hs item language
      generalize (load item language).run.run (Session.answer d refuse) σ = loaded at hload
      obtain ⟨result, ⟨s, calls⟩⟩ := loaded
      obtain ⟨rfl, ⟨err, rfl, hwhy⟩ | ⟨r, hlive, hfind, rfl⟩⟩ := hload
      · exact Or.inl ⟨⟨err, rfl⟩, rfl, hwhy.imp_right Or.inr⟩
      · have hbase : (σ.store.answer d (.language .base)).1 = .ok d.base := rfl
        dsimp only
        rw [Flow.baseLanguage]
        rcases Session.run_demand (σ := ⟨σ.store, calls⟩) refuse rfl hbase _ with
          ⟨err, hbites, hrun⟩ | hrun
        · rw [hrun]
          exact Or.inl ⟨⟨err, rfl⟩, rfl, Or.inl hbites⟩
        · rw [hrun]
          rcases write_run (σ := Session.note ⟨σ.store, calls⟩ (.language .base) (.ok d.base)
            σ.store) refuse hs (Store.mem_of_recordIn? hfind).1 text false actor _ with
            ⟨hbites, herr, hkept⟩ | ⟨hok, hrewrites⟩
          · exact Or.inl ⟨herr, hkept, Or.inl hbites⟩
          · exact Or.inr ⟨r, rfl, hlive, hfind, hok, hrewrites⟩

theorem unpin_run (refuse : Refusals) (hs : σ.store.Sound) (item : ItemId) (language : LanguageId)
    (actor : Actor) :
    let out := (unpin item language actor).run.run (Session.answer d refuse) σ
    ((∃ err, out.1 = .error err) ∧ out.2.store = σ.store ∧
        (refuse.Bites ∨ ¬ Finds σ.store item language ∨
          ¬ ∃ base, d.base = some base ∧ base.id ≠ language ∧
            (σ.store.recordIn? item base.id).isSome = true)) ∨
      ∃ base r rb, d.base = some base ∧ base.id ≠ language ∧ σ.store.live item = true ∧
        σ.store.recordIn? item language = some r ∧ σ.store.recordIn? item base.id = some rb ∧
        out.1 = .ok r.id ∧ σ.store.Rewrites r rb.text true actor out.2.store := by
  have hbase : (σ.store.answer d (.language .base)).1 = .ok d.base := rfl
  rw [unpin, Flow.baseLanguage]
  rcases Session.run_demand refuse rfl hbase _ with ⟨err, hbites, hrun⟩ | hrun
  · rw [hrun]
    exact Or.inl ⟨⟨err, rfl⟩, rfl, Or.inl hbites⟩
  · rw [hrun]
    clear hrun
    cases hsome : d.base with
    | none =>
        refine Or.inl ⟨⟨_, rfl⟩, rfl, Or.inr (Or.inr ?_)⟩
        rintro ⟨base, hnone, -⟩
        cases hnone
    | some base =>
        dsimp only
        split_ifs with hself
        · refine Or.inl ⟨⟨_, rfl⟩, rfl, Or.inr (Or.inr ?_)⟩
          rintro ⟨_, ⟨⟩, hother, -⟩
          exact hother hself
        · rw [Flow.run_attempt]
          have hload := load_run (d := d) (σ := σ.note (.language .base) (.ok (some base)) σ.store)
            refuse hs item language
          generalize (load item language).run.run (Session.answer d refuse) _ = loaded at hload
          obtain ⟨result, ⟨s, calls⟩⟩ := loaded
          obtain ⟨hkept, ⟨err, rfl, hwhy⟩ | ⟨r, hlive, hfind, rfl⟩⟩ := hload
          · exact Or.inl ⟨⟨err, rfl⟩, hkept, hwhy.imp_right Or.inl⟩
          · obtain rfl : s = σ.store := hkept
            dsimp only
            rw [show (σ.note _ _ σ.store).store = σ.store from rfl, hs.find?_recordsOf_eq]
            cases hbaseRecord : σ.store.recordIn? item base.id with
            | none =>
                refine Or.inl ⟨⟨_, rfl⟩, rfl, Or.inr (Or.inr ?_)⟩
                rintro ⟨_, ⟨⟩, -, hsome⟩
                rw [hbaseRecord] at hsome
                cases hsome
            | some rb =>
                rcases write_run (σ := ⟨σ.store, calls⟩) refuse hs
                  (Store.mem_of_recordIn? hfind).1 rb.text true actor r.id with
                  ⟨hbites, herr, hsame⟩ | ⟨hok, hrewrites⟩
                · exact Or.inl ⟨herr, hsame, Or.inl hbites⟩
                · exact Or.inr ⟨base, r, rb, rfl, hself, hlive, hfind, hbaseRecord, hok, hrewrites⟩

end Edit

namespace Sessions

/-- No record of any content type is another. -/
structure Untouched (w v : Sessions) : Prop where
  desk : v.desk = w.desk
  stores : ∀ type, (v.of type).store = (w.of type).store

structure Rewrites (w : Sessions) (type : String) (r : Record) (text : Text) (follows : Bool)
    (actor : Actor) (v : Sessions) : Prop where
  desk : v.desk = w.desk
  others : ∀ other ≠ type, v.of other = w.of other
  store : (w.of type).store.Rewrites r text follows actor (v.of type).store

theorem run_on {α : Type} (rules : Rules) (type : String) (f : Flow α) (w : Sessions) :
    let out := f.run (Session.answer w.desk.directory (rules.of type)) (w.of type)
    (Flow.on type f).run (answer rules) w =
      (out.1, { w with of := Function.update w.of type out.2 }) := by
  induction f generalizing w with
  | done a => simp [Flow.on, Program.through]
  | ask q next ih =>
      refine (ih _ _).trans ?_
      simp only [Function.update_self, Function.update_idem]
      rfl

theorem untouched_update {w : Sessions} {type : String} {σ : Session}
    (h : σ.store = (w.of type).store) :
    w.Untouched { w with of := Function.update w.of type σ } where
  desk := rfl
  stores other := by
    by_cases hother : other = type
    · subst hother
      simpa using h
    · simp [hother]

theorem rewrites_update {w : Sessions} {type : String} {r : Record} {text : Text} {follows : Bool}
    {actor : Actor} {σ : Session} (h : (w.of type).store.Rewrites r text follows actor σ.store) :
    w.Rewrites type r text follows actor { w with of := Function.update w.of type σ } where
  desk := rfl
  others other hother := by simp [hother]
  store := by simpa using h

end Sessions

namespace Engine

theorem run_within {α : Type} (e : Engine) (rules : Rules) (type : String) (f : Attempt α)
    (w : Sessions) :
    let out := f.run.run (Session.answer w.desk.directory (rules.of type)) (w.of type)
    (e.within type f).run (Sessions.answer rules) w =
      if e.registry.has type then (out.1, { w with of := Function.update w.of type out.2 })
      else (.error (.notFound .contentType type), w) := by
  rw [within]
  split
  · exact Sessions.run_on rules type f.run w
  · rfl

theorem run_editing (e : Engine) (rules : Rules) {w : Sessions} {type : String}
    (hs : (w.of type).store.Sound) (item : ItemId) (language : LanguageId) (text : Text)
    (actor : Actor) :
    let s := (w.of type).store
    let out := (e.edit type item language text actor).run (Sessions.answer rules) w
    let event := Edit.news w.desk.directory type item language text actor
    ((∃ err, out.1 = (.error err, e)) ∧ w.Untouched out.2 ∧
        ((rules.of type).Bites ∨ e.registry.has type = false ∨ text.isEmpty = true ∨
          ¬ Edit.Finds s item language)) ∨
      ∃ r, e.registry.has type = true ∧ text.isEmpty = false ∧ s.live item = true ∧
        s.recordIn? item language = some r ∧
        out.1 = (.ok ⟨r.id, event.isSome⟩, event.elim e (e.publish e.handle)) ∧
        w.Rewrites type r text false actor out.2 := by
  rw [Engine.edit]
  dsimp only
  rw [Program.run_bind, run_within]
  cases hhas : e.registry.has type with
  | false =>
      refine Or.inl ⟨⟨_, rfl⟩, ⟨rfl, fun _ => rfl⟩, Or.inr (Or.inl rfl)⟩
  | true =>
      rw [if_pos rfl]
      have hedit := Edit.edit_run (d := w.desk.directory) (rules.of type) hs type item language text
        actor
      generalize (Edit.edit type item language text actor).run.run _ (w.of type) = out at hedit
      obtain ⟨result, σ⟩ := out
      rcases hedit with ⟨⟨err, rfl⟩, hkept, hwhy⟩ | ⟨r, htext, hlive, hfind, rfl, hrewrites⟩
      · refine Or.inl ⟨⟨err, rfl⟩, Sessions.untouched_update hkept, ?_⟩
        exact hwhy.imp_right Or.inr
      · refine Or.inr ⟨r, rfl, htext, hlive, hfind, ?_, ?_⟩
        · cases Edit.news w.desk.directory type item language text actor <;> rfl
        · have hrewrites := Sessions.rewrites_update hrewrites
          cases Edit.news w.desk.directory type item language text actor <;> exact hrewrites

theorem run_unpinning (e : Engine) (rules : Rules) {w : Sessions} {type : String}
    (hs : (w.of type).store.Sound) (item : ItemId) (language : LanguageId) (actor : Actor) :
    let s := (w.of type).store
    let out := (e.unpin type item language actor).run (Sessions.answer rules) w
    ((∃ err, out.1 = .error err) ∧ w.Untouched out.2 ∧
        ((rules.of type).Bites ∨ e.registry.has type = false ∨ ¬ Edit.Finds s item language ∨
          ¬ ∃ base, w.desk.directory.base = some base ∧ base.id ≠ language ∧
            (s.recordIn? item base.id).isSome = true)) ∨
      ∃ base r rb, e.registry.has type = true ∧ w.desk.directory.base = some base ∧
        base.id ≠ language ∧ s.live item = true ∧ s.recordIn? item language = some r ∧
        s.recordIn? item base.id = some rb ∧ out.1 = .ok r.id ∧
        w.Rewrites type r rb.text true actor out.2 := by
  rw [Engine.unpin]
  dsimp only
  rw [run_within]
  cases hhas : e.registry.has type with
  | false => exact Or.inl ⟨⟨_, rfl⟩, ⟨rfl, fun _ => rfl⟩, Or.inr (Or.inl rfl)⟩
  | true =>
      rw [if_pos rfl]
      rcases Edit.unpin_run (d := w.desk.directory) (rules.of type) hs item language actor with
        ⟨herr, hkept, hwhy⟩ | ⟨base, r, rb, hbase, hother, hlive, hr, hrb, hok, hrewrites⟩
      · exact Or.inl ⟨herr, Sessions.untouched_update hkept, hwhy.imp_right Or.inr⟩
      · exact Or.inr ⟨base, r, rb, rfl, hbase, hother, hlive, hr, hrb, hok,
          Sessions.rewrites_update hrewrites⟩

section

variable (e : Engine) (rules : Rules) {w : Sessions} {type : String}
  (hs : (w.of type).store.Sound) (item : ItemId) (language : LanguageId) (text : Text)
  (actor : Actor)

include hs

theorem edit_succeeds_iff (hnever : rules.of type = .never) :
    (∃ report, ((e.edit type item language text actor).run (Sessions.answer rules) w).1.1 =
        .ok report) ↔
      e.registry.has type = true ∧ text.isEmpty = false ∧
        Edit.Finds (w.of type).store item language := by
  rcases e.run_editing rules hs item language text actor with
    ⟨⟨err, herr⟩, -, hwhy⟩ | ⟨r, hhas, htext, hlive, hr, hok, -⟩
  · refine iff_of_false (by simp [herr]) ?_
    rintro ⟨hhas, htext, hfinds⟩
    rw [hnever, hhas, htext] at hwhy
    simp [hfinds, Refusals.not_bites_never] at hwhy
  · exact iff_of_true ⟨_, congrArg Prod.fst hok⟩ ⟨hhas, htext, hlive, by simp [hr]⟩

theorem unpin_succeeds_iff (hnever : rules.of type = .never) :
    (∃ id, ((e.unpin type item language actor).run (Sessions.answer rules) w).1 = .ok id) ↔
      e.registry.has type = true ∧ Edit.Finds (w.of type).store item language ∧
        ∃ base, w.desk.directory.base = some base ∧ base.id ≠ language ∧
          ((w.of type).store.recordIn? item base.id).isSome = true := by
  rcases e.run_unpinning rules hs item language actor with
    ⟨⟨err, herr⟩, -, hwhy⟩ | ⟨base, r, rb, hhas, hbase, hother, hlive, hr, hrb, hok, -⟩
  · refine iff_of_false (by simp [herr]) ?_
    rintro ⟨hhas, hfinds, hbase⟩
    rw [hnever, hhas] at hwhy
    rcases hwhy with hbites | hno | hno | hno
    · exact Refusals.not_bites_never hbites
    · cases hno
    · exact hno hfinds
    · exact hno hbase
  · exact iff_of_true ⟨_, hok⟩ ⟨hhas, ⟨hlive, by simp [hr]⟩, base, hbase, hother, by simp [hrb]⟩

end

/-- Whatever calls are refused, an edit or an unpinning that fails has changed no record and
published nothing. An edit that succeeds has written the one record it was to write, and has
published the news exactly if that is the base text. An unpinning that succeeds has written the base
text to the one record it was to write, which is not the base record. Both succeed where they find
what they need and nothing is refused. -/
theorem editing_is_atomic (e : Engine) (rules : Rules) {w : Sessions} {type : String}
    (hs : (w.of type).store.Sound) (item : ItemId) (language : LanguageId) (text : Text)
    (actor : Actor) :
    let s := (w.of type).store
    let base := w.desk.directory.base
    let edited := (e.edit type item language text actor).run (Sessions.answer rules) w
    let unpinned := (e.unpin type item language actor).run (Sessions.answer rules) w
    (∀ err, edited.1.1 = .error err → edited.1.2 = e ∧ w.Untouched edited.2) ∧
    (∀ report, edited.1.1 = .ok report → ∃ r, s.recordIn? item language = some r ∧
      w.Rewrites type r text false actor edited.2 ∧
      if base.any (·.id = language) then
        report = ⟨r.id, true⟩ ∧ edited.1.2 = e.publish e.handle ⟨type, item, language, text, actor⟩
      else report = ⟨r.id, false⟩ ∧ edited.1.2 = e) ∧
    (∀ err, unpinned.1 = .error err → w.Untouched unpinned.2) ∧
    (∀ id, unpinned.1 = .ok id → ∃ b r rb, base = some b ∧ b.id ≠ language ∧
      s.recordIn? item language = some r ∧ s.recordIn? item b.id = some rb ∧ id = r.id ∧
      w.Rewrites type r rb.text true actor unpinned.2) ∧
    (base.any (·.id = language) → ∃ err, unpinned.1 = .error err) ∧
    (rules.of type = .never →
      ((∃ report, edited.1.1 = .ok report) ↔ e.registry.has type = true ∧
        text.isEmpty = false ∧ Edit.Finds s item language) ∧
      ((∃ id, unpinned.1 = .ok id) ↔ e.registry.has type = true ∧ Edit.Finds s item language ∧
        ∃ b, base = some b ∧ b.id ≠ language ∧ (s.recordIn? item b.id).isSome = true)) := by
  intro s base edited unpinned
  have hedit := e.run_editing rules hs item language text actor
  have hunpin := e.run_unpinning rules hs item language actor
  refine ⟨fun err herr => ?_, fun report hok => ?_, fun err herr => ?_, fun id hok => ?_,
    fun hself => ?_, fun hnever => ⟨e.edit_succeeds_iff rules hs item language text actor hnever,
      e.unpin_succeeds_iff rules hs item language actor hnever⟩⟩
  · rcases hedit with ⟨⟨_, hfails⟩, hsame, -⟩ | ⟨r, -, -, -, -, hdone, -⟩
    · exact ⟨congrArg Prod.snd hfails, hsame⟩
    · cases herr.symm.trans (congrArg Prod.fst hdone)
  · rcases hedit with ⟨⟨_, hfails⟩, -, -⟩ | ⟨r, -, -, -, hr, hdone, hrewrites⟩
    · cases hok.symm.trans (congrArg Prod.fst hfails)
    · refine ⟨r, hr, hrewrites, ?_⟩
      have hreport := Except.ok.inj (hok.symm.trans (congrArg Prod.fst hdone))
      have hengine : edited.1.2 = _ := congrArg Prod.snd hdone
      rw [hreport, hengine, Edit.news]
      split
      · exact ⟨rfl, rfl⟩
      · exact ⟨rfl, rfl⟩
  · rcases hunpin with ⟨-, hsame, -⟩ | ⟨b, r, rb, -, -, -, -, -, -, hdone, -⟩
    · exact hsame
    · cases herr.symm.trans hdone
  · rcases hunpin with ⟨⟨_, hfails⟩, -, -⟩ | ⟨b, r, rb, -, hb, hother, -, hr, hrb, hdone, hrewrites⟩
    · cases hok.symm.trans hfails
    · exact ⟨b, r, rb, hb, hother, hr, hrb, Except.ok.inj (hok.symm.trans hdone), hrewrites⟩
  · rcases hunpin with ⟨hfails, -, -⟩ | ⟨b, r, rb, -, hb, hother, -⟩
    · exact hfails
    · simp [base, hb, hother] at hself

end Engine

namespace Bilingual

def pagesFrozen : Rules :=
  ⟨fun _ _ => none, fun type calls q =>
    if type = "page" ∧ q.writes then some (.storage (.write 1)) else Refusals.never calls q⟩

def draftedPage : Record := ⟨1, 7, 1, title "Hello", false, "ann", "ann", 0, 0⟩

end Bilingual

namespace Engine

open Bilingual in
/-- The new base text of a page is news, unless its one record cannot be written. -/
theorem page_edit_published :
    (let out := (newsroom.edit "page" 7 1 (title "Hi") "bob").run (Sessions.answer allUp) drafted
     out.1.2.channel.queue = [⟨"page", 7, 1, title "Hi", "bob"⟩] ∧
       drafted.Rewrites "page" draftedPage (title "Hi") false "bob" out.2) ∧
    (let out := (newsroom.edit "page" 7 1 (title "Hi") "bob").run (Sessions.answer pagesFrozen)
        drafted
     out.1.2 = newsroom ∧ drafted.Untouched out.2) := by
  have hs := sound_drafted "page"
  constructor
  · have hok : ((newsroom.edit "page" 7 1 (title "Hi") "bob").run (Sessions.answer allUp)
        drafted).1.1 = .ok ⟨1, true⟩ := by cbv
    obtain ⟨-, hedited, -⟩ := editing_is_atomic newsroom allUp hs 7 1 (title "Hi") "bob"
    obtain ⟨r, hr, hrewrites, -, hengine⟩ := hedited ⟨1, true⟩ hok
    obtain rfl : draftedPage = r := Option.some_inj.mp (Eq.trans (by cbv) hr)
    exact ⟨by rw [hengine]; rfl, hrewrites⟩
  · have herr : ((newsroom.edit "page" 7 1 (title "Hi") "bob").run (Sessions.answer pagesFrozen)
        drafted).1.1 = .error (.storage (.write 1)) := by cbv
    obtain ⟨hfailed, -⟩ := editing_is_atomic newsroom pagesFrozen hs 7 1 (title "Hi") "bob"
    exact hfailed _ herr

end Engine

end Polyglot
