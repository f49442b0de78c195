import Polyglot.Flow.Creation
import Polyglot.Flow.Edit
import Polyglot.Proofs.Pool.Effect
import Polyglot.Proofs.Store.Convergence

namespace Polyglot

namespace Flow

variable {α : Type} {w : World} {type : String} {s : Store}

theorem run_on (f : Flow α) (h : w.store? type = some s) :
    ((Flow.on type f).run World.answer w).1 = (f.run (Store.answer w.directory) s).1 ∧
      ((Flow.on type f).run World.answer w).2.directory = w.directory ∧
      ∀ other, ((Flow.on type f).run World.answer w).2.store? other =
        if other = type then some (f.run (Store.answer w.directory) s).2 else w.store? other := by
  induction f generalizing w s with
  | done a =>
      refine ⟨rfl, rfl, fun other => ?_⟩
      split
      · rename_i heq
        exact heq ▸ h
      · rfl
  | ask q next ih =>
      have hstore : (World.answer (.content type q) w).2.store? type =
          some (s.answer w.directory q).2 := by
        rw [World.store?_answer, h]
        simp [Call.at]
      obtain ⟨hresult, hdirectory, hothers⟩ := ih (World.answer (.content type q) w).1 hstore
      rw [World.directory_answer] at hresult hdirectory
      have hreply := World.reply_answer h q
      simp only [on_ask, Program.run_ask]
      rw [← hreply]
      refine ⟨hresult, hdirectory, fun other => ?_⟩
      rw [hothers other, World.directory_answer]
      by_cases heq : other = type
      · rw [if_pos heq, if_pos heq]
      · rw [if_neg heq, if_neg heq, World.store?_answer]
        cases w.store? other <;> simp [Call.at, Ne.symm heq]

theorem run_attempt {σ β : Type} {answer : (q : Query) → σ → q.Reply × σ} (x : Attempt β)
    (f : β → Attempt α) (s : σ) :
    (x >>= f).run.run answer s =
      match x.run.run answer s with
      | (.ok b, t) => (f b).run.run answer t
      | (.error e, t) => (.error e, t) := by
  rw [ExceptT.run_bind, Program.run_bind]
  rcases x.run.run answer s with ⟨e | b, t⟩ <;> rfl

end Flow

namespace Store

variable {s : Store} {d : Directory}

theorem Sound.run {α : Type} (hs : s.Sound) (f : Flow α) : (f.run (answer d) s).2.Sound := by
  induction f generalizing s with
  | done a => exact hs
  | ask q next ih => exact ih _ (hs.becomes (becomes_answer d q))

structure Filled (s : Store) (item : ItemId) (languages : List LanguageId) (text : Text)
    (t : Store) : Prop where
  items : t.items = s.items
  faults : t.faults = s.faults
  kept : ∀ r ∈ s.records, r ∈ t.records
  fresh : ∀ r ∈ t.records, r ∈ s.records ∨ (r.item = item ∧ r.text = text)
  covered : ∀ l ∈ languages, ∃ r ∈ t.records, r.item = item ∧ r.language = l

end Store

namespace Copies

theorem run_fillGaps (d : Directory) {s : Store} {item : ItemId} (languages : List LanguageId)
    (text : Text) (actor : Actor) (hfaults : s.faults = .none)
    (hitem : s.items.contains item = true) :
    s.Filled item languages text
      ((fillGaps item (s.recordsOf item) languages text actor).run.run (Store.answer d) s).2 := by
  by_cases hmissing : missing ((s.recordsOf item).map (·.language)) languages = []
  · rw [run_fillGaps_of_full hmissing]
    refine ⟨rfl, rfl, fun r hr => hr, fun r hr => Or.inl hr, fun l hl => ?_⟩
    exact Store.mem_languagesOf.mp
      (Store.mem_map_language_recordsOf.mp (missing_eq_nil_iff.mp hmissing l hl))
  · have hread : ∀ l ∈ s.languagesOf item, l ∈ (s.recordsOf item).map (·.language) :=
      fun l hl => Store.mem_map_language_recordsOf.mpr hl
    rw [run_fillGaps_of_gap hmissing, Program.run_ask,
      Store.answer_insert hfaults hitem (firstRepeat_missing hread languages text)]
    refine ⟨rfl, rfl, fun r hr => List.mem_append_left _ hr, ?_, ?_⟩
    · intro r hr
      refine (List.mem_append.mp hr).imp id fun hr => ?_
      obtain ⟨draft, hdraft, n, _, rfl⟩ := Store.mem_enrol hr
      obtain ⟨l, _, rfl⟩ := List.mem_map.mp hdraft
      exact ⟨rfl, rfl⟩
    · intro l hl
      rcases mem_missing ((s.recordsOf item).map (·.language)) hl with hl | hl
      · obtain ⟨r, hr, hplace⟩ :=
          Store.mem_languagesOf.mp (Store.mem_map_language_recordsOf.mp hl)
        exact ⟨r, List.mem_append_left _ hr, hplace⟩
      · have hkey : (item, l) ∈ (Store.enrol item actor s.clock s.nextId
            ((missing ((s.recordsOf item).map (·.language)) languages).map
              (Draft.copy · text))).map fun r => (r.item, r.language) := by
          rw [Store.map_language_enrol, List.map_map]
          exact List.mem_map.mpr ⟨Draft.copy l text, List.mem_map_of_mem hl, rfl⟩
        obtain ⟨r, hr, heq⟩ := List.mem_map.mp hkey
        exact ⟨r, List.mem_append_right _ hr, (Prod.mk.inj heq).1, (Prod.mk.inj heq).2⟩

end Copies

namespace Edit

theorem run_load (d : Directory) (s : Store) (item : ItemId) (language : LanguageId) :
    (∃ e, (load item language).run.run (Store.answer d) s = (.error e, s)) ∨
      ∃ r ∈ s.records, r.item = item ∧ r.language = language ∧
        (load item language).run.run (Store.answer d) s = (.ok (s.recordsOf item, r), s) := by
  simp only [load, Flow.run_hasItem_bind, Program.run_ask, Store.answer, Flow.onward_ok]
  cases s.live item with
  | false => exact Or.inl ⟨_, rfl⟩
  | true =>
      simp only [Flow.run_records_bind, Program.run_ask, Store.answer, Flow.onward_ok]
      cases hfind : (s.recordsOf item).find? (·.language = language) with
      | none => exact Or.inl ⟨_, rfl⟩
      | some r =>
          obtain ⟨hr, hitem⟩ := Store.mem_recordsOf.mp (List.mem_of_find?_eq_some hfind)
          exact Or.inr ⟨r, hr, hitem, by simpa using List.find?_some hfind, rfl⟩

/-- Run alone, an edit changes nothing, or it writes one record of the item. -/
theorem run_edit (d : Directory) (s : Store) (type : String) (item : ItemId)
    (language : LanguageId) (text : Text) (actor : Actor) :
    (∃ e, (edit type item language text actor).run.run (Store.answer d) s = (.error e, s)) ∨
      ∃ r ∈ s.records, r.item = item ∧ r.language = language ∧ ∃ report,
        (edit type item language text actor).run.run (Store.answer d) s =
          (.ok (report, if d.base.any (·.id = language) then
            some { contentType := type, item, language, text, actor } else none),
            s.put r.id text false actor) := by
  rw [edit]
  split
  · exact Or.inl ⟨_, rfl⟩
  · rw [Flow.run_attempt]
    rcases run_load d s item language with ⟨e, hload⟩ | ⟨r, hr, hitem, hlanguage, hload⟩
    · rw [hload]
      exact Or.inl ⟨e, rfl⟩
    · rw [hload]
      refine Or.inr ⟨r, hr, hitem, hlanguage, ⟨r.id, Option.isSome (if d.base.any
        (·.id = language) then some (⟨type, item, language, text, actor⟩ : Event) else none)⟩, ?_⟩
      have hbase : s.answer d (.language .base) = (.ok d.base, s) := rfl
      dsimp only
      rw [Flow.run_baseLanguage_bind, Program.run_ask, hbase, Flow.onward_ok]
      rw [Flow.run_write_bind, Program.run_ask, Store.answer_write hr]
      rfl

end Edit

namespace Creation

theorem run_requireLanguages (d : Directory) (s : Store) (ids : List LanguageId) :
    ((requireLanguages ids).run.run (Store.answer d) s).2 = s := by
  induction ids with
  | nil => rfl
  | cons id rest ih =>
      rw [requireLanguages, Flow.run_languageById_bind, Program.run_ask]
      change (Program.run _ (Flow.onward _ (.ok (d.byId id))) s).2 = s
      rw [Flow.onward_ok]
      cases d.byId id with
      | none => rfl
      | some l => exact ih

theorem run_derive (d : Directory) {s : Store} {item : ItemId} (targets : List LanguageId)
    (text : Text) (actor : Actor) (hfaults : s.faults = .none)
    (hitem : s.items.contains item = true) :
    s.Filled item targets text
      ((derive item targets text actor).run.run (Store.answer d) s).2 := by
  rw [derive.eq_def]
  split
  · exact ⟨rfl, rfl, fun r hr => hr, fun r hr => Or.inl hr, nofun⟩
  · exact Copies.run_fillGaps d _ text actor hfaults hitem

/-- The first records of an item: one in the base language, with the text of all copies. -/
structure Founds (base : LanguageId) (item : ItemId) (s t : Store) : Prop where
  items : t.items = s.items
  faults : t.faults = s.faults
  others : ∀ r, r.item ≠ item → (r ∈ t.records ↔ r ∈ s.records)
  based : ∃ rb ∈ t.records, rb.item = item ∧ rb.language = base
  text : ∃ text, ∀ r ∈ t.records, r.item = item → r.IsCopy base ∨ r.language = base → r.text = text

theorem founds_of_filled {s t : Store} {item : ItemId} {inputs : List Submission} {actor : Actor}
    {l : Language} {targets : List LanguageId} {base : Submission}
    (hfree : ∀ r ∈ s.records, r.item ≠ item)
    (hbase : ∀ input ∈ inputs, input.language = l.id → input.text = base.text)
    (hcovers : l.id ∈ targets ∨ l.id ∈ inputs.map (·.language))
    (h : (s.append item (inputs.map (·.draft)) actor).Filled item targets base.text t) :
    Founds l.id item s t := by
  have hgiven {r : Record} (hr : r ∈ (s.append item (inputs.map (·.draft)) actor).records)
      (hitem : r.item = item) :
      r.follows = false ∧ ∃ input ∈ inputs, r.language = input.language ∧ r.text = input.text := by
    rcases List.mem_append.mp hr with hr | hr
    · exact absurd hitem (hfree r hr)
    · obtain ⟨draft, hdraft, n, _, rfl⟩ := Store.mem_enrol hr
      obtain ⟨input, hinput, rfl⟩ := List.mem_map.mp hdraft
      exact ⟨rfl, input, hinput, rfl, rfl⟩
  refine ⟨h.items, h.faults, ?_, ?_, ⟨base.text, ?_⟩⟩
  · intro r hne
    constructor
    · intro hr
      rcases h.fresh r hr with hr | ⟨hitem, _⟩
      · rcases List.mem_append.mp hr with hr | hr
        · exact hr
        · obtain ⟨draft, _, n, _, rfl⟩ := Store.mem_enrol hr
          exact absurd rfl hne
      · exact absurd hitem hne
    · intro hr
      exact h.kept r (List.mem_append_left _ hr)
  · rcases hcovers with hl | hl
    · exact h.covered l.id hl
    · have hkey : (item, l.id) ∈ (Store.enrol item actor s.clock s.nextId
          (inputs.map (·.draft))).map fun r => (r.item, r.language) := by
        rw [Store.map_language_enrol, List.map_map, List.map_map]
        obtain ⟨input, hinput, heq⟩ := List.mem_map.mp hl
        exact List.mem_map.mpr ⟨input, hinput, congrArg (Prod.mk item) heq⟩
      obtain ⟨r, hr, heq⟩ := List.mem_map.mp hkey
      exact ⟨r, h.kept r (List.mem_append_right _ hr), (Prod.mk.inj heq).1, (Prod.mk.inj heq).2⟩
  · intro r hr hitem hkind
    rcases h.fresh r hr with hr | ⟨_, htext⟩
    · obtain ⟨hpinned, input, hinput, hlanguage, htext⟩ := hgiven hr hitem
      rcases hkind with hcopy | hl
      · rw [hcopy.1] at hpinned
        cases hpinned
      · rw [htext]
        exact hbase input hinput (hlanguage.symm.trans hl)
    · exact htext

theorem text_of_chooseBase {inputs : List Submission} {l : Language} (default : Submission)
    {input : Submission}
    (hnodup : (inputs.map (·.language)).Nodup) (hinput : input ∈ inputs)
    (hlanguage : input.language = l.id) :
    input.text = ((chooseBase inputs (some l)).getD (default, .firstSupplied)).1.text := by
  rw [chooseBase, Option.bind_some, find?_of_nodup_map hnodup hinput hlanguage]
  rfl

theorem mem_remaining {d : Directory} {l : Language} (hbase : d.base = some l)
    (supplied : List LanguageId) :
    l.id ∈ (remaining d.active supplied).map (·.id) ∨ l.id ∈ supplied := by
  have havailable : l.available = true := by
    have := List.find?_some hbase
    simp only [Bool.and_eq_true] at this
    exact this.2
  by_cases hl : l.id ∈ supplied
  · exact Or.inr hl
  · refine Or.inl (List.mem_map_of_mem (List.mem_filter.mpr ⟨?_, by simp [havailable, hl]⟩))
    exact List.mem_filter.mpr ⟨List.mem_of_find?_eq_some hbase, havailable⟩

/-- Run alone for an item without records, a creation changes nothing, or it founds the item. -/
theorem run_create {d : Directory} {s : Store} {l : Language} {item : ItemId}
    (hbase : d.base = some l) (hfaults : s.faults = .none)
    (hfree : ∀ r ∈ s.records, r.item ≠ item) (inputs : List Submission) (actor : Actor) :
    ((create item inputs actor).run.run (Store.answer d) s).2 = s ∨
      Founds l.id item s ((create item inputs actor).run.run (Store.answer d) s).2 := by
  rw [create.eq_def]
  split
  · exact Or.inl rfl
  · exact Or.inl rfl
  · rename_i first rest hrepeat
    generalize hinputs : first :: rest = inputs at hrepeat
    obtain ⟨hnodup, _⟩ := firstRepeat_eq_none_iff.mp hrepeat
    have hrequire := run_requireLanguages d s (inputs.map (·.language))
    rw [Flow.run_attempt]
    generalize (requireLanguages (inputs.map (·.language))).run.run (Store.answer d) s = out
      at hrequire
    obtain ⟨result, s'⟩ := out
    change s' = s at hrequire
    rw [hrequire]
    cases result with
    | error e => exact Or.inl rfl
    | ok _ =>
        have hconfigured : s.answer d (.language .base) = (.ok d.base, s) := rfl
        have hactive : s.answer d (.language .active) = (.ok d.active, s) := rfl
        dsimp only
        rw [Flow.run_baseLanguage_bind, Program.run_ask, hconfigured, Flow.onward_ok]
        rw [Flow.run_activeLanguages_bind, Program.run_ask, hactive, Flow.onward_ok, hbase]
        have htext {input : Submission} (hinput : input ∈ inputs) (hl : input.language = l.id) :=
          text_of_chooseBase first hnodup hinput hl
        generalize (chooseBase inputs (some l)).getD (first, .firstSupplied) = choice at htext
        obtain ⟨base, _⟩ := choice
        dsimp only
        rw [writeBatches, Flow.run_insert_bind, Program.run_ask]
        by_cases hitem : s.items.contains item = true
        · have hgiven : firstRepeat (s.languagesOf item)
              ((inputs.map (·.draft)).map (·.language)) = none := by
            rw [Store.languagesOf_eq_nil hfree, List.map_map]
            exact hrepeat
          rw [Store.answer_insert hfaults hitem hgiven, Flow.onward_ok]
          dsimp only
          rw [Flow.run_attempt]
          have hfilled := run_derive d (s := s.append item (inputs.map (·.draft)) actor)
            ((remaining d.active (inputs.map (·.language))).map (·.id)) base.text actor hfaults
            hitem
          generalize (derive item _ base.text actor).run.run (Store.answer d) _ = out at hfilled
          obtain ⟨result, t⟩ := out
          have hfounds : Founds l.id item s t :=
            founds_of_filled hfree (fun _ => htext) (mem_remaining hbase _) hfilled
          cases result with
          | error e => exact Or.inr hfounds
          | ok n => exact Or.inr hfounds
        · have hrefused : s.answer d (.insert item (inputs.map (·.draft)) actor) =
              (.error (.noItem item), s) := by
            simp [Store.answer, Store.insert, hfaults, Faults.none, hitem, Store.settle]
          rw [hrefused]
          exact Or.inl rfl

end Creation

end Polyglot
