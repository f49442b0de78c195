import Mathlib.Data.List.Forall2
import Polyglot.Proofs.Flow.Refusal
import Polyglot.Proofs.Reconciliation.Recovery

namespace Polyglot

theorem mem_of_firstRepeat {α : Type} [DecidableEq α] {seen l : List α} {a : α}
    (h : firstRepeat seen l = some a) (hnodup : l.Nodup) : a ∈ l ∧ a ∈ seen := by
  induction l generalizing seen with
  | nil => cases h
  | cons b rest ih =>
      obtain ⟨hb, hrest⟩ := List.nodup_cons.mp hnodup
      rw [firstRepeat] at h
      split at h
      · cases h
        exact ⟨List.mem_cons_self, by assumption⟩
      · obtain ⟨ha, hseen⟩ := ih h hrest
        refine ⟨List.mem_cons_of_mem b ha, ?_⟩
        rcases List.mem_cons.mp hseen with rfl | hseen
        · exact absurd ha hb
        · exact hseen

/-- No language of the table has the id, or only one that is deleted. -/
def Directory.Lacks (d : Directory) (id : LanguageId) : Prop :=
  ∀ l ∈ d.languages, l.id = id → l.deleted = true

theorem Directory.byId_eq_none_iff {d : Directory} {id : LanguageId} :
    d.byId id = none ↔ d.Lacks id := by
  simp [byId, Lacks]

theorem Directory.isSome_byId_iff {d : Directory} {id : LanguageId} :
    (d.byId id).isSome = true ↔ ¬ d.Lacks id := by
  rw [← byId_eq_none_iff, Option.isSome_iff_ne_none]

theorem exists_of_forall₂ {α β : Type} {R : α → β → Prop} {as : List α} {bs : List β}
    (h : List.Forall₂ R as bs) {a : α} (ha : a ∈ as) : ∃ b ∈ bs, R a b := by
  induction h with
  | nil => cases ha
  | @cons a' b' _ _ hR _ ih =>
      rcases List.mem_cons.mp ha with rfl | ha
      · exact ⟨b', List.mem_cons_self, hR⟩
      · obtain ⟨b, hb, hR⟩ := ih ha
        exact ⟨b, List.mem_cons_of_mem b' hb, hR⟩

namespace Store

variable {s t u : Store} {item : ItemId} {drafts more : List Draft} {actor : Actor}

/-- Records have come at the end that were made of the drafts, and nothing else is another but the
counter of ids and the clock. -/
structure Gains (s : Store) (item : ItemId) (drafts : List Draft) (actor : Actor) (t : Store) :
    Prop where
  records : ∃ fresh, t.records = s.records ++ fresh ∧
    List.Forall₂ (fun draft r => ∃ now id, s.nextId ≤ id ∧ r = draft.record item actor now id)
      drafts fresh
  rest : t = { s with
    records := t.records, nextId := s.nextId + drafts.length, clock := t.clock }

theorem Gains.none (s : Store) (item : ItemId) (actor : Actor) : s.Gains item [] actor s where
  records := ⟨[], (List.append_nil _).symm, .nil⟩
  rest := by simp

theorem forall₂_enrol (item : ItemId) (actor : Actor) (now : Instant) (id : RecordId)
    (drafts : List Draft) :
    List.Forall₂ (fun draft r => ∃ now id', id ≤ id' ∧ r = draft.record item actor now id') drafts
      (enrol item actor now id drafts) := by
  induction drafts generalizing id with
  | nil => exact .nil
  | cons draft rest ih =>
      refine .cons ⟨now, id, Int.le_refl id, rfl⟩ ((ih (id + 1)).imp ?_)
      rintro draft r ⟨now, id', hle, rfl⟩
      exact ⟨now, id', Int.le_of_lt hle, rfl⟩

theorem gains_append (s : Store) (item : ItemId) (drafts : List Draft) (actor : Actor) :
    s.Gains item drafts actor (s.append item drafts actor) where
  records := ⟨_, rfl, forall₂_enrol item actor s.clock s.nextId drafts⟩
  rest := rfl

theorem Gains.trans (h : s.Gains item drafts actor t) (h' : t.Gains item more actor u) :
    s.Gains item (drafts ++ more) actor u where
  records := by
    obtain ⟨fresh, hfresh, hall⟩ := h.records
    obtain ⟨fresh', hfresh', hall'⟩ := h'.records
    refine ⟨fresh ++ fresh', by rw [hfresh', hfresh, List.append_assoc], ?_⟩
    apply List.rel_append hall
    apply hall'.imp
    rintro draft r ⟨now, id, hle, rfl⟩
    have hnext : s.nextId ≤ t.nextId := by
      rw [h.rest]
      exact Int.le_add_of_nonneg_right (Int.natCast_nonneg _)
    exact ⟨now, id, Int.le_trans hnext hle, rfl⟩
  rest := by
    rw [h'.rest, h.rest, List.length_append, Nat.cast_add, Int.add_assoc]

theorem Gains.kept (h : s.Gains item drafts actor t) {r : Record} (hr : r ∈ s.records) :
    r ∈ t.records := by
  obtain ⟨fresh, hfresh, -⟩ := h.records
  rw [hfresh]
  exact List.mem_append_left fresh hr

theorem Gains.cases_mem (h : s.Gains item drafts actor t) {r : Record} (hr : r ∈ t.records) :
    r ∈ s.records ∨ ∃ draft ∈ drafts, ∃ now id, r = draft.record item actor now id := by
  obtain ⟨fresh, hfresh, hall⟩ := h.records
  rw [hfresh] at hr
  refine (List.mem_append.mp hr).imp_right fun hr => ?_
  obtain ⟨draft, hdraft, now, id, -, heq⟩ := exists_of_forall₂ hall.flip hr
  exact ⟨draft, hdraft, now, id, heq⟩

theorem Gains.exists_record (h : s.Gains item drafts actor t) {draft : Draft}
    (hdraft : draft ∈ drafts) :
    ∃ now id, s.nextId ≤ id ∧ draft.record item actor now id ∈ t.records := by
  obtain ⟨fresh, hfresh, hall⟩ := h.records
  obtain ⟨r, hr, now, id, hle, rfl⟩ := exists_of_forall₂ hall hdraft
  rw [hfresh]
  exact ⟨now, id, hle, List.mem_append_right s.records hr⟩

end Store

namespace Copies

variable {s : Store} {item : ItemId}

/-- A store that still holds what was read of the item takes the batch, but for its fault. -/
theorem fillGaps_alone (d : Directory) (hitem : s.items.contains item = true)
    (languages : List LanguageId) (text : Text) (actor : Actor) :
    let gaps := missing ((s.recordsOf item).map (·.language)) languages
    let out := (fillGaps item (s.recordsOf item) languages text actor).run.run (Store.answer d) s
    (gaps ≠ [] ∧ s.faults.copyInserts = true ∧ out = (.error (.storage (.insert s.name)), s)) ∨
      ((gaps = [] ∨ s.faults.copyInserts = false) ∧ ∃ t, out = (.ok gaps.length, t) ∧
        s.Gains item (gaps.map (Draft.copy · text)) actor t) := by
  intro gaps out
  by_cases hgaps : gaps = []
  · refine Or.inr ⟨Or.inl hgaps, s, ?_, ?_⟩
    · rw [hgaps]
      simp only [out, run_fillGaps_of_full hgaps]
      rfl
    · rw [hgaps]
      exact .none s item actor
  · have hread : ∀ l ∈ s.languagesOf item, l ∈ (s.recordsOf item).map (·.language) :=
      fun l hl => Store.mem_map_language_recordsOf.mpr hl
    have hfree := firstRepeat_missing hread languages text
    have hfollows := any_follows_copies hgaps text
    simp only [out, run_fillGaps_of_gap hgaps, Program.run_ask]
    cases hfault : s.faults.copyInserts with
    | true =>
        refine Or.inl ⟨hgaps, rfl, ?_⟩
        simp only [Store.answer, Store.insert, hfault, hfollows, gaps, Bool.and_self, if_true,
          Store.settle]
        rfl
    | false =>
        refine Or.inr ⟨Or.inr rfl, _, ?_, Store.gains_append s item _ actor⟩
        simp only [Store.answer, Store.insert, hfault, hitem, hfree, Bool.false_and,
          Bool.not_true, Bool.false_eq_true, if_false, Store.settle]
        rfl

end Copies

namespace Creation

variable {d : Directory} {s : Store} {item : ItemId} {inputs : List Submission} {actor : Actor}

theorem requireLanguages_alone (d : Directory) (s : Store) (ids : List LanguageId) :
    ((∀ id ∈ ids, (d.byId id).isSome = true) ∧
        (requireLanguages ids).run.run (Store.answer d) s = (.ok (), s)) ∨
      ∃ id ∈ ids, d.byId id = none ∧ (requireLanguages ids).run.run (Store.answer d) s =
        (.error (.notFound .language (toString id)), s) := by
  induction ids with
  | nil => exact Or.inl ⟨nofun, rfl⟩
  | cons id rest ih =>
      have hasked : s.answer d (.language (.byId id)) = (.ok (d.byId id), s) := rfl
      rw [requireLanguages, Flow.run_languageById_bind, Program.run_ask, hasked, Flow.onward_ok]
      cases hid : d.byId id with
      | none => exact Or.inr ⟨id, List.mem_cons_self, hid, rfl⟩
      | some language =>
          rcases ih with ⟨hknown, hrun⟩ | ⟨id', hid', hnone, hrun⟩
          · exact Or.inl ⟨List.forall_mem_cons.mpr ⟨by simp [hid], hknown⟩, hrun⟩
          · exact Or.inr ⟨id', List.mem_cons_of_mem id hid', hnone, hrun⟩

theorem derive_cases (d : Directory) (hitem : s.items.contains item = true)
    (targets : List LanguageId) (text : Text) (actor : Actor) :
    ∃ copies : List LanguageId, copies.Nodup ∧
      (∀ l, l ∈ copies ↔ l ∈ targets ∧ l ∉ s.languagesOf item) ∧
      ((copies ≠ [] ∧ s.faults.copyInserts = true ∧
          (derive item targets text actor).run.run (Store.answer d) s =
            (.error (.storage (.insert s.name)), s)) ∨
        ((copies = [] ∨ s.faults.copyInserts = false) ∧ ∃ t,
          (derive item targets text actor).run.run (Store.answer d) s = (.ok copies.length, t) ∧
          s.Gains item (copies.map (Draft.copy · text)) actor t)) := by
  refine ⟨Copies.missing ((s.recordsOf item).map (·.language)) targets,
    (Copies.missing_spec _ _).1, fun l => ?_, ?_⟩
  · rw [Copies.mem_missing_iff, Store.mem_map_language_recordsOf]
  · cases targets with
    | nil => exact Or.inr ⟨Or.inl rfl, s, rfl, .none s item actor⟩
    | cons target rest =>
        have hread : s.answer d (.records item) = (.ok (s.recordsOf item), s) := rfl
        rw [derive, Flow.run_records_bind, Program.run_ask, hread, Flow.onward_ok]
        exact Copies.fillGaps_alone d hitem (target :: rest) text actor

structure Source (d : Directory) (inputs : List Submission) (source : Submission) : Prop where
  mem : source ∈ inputs
  base : ∀ b, d.base = some b → b.id ∈ inputs.map (·.language) → source.language = b.id
  first : (∀ b, d.base = some b → b.id ∉ inputs.map (·.language)) → inputs.head? = some source

theorem source_spec (d : Directory) (first : Submission) (rest : List Submission) :
    Source d (first :: rest) (source d (first :: rest) first) := by
  rw [source, chooseBase]
  cases hfind : d.base.bind fun b => (first :: rest).find? (·.language = b.id) with
  | some input =>
      obtain ⟨b, hb, hinput⟩ := Option.bind_eq_some_iff.mp hfind
      have hlanguage : input.language = b.id := by simpa using List.find?_some hinput
      have hmem := List.mem_of_find?_eq_some hinput
      refine ⟨hmem, fun b' hb' _ => ?_, fun hnone => ?_⟩
      · rw [hb] at hb'
        cases hb'
        exact hlanguage
      · exact absurd (hlanguage ▸ List.mem_map_of_mem hmem) (hnone b hb)
  | none =>
      refine ⟨List.mem_cons_self, fun b hb hgiven => ?_, fun _ => rfl⟩
      rw [hb, Option.bind_some, List.find?_eq_none] at hfind
      obtain ⟨input, hinput, hlanguage⟩ := List.mem_map.mp hgiven
      exact absurd hlanguage (by simpa using hfind input hinput)

/-- What a creation that runs alone comes to, and the store that it leaves. -/
inductive Ends (d : Directory) (s : Store) (item : ItemId) (inputs : List Submission)
    (actor : Actor) : Except Error Report × Store → Prop
  | empty (h : inputs = []) : Ends d s item inputs actor (.error (.invalid .noTexts), s)
  | repeated (l : LanguageId) (hgiven : inputs ≠ []) (h : repeatedLanguage inputs = some l) :
      Ends d s item inputs actor (.error (.invalid (.repeatedLanguage l)), s)
  | unknown (id : LanguageId) (hgiven : inputs ≠ []) (honce : repeatedLanguage inputs = none)
      (hid : id ∈ inputs.map (·.language)) (hnone : d.byId id = none) :
      Ends d s item inputs actor (.error (.notFound .language (toString id)), s)
  | noItem (hvalid : Valid d inputs) (hitem : s.items.contains item = false) :
      Ends d s item inputs actor (.error (.noItem item), s)
  | taken (l : LanguageId) (hvalid : Valid d inputs) (hitem : s.items.contains item = true)
      (hl : l ∈ inputs.map (·.language)) (htaken : l ∈ s.languagesOf item) :
      Ends d s item inputs actor (.error (.storage (.duplicate item l)), s)
  /-- The copies are not written, what the caller gave is. -/
  | halfway (copies : List LanguageId) (t : Store) (hvalid : Valid d inputs)
      (hitem : s.items.contains item = true)
      (hfree : ∀ l ∈ inputs.map (·.language), l ∉ s.languagesOf item) (hnodup : copies.Nodup)
      (hcopies : ∀ l, l ∈ copies ↔ l ∈ targets d inputs ∧ l ∉ s.languagesOf item)
      (hsome : copies ≠ []) (hfault : s.faults.copyInserts = true)
      (hgains : s.Gains item (inputs.map (·.draft)) actor t) :
      Ends d s item inputs actor (.error (.storage (.insert s.name)), t)
  | done (copies : List LanguageId) (source : Submission) (t : Store) (hvalid : Valid d inputs)
      (hitem : s.items.contains item = true)
      (hfree : ∀ l ∈ inputs.map (·.language), l ∉ s.languagesOf item) (hnodup : copies.Nodup)
      (hcopies : ∀ l, l ∈ copies ↔ l ∈ targets d inputs ∧ l ∉ s.languagesOf item)
      (hwritable : copies = [] ∨ s.faults.copyInserts = false) (hsource : Source d inputs source)
      (hgains : s.Gains item (inputs.map (·.draft) ++ copies.map (Draft.copy · source.text)) actor
        t) :
      Ends d s item inputs actor (.ok ⟨inputs.length, copies.length, source.language⟩, t)

theorem map_language_draft (inputs : List Submission) :
    (inputs.map (·.draft)).map (·.language) = inputs.map (·.language) := by
  rw [List.map_map]
  rfl

theorem writeBatches_ends (hvalid : Valid d inputs) {source : Submission}
    (hsource : Source d inputs source) (s : Store) (item : ItemId) (actor : Actor) :
    Ends d s item inputs actor ((writeBatches item inputs d.active source actor).run.run
      (Store.answer d) s) := by
  have hinsert := s.insert_pinned item actor (any_follows_draft inputs)
  rw [map_language_draft] at hinsert
  obtain ⟨honce, -⟩ := firstRepeat_eq_none_iff.mp hvalid.once
  have hanswer : s.answer d (.insert item (inputs.map (·.draft)) actor) =
    s.settle (s.insert item (inputs.map (·.draft)) actor) := rfl
  rw [writeBatches, Flow.run_insert_bind, Program.run_ask]
  cases hitem : s.items.contains item with
  | false =>
      rw [hanswer, hinsert, hitem]
      exact .noItem hvalid hitem
  | true =>
      cases hrepeat : firstRepeat (s.languagesOf item) (inputs.map (·.language)) with
      | some l =>
          obtain ⟨hl, htaken⟩ := mem_of_firstRepeat hrepeat honce
          rw [hanswer, hinsert, hitem, hrepeat]
          exact .taken l hvalid hitem hl htaken
      | none =>
          obtain ⟨-, hfree⟩ := firstRepeat_eq_none_iff.mp hrepeat
          rw [hitem, hrepeat] at hinsert
          replace hanswer : s.answer d (.insert item (inputs.map (·.draft)) actor) =
            (.ok (), s.append item (inputs.map (·.draft)) actor) := by rw [hanswer, hinsert]; rfl
          -- The targets are not among the languages of the batch, so the batch closes no gap.
          have hlacks (l : LanguageId) : l ∈ targets d inputs ∧
              l ∉ (s.append item (inputs.map (·.draft)) actor).languagesOf item ↔
                l ∈ targets d inputs ∧ l ∉ s.languagesOf item := by
            rw [Store.mem_languagesOf_append, map_language_draft]
            refine and_congr_right fun hl => not_congr (or_iff_left ?_)
            exact fun hgiven => (mem_targets.mp hl).2 hgiven.2
          have hgiven := Store.gains_append s item (inputs.map (·.draft)) actor
          rw [hanswer, Flow.onward_ok]
          dsimp only
          rw [show (remaining d.active _).map (·.id) = targets d inputs from rfl, Flow.run_attempt]
          obtain ⟨copies, hnodup, hcopies, ⟨hsome, hfault, hrun⟩ | ⟨hwritable, t, hrun, hgains⟩⟩ :=
            derive_cases (s := s.append item (inputs.map (·.draft)) actor) d hitem
              (targets d inputs) source.text actor
          · rw [hrun]
            exact .halfway copies _ hvalid hitem hfree hnodup
              (fun l => (hcopies l).trans (hlacks l)) hsome hfault hgiven
          · rw [hrun]
            exact .done copies source t hvalid hitem hfree hnodup
              (fun l => (hcopies l).trans (hlacks l)) hwritable hsource (hgiven.trans hgains)

theorem create_ends (d : Directory) (s : Store) (item : ItemId) (inputs : List Submission)
    (actor : Actor) :
    Ends d s item inputs actor ((create item inputs actor).run.run (Store.answer d) s) := by
  rw [create.eq_def]
  split
  · exact .empty rfl
  · rename_i l hrepeat
    exact .repeated l (List.cons_ne_nil _ _) hrepeat
  · rename_i first rest honce
    rw [Flow.run_attempt]
    rcases requireLanguages_alone d s ((first :: rest).map (·.language)) with
      ⟨hknown, hrun⟩ | ⟨id, hid, hnone, hrun⟩
    · rw [hrun]
      have hbase : s.answer d (.language .base) = (.ok d.base, s) := rfl
      have hactive : s.answer d (.language .active) = (.ok d.active, s) := rfl
      dsimp only
      rw [Flow.run_baseLanguage_bind, Program.run_ask, hbase, Flow.onward_ok,
        Flow.run_activeLanguages_bind, Program.run_ask, hactive, Flow.onward_ok]
      have hvalid : Valid d (first :: rest) := ⟨List.cons_ne_nil _ _, honce, hknown⟩
      exact writeBatches_ends hvalid (source_spec d first rest) s item actor
    · rw [hrun]
      exact .unknown id (List.cons_ne_nil _ _) honce hid hnone

theorem Valid.nodup (h : Valid d inputs) : (inputs.map (·.language)).Nodup :=
  (firstRepeat_eq_none_iff.mp h.once).1

theorem repeatedLanguage_eq_none (h : (inputs.map (·.language)).Nodup) :
    repeatedLanguage inputs = none :=
  firstRepeat_eq_none_iff.mpr ⟨h, fun _ _ => List.not_mem_nil⟩

section

variable {out : Except Error Report × Store}

theorem Ends.invalid_iff (h : Ends d s item inputs actor out) :
    (∃ flaw, out.1 = .error (.invalid flaw)) ↔
      inputs = [] ∨ ¬ (inputs.map (·.language)).Nodup := by
  cases h with
  | empty h => exact iff_of_true ⟨_, rfl⟩ (Or.inl h)
  | repeated l hgiven h =>
      refine iff_of_true ⟨_, rfl⟩ (Or.inr fun hnodup => ?_)
      rw [repeatedLanguage_eq_none hnodup] at h
      cases h
  | unknown id hgiven honce =>
      exact iff_of_false (by simp) (by simp [hgiven, (firstRepeat_eq_none_iff.mp honce).1])
  | noItem hvalid =>
      exact iff_of_false (by simp [Error.noItem]) (by simp [hvalid.given, hvalid.nodup])
  | taken l hvalid => exact iff_of_false (by simp) (by simp [hvalid.given, hvalid.nodup])
  | halfway copies t hvalid =>
      exact iff_of_false (by simp) (by simp [hvalid.given, hvalid.nodup])
  | done copies source t hvalid =>
      exact iff_of_false (by simp) (by simp [hvalid.given, hvalid.nodup])

theorem Ends.of_invalid (h : Ends d s item inputs actor out)
    (hinvalid : inputs = [] ∨ ¬ (inputs.map (·.language)).Nodup) : out.2 = s := by
  obtain ⟨flaw, hflaw⟩ := h.invalid_iff.mpr hinvalid
  cases h with
  | halfway | done => cases hflaw
  | _ => rfl

theorem Ends.of_unknown (h : Ends d s item inputs actor out) (hgiven : inputs ≠ [])
    (hnodup : (inputs.map (·.language)).Nodup)
    (hunknown : ∃ id ∈ inputs.map (·.language), d.byId id = none) :
    ∃ id ∈ inputs.map (·.language), d.byId id = none ∧
      out = (.error (.notFound .language (toString id)), s) := by
  have hinvalid : ¬ Valid d inputs := by
    rintro ⟨-, -, hknown⟩
    obtain ⟨id, hid, hnone⟩ := hunknown
    simpa [hnone] using hknown id hid
  cases h with
  | empty h => exact absurd h hgiven
  | repeated l _ h =>
      rw [repeatedLanguage_eq_none hnodup] at h
      cases h
  | unknown id _ _ hid hnone => exact ⟨id, hid, hnone, rfl⟩
  | noItem hvalid | taken _ hvalid | halfway _ _ hvalid | done _ _ _ hvalid =>
      exact absurd hvalid hinvalid

theorem Ends.of_noItem (h : Ends d s item inputs actor out) (hvalid : Valid d inputs)
    (hno : s.items.contains item = false) : out = (.error (.noItem item), s) := by
  cases h with
  | empty h => exact absurd h hvalid.given
  | repeated l _ h => cases hvalid.once.symm.trans h
  | unknown id _ _ hid hnone => simpa [hnone] using hvalid.known id hid
  | noItem => rfl
  | taken _ _ hitem | halfway _ _ _ hitem | done _ _ _ _ hitem => cases hno.symm.trans hitem

theorem Ends.of_taken (h : Ends d s item inputs actor out) (hvalid : Valid d inputs)
    (hitem : s.items.contains item = true)
    (htaken : ∃ l ∈ inputs.map (·.language), l ∈ s.languagesOf item) :
    ∃ l ∈ inputs.map (·.language), l ∈ s.languagesOf item ∧
      out = (.error (.storage (.duplicate item l)), s) := by
  obtain ⟨l, hl, hltaken⟩ := htaken
  cases h with
  | empty h => exact absurd h hvalid.given
  | repeated l _ h => cases hvalid.once.symm.trans h
  | unknown id _ _ hid hnone => simpa [hnone] using hvalid.known id hid
  | noItem _ hno => cases hitem.symm.trans hno
  | taken l' _ _ hl' htaken => exact ⟨l', hl', htaken, rfl⟩
  | halfway _ _ _ _ hfree | done _ _ _ _ _ hfree => exact absurd hltaken (hfree l hl)

theorem Ends.of_free (h : Ends d s item inputs actor out) (hvalid : Valid d inputs)
    (hitem : s.items.contains item = true)
    (hfree : ∀ l ∈ inputs.map (·.language), l ∉ s.languagesOf item) :
    ∃ copies : List LanguageId, copies.Nodup ∧
      (∀ l, l ∈ copies ↔ l ∈ d.active.map (·.id) ∧ l ∉ inputs.map (·.language) ∧
        l ∉ s.languagesOf item) ∧
      if copies ≠ [] ∧ s.faults.copyInserts = true then
        out.1 = .error (.storage (.insert s.name)) ∧
          s.Gains item (inputs.map (·.draft)) actor out.2
      else ∃ source, Source d inputs source ∧
        out.1 = .ok ⟨inputs.length, copies.length, source.language⟩ ∧
          s.Gains item (inputs.map (·.draft) ++ copies.map (Draft.copy · source.text)) actor
            out.2 := by
  cases h with
  | empty h => exact absurd h hvalid.given
  | repeated l _ h => cases hvalid.once.symm.trans h
  | unknown id _ _ hid hnone => simpa [hnone] using hvalid.known id hid
  | noItem _ hno => cases hitem.symm.trans hno
  | taken l _ _ hl htaken => exact absurd htaken (hfree l hl)
  | halfway copies t _ _ _ hnodup hcopies hsome hfault hgains =>
      refine ⟨copies, hnodup, fun l => ?_, ?_⟩
      · rw [hcopies, mem_targets, and_assoc]
      · rw [if_pos ⟨hsome, hfault⟩]
        exact ⟨rfl, hgains⟩
  | done copies source t _ _ _ hnodup hcopies hwritable hsource hgains =>
      refine ⟨copies, hnodup, fun l => ?_, ?_⟩
      · rw [hcopies, mem_targets, and_assoc]
      · rw [if_neg]
        · exact ⟨source, hsource, rfl, hgains⟩
        · rintro ⟨hsome, hfault⟩
          rcases hwritable with hnone | hno
          · exact hsome hnone
          · cases hno.symm.trans hfault

end

/-- A creation that runs alone is invalid exactly if nothing or a language twice is given. Otherwise
it fails over a language that is missing or deleted, then over a missing item and then over a record
that stands in the way, and each time it leaves the store as it was. Otherwise the item gains a
pinned record for each text given, and a copy in each available language that has no record then.
The copies have the text in the available base language, if one is given, and else the first one.
Only where there are copies to be added and that fails does the item gain the pinned records
alone. -/
theorem create_completes_or_fails_fast (d : Directory) (s : Store) (item : ItemId)
    (inputs : List Submission) (actor : Actor) :
    let given := inputs.map (·.language)
    let out := (create item inputs actor).run.run (Store.answer d) s
    ((∃ flaw, out.1 = .error (.invalid flaw)) ↔ inputs = [] ∨ ¬ given.Nodup) ∧
    (inputs = [] ∨ ¬ given.Nodup → out.2 = s) ∧
    (inputs ≠ [] → given.Nodup →
      ((∃ id ∈ given, d.Lacks id) → ∃ id ∈ given, d.Lacks id ∧
        out = (.error (.notFound .language (toString id)), s)) ∧
      ((∀ id ∈ given, ¬ d.Lacks id) →
        (s.items.contains item = false → out = (.error (.noItem item), s)) ∧
        (s.items.contains item = true → (∃ l ∈ given, l ∈ s.languagesOf item) →
          ∃ l ∈ given, l ∈ s.languagesOf item ∧
            out = (.error (.storage (.duplicate item l)), s)) ∧
        (s.items.contains item = true → (∀ l ∈ given, l ∉ s.languagesOf item) →
          ∃ copies : List LanguageId, copies.Nodup ∧
            (∀ l, l ∈ copies ↔ l ∈ d.active.map (·.id) ∧ l ∉ given ∧ l ∉ s.languagesOf item) ∧
            if copies ≠ [] ∧ s.faults.copyInserts = true then
              out.1 = .error (.storage (.insert s.name)) ∧
                s.Gains item (inputs.map (·.draft)) actor out.2
            else ∃ source, Source d inputs source ∧
              out.1 = .ok ⟨inputs.length, copies.length, source.language⟩ ∧
                s.Gains item (inputs.map (·.draft) ++ copies.map (Draft.copy · source.text)) actor
                  out.2))) := by
  intro given out
  have hends : Ends d s item inputs actor out := create_ends d s item inputs actor
  refine ⟨hends.invalid_iff, hends.of_invalid, fun hgiven hnodup => ⟨?_, fun hknown => ?_⟩⟩
  · simp only [← Directory.byId_eq_none_iff]
    exact hends.of_unknown hgiven hnodup
  · have hvalid : Valid d inputs := ⟨hgiven, repeatedLanguage_eq_none hnodup,
      fun id hid => Directory.isSome_byId_iff.mpr (hknown id hid)⟩
    exact ⟨hends.of_noItem hvalid, hends.of_taken hvalid, hends.of_free hvalid⟩

end Creation

end Polyglot
