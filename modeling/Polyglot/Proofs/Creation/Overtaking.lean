import Polyglot.Proofs.Creation.Company
import Polyglot.Proofs.Pool.Schedule
import Polyglot.Proofs.Reconciliation.Recovery

namespace Polyglot

def World.size (w : World) (type : String) : Nat := (w.store? type).elim 0 (·.records.length)

namespace Creation

open Program (Asked)

/-- The creation asks for the records of its item. -/
def Reads (type : String) (item : ItemId) (x : Asked Call World) : Prop :=
  x.own = true ∧ x.question = .content type (.records item)

instance (type : String) (item : ItemId) : DecidablePred (Reads type item) :=
  fun x => inferInstanceAs (Decidable (x.own = true ∧ x.question = .content type (.records item)))

/-- Before the creation's first call here a pass adds a record to the item. -/
def Forestalled (type : String) (item : ItemId) (log : List (Asked Call World)) : Prop :=
  ∃ x ∈ log.takeWhile (!·.own), Gains type item x

/-- Between the creation's reading of the item and its next call a pass adds a record. -/
def Overtaken (type : String) (item : ItemId) (log : List (Asked Call World)) : Prop :=
  Forestalled type item ((log.dropWhile (¬ Reads type item ·)).drop 1)

def inserted (type : String) (log : List (Asked Call World)) : Nat :=
  ((log.filter (·.own)).map fun x =>
    (World.answer x.question x.state).2.size type - x.state.size type).sum

def Prelude (type : String) (log : List (Asked Call World)) : Prop :=
  ∀ x ∈ log, x.own = true → ∃ l, x.question = .content type (.language l)

/-- How the adding of copies to the store `s` ends: all are there, or they were refused. -/
structure Derived (d : Directory) (item : ItemId) (s : Store) (report : Report)
    (overtaken : Prop) (result : Except Error Report) (t : Store) : Prop where
  pinned : ∀ r ∈ s.records, r.follows = false → r ∈ t.records
  grown : s.languagesOf item ⊆ t.languagesOf item
  complete : ¬ overtaken →
    result = .ok report ∧ ∀ l ∈ d.active.map (·.id), l ∈ t.languagesOf item
  refused : overtaken → ∃ language, result = .error (.storage (.duplicate item language))

def Reaches (d : Directory) (type : String) (item : ItemId) (s : Store)
    (left : Service (Except Error Report)) (log : List (Asked Call World))
    (result : Except Error Report) (v : World) : Prop :=
  ∃ (looked rest : List (Asked Call World)) (t : Store), log = looked ++ rest ∧
    Prelude type looked ∧ Drift d item s t ∧ Accompanied d type item t left rest result v

section

variable {d : Directory} {type : String} {item : ItemId} {w v : World} {s t : Store}
  {log log' : List (Asked Call World)} {x : Asked Call World}

theorem Overtaken.append_iff (h : ∀ x ∈ log, ¬ Reads type item x) :
    Overtaken type item (log ++ log') ↔ Overtaken type item log' := by
  rw [Overtaken, List.dropWhile_append_of_pos (by simpa using h)]
  rfl

theorem Overtaken.cons_iff (h : Reads type item x) :
    Overtaken type item (x :: log) ↔ Forestalled type item log := by
  rw [Overtaken, List.dropWhile_cons_of_neg (by simpa using h)]
  rfl

theorem not_overtaken (h : ∀ x ∈ log, ¬ Reads type item x) : ¬ Overtaken type item log := by
  rw [← List.append_nil log, Overtaken.append_iff h]
  rintro ⟨x, hx, _⟩
  cases hx

theorem forestalled_iff (h : ∀ x ∈ log, x.own = false) :
    Forestalled type item log ↔ ∃ x ∈ log, Gains type item x := by
  rw [Forestalled, List.takeWhile_eq_self_iff.mpr (by simpa using h)]

theorem forestalled_append_iff (h : ∀ x ∈ log, x.own = false) (hx : x.own = true) :
    Forestalled type item (log ++ x :: log') ↔ ∃ x ∈ log, Gains type item x := by
  rw [Forestalled, List.takeWhile_append_of_pos (by simpa using h),
    List.takeWhile_cons_of_neg (by simpa using hx), List.append_nil]

theorem inserted_append (type : String) (log log' : List (Asked Call World)) :
    inserted type (log ++ log') = inserted type log + inserted type log' := by
  simp [inserted]

theorem inserted_cons (hx : x.own = true) :
    inserted type (x :: log) =
      ((World.answer x.question x.state).2.size type - x.state.size type) + inserted type log := by
  simp [inserted, hx]

theorem Prelude.nil (type : String) : Prelude type [] := by
  intro x hx
  cases hx

theorem Prelude.of_not_own (h : ∀ x ∈ log, x.own = false) : Prelude type log := by
  intro x hx hown
  rw [h x hx] at hown
  cases hown

theorem Prelude.not_reads (h : Prelude type log) : ∀ x ∈ log, ¬ Reads type item x := by
  rintro x hx ⟨hown, hreads⟩
  obtain ⟨l, hl⟩ := h x hx hown
  rw [hl] at hreads
  cases hreads

theorem Prelude.inserted_eq_zero (h : Prelude type log) : inserted type log = 0 := by
  refine List.sum_eq_zero fun n hn => ?_
  obtain ⟨x, hx, rfl⟩ := List.mem_map.mp hn
  obtain ⟨hx, hown⟩ := List.mem_filter.mp hx
  obtain ⟨l, hl⟩ := h x hx hown
  rw [hl, World.size, World.size, World.store?_answer]
  cases x.state.store? type <;> simp [Call.at, Store.answer]

theorem Scene.size (h : Scene d type item w s) : w.size type = s.records.length := by
  rw [World.size, h.store, Option.elim_some]

theorem Scene.size_answer (h : Scene d type item w s) (q : Query) :
    (World.answer (.content type q) w).2.size type = (s.answer d q).2.records.length := by
  have hat : (Call.content type q).at d type s = (s.answer d q).2 := if_pos rfl
  rw [(h.answer (.content type q)).size, hat]

theorem Scene.refuse (h : Scene d type item w s) {drafts : List Draft} (actor : Actor)
    {language : LanguageId}
    (hrepeat : firstRepeat (s.languagesOf item) (drafts.map (·.language)) = some language) :
    s.answer d (.insert item drafts actor) =
      (.error (.storage (.duplicate item language)), s) := by
  simp [Store.answer, Store.insert, Store.settle, h.faults, h.item, Faults.none, hrepeat]

end

section

variable {d : Directory} {type : String} {item : ItemId} {v : World} {s : Store}
  {log : List (Asked Call World)} {result : Except Error Report} {actor : Actor} {text : Text}
  {report : Nat → Report}

/-- A batch is inserted as a whole, or refused for a record in one of its languages. -/
theorem Accompanied.insert {drafts : List Draft} {f : Unit → Attempt Report}
    (h : Accompanied d type item s (Flow.on type (Flow.insert item drafts actor >>= f).run) log
      result v) :
    ∃ asked rest t, log = asked ++ rest ∧ (∀ x ∈ asked, ¬ Reads type item x) ∧
      Drift d item s t ∧
      (Forestalled type item log ↔ ¬ t.languagesOf item ⊆ s.languagesOf item) ∧
      ((firstRepeat (t.languagesOf item) (drafts.map (·.language)) = none ∧
          inserted type log = drafts.length + inserted type rest ∧
          Accompanied d type item (t.append item drafts actor) (Flow.on type (f ()).run) rest
            result v) ∨
        ∃ language,
          firstRepeat (t.languagesOf item) (drafts.map (·.language)) = some language ∧
            result = .error (.storage (.duplicate item language)) ∧
              ∃ u, Scene d type item v u ∧ Drift d item s u) := by
  rw [Flow.run_insert_bind, Flow.on_ask] at h
  obtain ⟨between, w, rest, t, rfl, hquiet, hw, hdrift, hgains, hrest⟩ := h.ask
  have hprelude : Prelude type between := .of_not_own hquiet
  refine ⟨between ++ [⟨true, .content type (.insert item drafts actor), w⟩], rest, t, by simp, ?_,
    hdrift, (forestalled_append_iff hquiet rfl).trans hgains, ?_⟩
  · intro x hx
    rcases List.mem_append.mp hx with hx | hx
    · exact hprelude.not_reads x hx
    · rw [List.mem_singleton.mp hx]
      rintro ⟨-, hreads⟩
      cases hreads
  · cases hrepeat : firstRepeat (t.languagesOf item) (drafts.map (·.language)) with
    | none =>
        have hanswer : t.answer d (.insert item drafts actor) =
            (.ok (), t.append item drafts actor) :=
          Store.answer_insert hw.faults hw.item hrepeat
        rw [hanswer] at hrest
        refine Or.inl ⟨rfl, ?_, hrest⟩
        rw [inserted_append, inserted_cons rfl, hw.size_answer, hw.size, hanswer,
          hprelude.inserted_eq_zero]
        simp [Store.append, Store.length_enrol]
    | some language =>
        rw [hw.refuse actor hrepeat] at hrest
        obtain ⟨rfl, -, u, hv, hdrift', -⟩ := hrest.done
        exact Or.inr ⟨language, rfl, rfl, u, hv, hdrift.trans hdrift'⟩

/-- Copies in the languages that were missing are added, unless a record has come since. It is in a
language that was missing as well, so that it is in the way of the copies, whichever it is. -/
theorem insertCopies_beside {missed : List LanguageId}
    (h : Accompanied d type item s (Flow.on type (Flow.insert item (missed.map (Draft.copy · text))
      actor >>= fun _ => (pure (report missed.length) : Attempt Report)).run) log result v)
    (hnodup : missed.Nodup) (hfree : ∀ l ∈ missed, l ∉ s.languagesOf item)
    (hcovers : ∀ l ∈ d.active.map (·.id), l ∈ s.languagesOf item ∨ l ∈ missed) :
    ∃ t, Scene d type item v t ∧
      Derived d item s (report (inserted type log)) (Forestalled type item log) result t := by
  have hlanguages : (missed.map (Draft.copy · text)).map (·.language) = missed := by
    rw [List.map_map]
    exact List.map_id missed
  obtain ⟨_, rest, s₁, -, -, hdrift, hforestalled, hrest⟩ := h.insert
  rw [hlanguages] at hrest
  rw [hforestalled]
  rcases hrest with ⟨hrepeat, hcount, hrest⟩ | ⟨language, hrepeat, hresult, t, hv, hdrift'⟩
  · have hold : s₁.languagesOf item ⊆ s.languagesOf item := by
      intro l hl
      by_contra hout
      have hmissed : l ∈ missed :=
        (hcovers l ((hdrift.offered l hl).resolve_left hout)).resolve_left hout
      exact (firstRepeat_eq_none_iff.mp hrepeat).2 l hmissed hl
    obtain ⟨rfl, hquiet, t, hv, hdrift', -⟩ := hrest.done
    rw [hcount, (Prelude.of_not_own hquiet).inserted_eq_zero, List.length_map, Nat.add_zero]
    have hgrown {l : LanguageId} (hl : l ∈ s.languagesOf item ∨ l ∈ missed) :
        l ∈ t.languagesOf item := by
      refine hdrift'.grown ((Store.mem_languagesOf_append s₁ item _ actor).mpr ?_)
      rw [hlanguages]
      exact hl.imp (hdrift.grown ·) fun hl => ⟨rfl, hl⟩
    refine ⟨t, hv, fun r hr hpinned => ?_, fun l hl => hgrown (Or.inl hl),
      fun _ => ⟨rfl, fun l hl => hgrown (hcovers l hl)⟩, fun hnew => absurd hold hnew⟩
    exact hdrift'.pinned r (List.mem_append_left _ (hdrift.pinned r hr hpinned)) hpinned
  · refine ⟨t, hv, hdrift'.pinned, hdrift'.grown, fun hold => ?_, fun _ => ⟨language, hresult⟩⟩
    have hnone : firstRepeat (s₁.languagesOf item) missed = none :=
      firstRepeat_eq_none_iff.mpr
        ⟨hnodup, fun l hl hin => hfree l hl (not_not.mp hold hin)⟩
    rw [hnone] at hrepeat
    cases hrepeat

theorem fillGaps_beside {targets : List LanguageId}
    (h : Accompanied d type item s (Flow.on type (Copies.fillGaps item (s.recordsOf item) targets
      text actor >>= fun n => (pure (report n) : Attempt Report)).run) log result v)
    (htargets : ∀ l ∈ d.active.map (·.id), l ∈ s.languagesOf item ∨ l ∈ targets) :
    ∃ t, Scene d type item v t ∧
      Derived d item s (report (inserted type log)) (Forestalled type item log) result t := by
  have hgaps : ∀ l ∈ d.active.map (·.id), l ∈ s.languagesOf item ∨
      l ∈ Copies.missing ((s.recordsOf item).map (·.language)) targets := by
    intro l hl
    rcases htargets l hl with hl | hl
    · exact Or.inl hl
    · exact (Copies.mem_missing _ hl).imp_left Store.mem_map_language_recordsOf.mp
  obtain ⟨hnodup, hfree⟩ := Copies.missing_spec ((s.recordsOf item).map (·.language)) targets
  rw [Copies.fillGaps] at h
  generalize Copies.missing _ targets = gaps at h hgaps hnodup hfree
  cases gaps with
  | nil =>
      have hcovered : ∀ l ∈ d.active.map (·.id), l ∈ s.languagesOf item := fun l hl =>
        (hgaps l hl).resolve_right List.not_mem_nil
      rw [pure_bind] at h
      obtain ⟨rfl, hquiet, t, hv, hdrift, hgains⟩ := h.done
      have hnone : ¬ Forestalled type item log := by
        rw [forestalled_iff hquiet, hgains, not_not]
        exact fun l hl => (hdrift.offered l hl).elim id (hcovered l)
      rw [(Prelude.of_not_own hquiet).inserted_eq_zero]
      refine ⟨t, hv, hdrift.pinned, hdrift.grown, fun _ => ⟨rfl, fun l hl => ?_⟩, fun hsome => ?_⟩
      · exact hdrift.grown (hcovered l hl)
      · exact absurd hsome hnone
  | cons gap gaps =>
      dsimp only at h
      rw [bind_assoc] at h
      refine insertCopies_beside h hnodup (fun l hl hold => ?_) hgaps
      exact hfree l hl (Store.mem_map_language_recordsOf.mpr hold)

theorem derive_beside (report : Nat → Report) {targets : List LanguageId}
    (h : Accompanied d type item s (Flow.on type (derive item targets text actor >>= fun n =>
      (pure (report n) : Attempt Report)).run) log result v)
    (htargets : ∀ l ∈ d.active.map (·.id), l ∈ s.languagesOf item ∨ l ∈ targets) :
    ∃ t, Scene d type item v t ∧
      Derived d item s (report (inserted type log)) (Overtaken type item log) result t := by
  rw [derive.eq_def] at h
  cases targets with
  | nil =>
      dsimp only at h
      rw [pure_bind] at h
      obtain ⟨rfl, hquiet, t, hv, hdrift, -⟩ := h.done
      have hprelude : Prelude type log := .of_not_own hquiet
      rw [hprelude.inserted_eq_zero]
      refine ⟨t, hv, hdrift.pinned, hdrift.grown, fun _ => ⟨rfl, fun l hl => ?_⟩, fun hsome => ?_⟩
      · exact hdrift.grown ((htargets l hl).resolve_right List.not_mem_nil)
      · exact absurd hsome (not_overtaken hprelude.not_reads)
  | cons target targets =>
      dsimp only at h
      rw [bind_assoc, Flow.run_records_bind, Flow.on_ask] at h
      obtain ⟨between, w, rest, s₁, rfl, hquiet, hw, hdrift, -, hrest⟩ := h.ask
      have hprelude : Prelude type between := .of_not_own hquiet
      have hread : s₁.answer d (.records item) = (.ok (s₁.recordsOf item), s₁) := rfl
      obtain ⟨t, hv, hderived⟩ := fillGaps_beside hrest fun l hl =>
        (htargets l hl).imp_left (hdrift.grown ·)
      have hcount : inserted type (between ++ ⟨true, .content type (.records item), w⟩ :: rest) =
          inserted type rest := by
        rw [inserted_append, inserted_cons rfl, hw.size_answer, hw.size, hread,
          hprelude.inserted_eq_zero, Nat.sub_self, Nat.zero_add, Nat.zero_add]
      rw [hcount, Overtaken.append_iff hprelude.not_reads, Overtaken.cons_iff ⟨rfl, rfl⟩]
      refine ⟨t, hv, fun r hr hpinned => ?_, fun l hl => ?_, hderived.complete, hderived.refused⟩
      · exact hderived.pinned r (hdrift.pinned r hr hpinned) hpinned
      · exact hderived.grown (hdrift.grown hl)

theorem Reaches.look {l : Lookup}
    {next : (Query.language l).Reply → Service (Except Error Report)}
    (h : Reaches d type item s (.ask (.content type (.language l)) next) log result v) :
    Reaches d type item s (next (.ok (d.answer l))) log result v := by
  obtain ⟨looked, rest, t, rfl, hlooked, hdrift, hleft⟩ := h
  obtain ⟨between, w, rest, t', rfl, hquiet, -, hdrift', -, hrest⟩ := hleft.ask
  refine ⟨looked ++ between ++ [⟨true, .content type (.language l), w⟩], rest, t', by simp, ?_,
    hdrift.trans hdrift', hrest⟩
  intro x hx hown
  rcases List.mem_append.mp hx with hx | hx
  · rcases List.mem_append.mp hx with hx | hx
    · exact hlooked x hx hown
    · exact Prelude.of_not_own hquiet x hx hown
  · rw [List.mem_singleton.mp hx]
    exact ⟨l, rfl⟩

theorem Reaches.requireLanguages {ids : List LanguageId} {f : Unit → Attempt Report}
    (h : Reaches d type item s (Flow.on type (requireLanguages ids >>= f).run) log result v)
    (hknown : ∀ id ∈ ids, (d.byId id).isSome = true) :
    Reaches d type item s (Flow.on type (f ()).run) log result v := by
  induction ids with
  | nil => exact h
  | cons id rest ih =>
      obtain ⟨language, hlanguage⟩ := Option.isSome_iff_exists.mp (hknown id List.mem_cons_self)
      rw [Creation.requireLanguages, bind_assoc, Flow.run_languageById_bind, Flow.on_ask] at h
      have hnext := h.look
      rw [show d.answer (.byId id) = some language from hlanguage] at hnext
      exact ih hnext fun id' hid' => hknown id' (List.mem_cons_of_mem id hid')

theorem Reaches.create {inputs : List Submission}
    (h : Reaches d type item s (Flow.on type (create item inputs actor).run) log result v)
    (hvalid : Valid d inputs) :
    ∃ base, Reaches d type item s
      (Flow.on type (writeBatches item inputs d.active base actor).run) log result v := by
  obtain ⟨hgiven, honce, hknown⟩ := hvalid
  rw [create.eq_def] at h
  split at h
  · exact absurd rfl hgiven
  · rename_i hrepeat
    rw [hrepeat] at honce
    cases honce
  · rename_i first rest _
    have hlooked := h.requireLanguages hknown
    rw [Flow.run_baseLanguage_bind, Flow.on_ask] at hlooked
    have hbase := hlooked.look
    rw [Flow.onward_ok, Flow.run_activeLanguages_bind, Flow.on_ask] at hbase
    exact ⟨_, hbase.look⟩

theorem writeBatches_beside {inputs : List Submission} {base : Submission}
    (h : Accompanied d type item s (Flow.on type
      (writeBatches item inputs d.active base actor).run) log result v)
    (hnone : s.languagesOf item = []) (honce : repeatedLanguage inputs = none) :
    ∃ t, Scene d type item v t ∧
      (∀ input ∈ inputs, input.language ∈ t.languagesOf item ∧
        ∃ id now, input.draft.record item actor now id ∈ t.records) ∧
      (¬ Overtaken type item log → ∃ report, result = .ok report ∧
        report.given = inputs.length ∧ report.given + report.derived = inserted type log ∧
          ∀ l ∈ d.active.map (·.id), l ∈ t.languagesOf item) ∧
      (Overtaken type item log →
        ∃ language, result = .error (.storage (.duplicate item language))) := by
  have hlanguages : (inputs.map (·.draft)).map (·.language) = inputs.map (·.language) :=
    List.map_map
  rw [writeBatches] at h
  obtain ⟨asked, rest, s₁, rfl, hasked, hdrift, -, hrest⟩ := h.insert
  rw [hlanguages, hdrift.founded hnone] at hrest
  rcases hrest with ⟨-, hcount, hrest⟩ | ⟨language, hrepeat, -⟩
  · have hgiven {l : LanguageId} (hl : l ∈ inputs.map (·.language)) :
        l ∈ (s₁.append item (inputs.map (·.draft)) actor).languagesOf item :=
      (Store.mem_languagesOf_append s₁ item _ actor).mpr (Or.inr ⟨rfl, hlanguages ▸ hl⟩)
    have htargets : ∀ l ∈ d.active.map (·.id),
        l ∈ (s₁.append item (inputs.map (·.draft)) actor).languagesOf item ∨
          l ∈ targets d inputs := by
      intro l hl
      by_cases hin : l ∈ inputs.map (·.language)
      · exact Or.inl (hgiven hin)
      · exact Or.inr (mem_targets.mpr ⟨hl, hin⟩)
    obtain ⟨t, hv, hderived⟩ :=
      derive_beside (fun n => ⟨inputs.length, n, base.language⟩) hrest htargets
    rw [hcount, List.length_map, Overtaken.append_iff hasked]
    refine ⟨t, hv, fun input hinput => ⟨?_, ?_⟩, fun hnot => ?_, hderived.refused⟩
    · exact hderived.grown (hgiven (List.mem_map_of_mem hinput))
    · obtain ⟨id, hid⟩ := Store.mem_enrol_of_mem item actor s₁.clock s₁.nextId
        (List.mem_map_of_mem (f := Submission.draft) hinput)
      exact ⟨id, s₁.clock, hderived.pinned _ (List.mem_append_right _ hid) rfl⟩
    · obtain ⟨hresult, hcovered⟩ := hderived.complete hnot
      exact ⟨_, hresult, rfl, rfl, hcovered⟩
  · rw [show firstRepeat [] _ = none from honce] at hrepeat
    cases hrepeat

end

/-- A valid creation for an item without records, beside any number of passes. What the caller gave
is there at the end. The creation succeeds and leaves one record in every available language if and
only if no pass overtakes it; otherwise its copies are refused. -/
theorem create_beside_passes {w v : World} {s : Store} {type : String} {item : ItemId}
    {inputs : List Submission} {actor : Actor} {passes : List Job}
    {log : List (Asked Call World)} {result : Except Error Report}
    (hstore : w.store? type = some s) (hsound : s.Sound) (hfaults : s.faults = .none)
    (hlive : s.live item = true) (hfree : ∀ r ∈ s.records, r.item ≠ item)
    (hvalid : Valid w.directory inputs)
    (hpasses : ∀ job ∈ passes, ∃ target passer, job.PassesOver target passer)
    (hrun : Program.Beside World.answer (Flow.on type (create item inputs actor).run)
      (passes.map Job.program) w log result v) :
    ∃ t, v.store? type = some t ∧
      (∀ input ∈ inputs, (t.languagesOf item).count input.language = 1 ∧
        ∃ id now, input.draft.record item actor now id ∈ t.records) ∧
      ((∃ report, result = .ok report ∧ report.given = inputs.length ∧
          report.given + report.derived = inserted type log ∧
          ∀ language ∈ w.directory.active, (t.languagesOf item).count language.id = 1) ↔
        ¬ Overtaken type item log) ∧
      (Overtaken type item log →
        ∃ language, result = .error (.storage (.duplicate item language))) := by
  have hitem : s.items.contains item = true := by
    rw [SortedMap.contains, beq_iff_eq.mp hlive]
    rfl
  have hscene : Scene w.directory type item w s := ⟨rfl, hstore, hsound, hfaults, hitem⟩
  have hcompany : Company w.directory type item (passes.map Job.program) w := by
    intro p hp
    obtain ⟨job, hjob, rfl⟩ := List.mem_map.mp hp
    obtain ⟨target, passer, hpass⟩ := hpasses job hjob
    exact ⟨[], hpass.background, .nil _ _ _ _⟩
  have hreaches : Reaches w.directory type item s
      (Flow.on type (create item inputs actor).run) log result v :=
    ⟨[], log, s, rfl, .nil type, .refl _ _ _, _, w, hscene, hcompany, hrun⟩
  obtain ⟨base, looked, rest, s₁, rfl, hlooked, hdrift, hleft⟩ := hreaches.create hvalid
  obtain ⟨t, hv, hgiven, hcomplete, hrefused⟩ :=
    writeBatches_beside hleft (hdrift.founded (Store.languagesOf_eq_nil hfree)) hvalid.once
  have hone {l : LanguageId} (hl : l ∈ t.languagesOf item) : (t.languagesOf item).count l = 1 :=
    List.count_eq_one_of_mem (hv.sound.nodup_languagesOf item) hl
  rw [inserted_append, hlooked.inserted_eq_zero, Nat.zero_add,
    Overtaken.append_iff hlooked.not_reads]
  refine ⟨t, hv.store, fun input hinput => ?_, ⟨?_, fun hnot => ?_⟩, hrefused⟩
  · obtain ⟨hl, hrecord⟩ := hgiven input hinput
    exact ⟨hone hl, hrecord⟩
  · rintro ⟨report, rfl, -⟩ hovertaken
    obtain ⟨language, herror⟩ := hrefused hovertaken
    cases herror
  · obtain ⟨report, hresult, hreport, hcount, hcovered⟩ := hcomplete hnot
    exact ⟨report, hresult, hreport, hcount, fun language hactive =>
      hone (hcovered language.id (List.mem_map_of_mem hactive))⟩

end Creation

namespace Bilingual

def blank : World := ⟨directory, [(Store.named "page").addItem 7]⟩

def greeting : List Submission := [⟨1, title "Hello"⟩]

def greet (turns : List (List Nat)) :
    List (Program.Asked Call World) × Except Error Creation.Report × World :=
  (Flow.on "page" (Creation.create 7 greeting "ann").run).play World.answer turns
    [(Job.reconcile "page" "sync").program] blank

/-- The pass goes over the page after the English text is there and before it is read again. -/
def passEarly : List (List Nat) := List.replicate 4 [] ++ [List.replicate 5 0]

/-- The pass goes over the page after it was read again. -/
def passLate : List (List Nat) := List.replicate 5 [] ++ [List.replicate 5 0]

theorem valid_greeting : Creation.Valid directory greeting := ⟨by decide, by decide, by decide⟩

theorem beside_greet (turns : List (List Nat)) :
    Program.Beside World.answer (Flow.on "page" (Creation.create 7 greeting "ann").run)
      ([Job.reconcile "page" "sync"].map Job.program) blank (greet turns).1 (greet turns).2.1
      (greet turns).2.2 :=
  Program.beside_play _ turns _ blank

end Bilingual

namespace Creation

open Bilingual in
theorem early_pass_saves_the_copy :
    (greet passEarly).2.1 = .ok ⟨1, 0, 1⟩ ∧ ¬ Overtaken "page" 7 (greet passEarly).1 ∧
      ∃ t, (greet passEarly).2.2.store? "page" = some t ∧
        ∀ language ∈ directory.active, (t.languagesOf 7).count language.id = 1 := by
  have hsound : ((Store.named "page").addItem 7).Sound := (Store.sound_named "page").addItem 7
  have hfree : ∀ r ∈ ((Store.named "page").addItem 7).records, r.item ≠ 7 := by
    intro r hr
    cases hr
  have hpasses : ∀ job ∈ [Job.reconcile "page" "sync"],
      ∃ target passer, job.PassesOver target passer := by
    intro job hjob
    rw [List.mem_singleton.mp hjob]
    exact ⟨_, _, .reconcile "page" "sync"⟩
  have hresult : (greet passEarly).2.1 = .ok ⟨1, 0, 1⟩ := by cbv
  obtain ⟨t, ht, -, hiff, hrefused⟩ := create_beside_passes (w := blank) rfl hsound rfl rfl
    hfree valid_greeting hpasses (beside_greet passEarly)
  have hnot : ¬ Overtaken "page" 7 (greet passEarly).1 := by
    intro hovertaken
    obtain ⟨language, herror⟩ := hrefused hovertaken
    rw [hresult] at herror
    cases herror
  obtain ⟨_, -, -, -, hone⟩ := hiff.mpr hnot
  exact ⟨hresult, hnot, t, ht, hone⟩

open Bilingual in
theorem late_pass_spoils_the_copies :
    directory.base = some ⟨1, "en", "English", true, false⟩ ∧
      1 ∈ greeting.map (·.language) ∧ Valid directory greeting ∧
      blank.store? "page" = some ((Store.named "page").addItem 7) ∧
      ((Store.named "page").addItem 7).faults = .none ∧
      ((Store.named "page").addItem 7).live 7 = true ∧
      ((Store.named "page").addItem 7).records = [] ∧
      Program.Beside World.answer (Flow.on "page" (create 7 greeting "ann").run)
        ([Job.reconcile "page" "sync"].map Job.program) blank (greet passLate).1
        (.error (.storage (.duplicate 7 2))) (greet passLate).2.2 := by
  have hresult : (greet passLate).2.1 = .error (.storage (.duplicate 7 2)) := by cbv
  have hrun := beside_greet passLate
  rw [hresult] at hrun
  exact ⟨rfl, by decide, valid_greeting, rfl, rfl, rfl, rfl, hrun⟩

end Creation

end Polyglot
