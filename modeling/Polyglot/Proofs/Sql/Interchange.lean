import Polyglot.Proofs.Sql.Correspondence

namespace Polyglot

inductive Error.Variant where
  | invalid
  | notFound
  | storage
deriving DecidableEq

def Error.variant : Error → Variant
  | .invalid _ => .invalid
  | .notFound _ _ => .notFound
  | .storage _ => .storage

namespace Sql

/-- Two replies succeed in the same way or fail with errors of one kind. -/
def Alike {α : Type} (same : α → α → Prop) : Except Error α → Except Error α → Prop
  | .ok a, .ok b => same a b
  | .error e, .error e' => e.variant = e'.variant
  | _, _ => False

/-- The records of some twins, from the table and from the store. -/
def SameRecords (twins : List Twin) (found kept : List Record) : Prop :=
  ∃ chosen ⊆ twins, found = chosen.map (·.stored) ∧ kept = chosen.map (·.record)

/-- A reply of the database and one of the store, with what they leave behind: the replies are
alike, and the table and the store are in the same state, in which every id stands for what it did
before. -/
def Interchanged {α : Type} (l : Layout) (referred : Referred) (twins : List Twin)
    (same : α → α → Prop) (asked : Except Error α × List Row) (told : Except Error α × Store) :
    Prop :=
  Alike same asked.1 told.1 ∧
    ∃ twins', twins.map (·.link) <+: twins'.map (·.link) ∧
      Corresponds l referred twins' asked.2 told.2

def ask (baseCode : String) (l : Layout) (referred : Referred) (m : Moment) (q : Query)
    (rows : List Row) : q.Reply × List Row :=
  (answer baseCode l q).run.run (l.respond referred m) rows

variable {l : Layout} {referred : Referred} {twins : List Twin} {rows : List Row} {s : Store}
  {m : Moment} {item : ItemId} {drafts : List Draft} {text : Text} {actor : Actor}
  {follows : Bool} {id id' : RecordId}

/-- The twins of an item, in the order of languages. -/
def twinsOf (item : ItemId) (twins : List Twin) : List Twin :=
  (twins.filter (·.record.item = item)).mergeSort fun t t' => t.record.language ≤ t'.record.language

theorem mem_twinsOf {t : Twin} : t ∈ twinsOf item twins ↔ t ∈ twins ∧ t.record.item = item := by
  simp [twinsOf]

theorem map_twinsOf (f : Twin → Record) (hitem : ∀ t, (f t).item = t.record.item)
    (hlanguage : ∀ t, (f t).language = t.record.language) :
    (twinsOf item twins).map f = ((twins.map f).filter (·.item = item)).mergeSort
      fun r r' => r.language ≤ r'.language := by
  have hitems : (fun r => decide (r.item = item)) ∘ f = fun t => decide (t.record.item = item) := by
    funext t
    rw [Function.comp_apply, hitem]
  rw [twinsOf, List.filter_map, hitems]
  refine List.map_mergeSort fun t _ t' _ => ?_
  rw [hlanguage, hlanguage]

section Ask

variable {baseCode : String}

theorem ask_overwriteCopy (htext : text.keys ⊆ l.textFields) :
    ask baseCode l referred m (.overwriteCopy id text actor) rows =
      ((l.respond referred m (l.overwriteOf id text actor) rows).1.count.map fun n =>
        decide (0 < n), (l.respond referred m (l.overwriteOf id text actor) rows).2) := by
  rw [ask, answer_overwriteCopy (Layout.overwriteExchange_eq_overwriteOf htext)]
  rfl

theorem ask_write (htext : text.keys ⊆ l.textFields) :
    ask baseCode l referred m (.write id text follows actor) rows =
      ((l.respond referred m (l.writeOf id text follows actor) rows).1.count >>= fun n =>
        if n = 0 then .error (.noRecord id) else .ok (),
        (l.respond referred m (l.writeOf id text follows actor) rows).2) := by
  rw [ask, answer_write (Layout.writeExchange_eq_writeOf htext)]
  rfl

theorem ask_insert (hdrafts : drafts ≠ []) (htexts : ∀ d ∈ drafts, d.text.keys ⊆ l.textFields) :
    ask baseCode l referred m (.insert item drafts actor) rows =
      ((l.respond referred m (l.insertOf item drafts actor) rows).1.count.map fun _ => (),
        (l.respond referred m (l.insertOf item drafts actor) rows).2) := by
  rw [ask, answer_insert hdrafts (Layout.insertExchange_eq_ok htexts)]
  rfl

theorem ask_records (hl : l.Feasible) (records : List Record) :
    ask baseCode l referred m (.records item) (records.map l.row) =
      ((((records.filter (·.item = item)).mergeSort fun r r' => r.language ≤ r'.language).map
        (l.rowUnder "content_id")).mapM (Row.record l.textFields), records.map l.row) := by
  rw [ask, answer_records, Program.run_ask, hl.respond_selectRecords]
  simp only [Program.run_done, Response.table, List.map_map, Function.comp_def, l.zip_outputNames]
  rfl

end Ask

theorem Corresponds.answer_records (h : Corresponds l referred twins rows s) (d : Directory) :
    s.answer d (.records item) = (.ok ((twinsOf item twins).map (·.record)), s) := by
  rw [map_twinsOf (·.record) (fun _ => rfl) fun _ => rfl, ← h.records]
  rfl

theorem Corresponds.ask_records (h : Corresponds l referred twins rows s) (hl : l.Feasible)
    (baseCode : String) :
    ask baseCode l referred m (.records item) rows =
      (((twinsOf item twins).map fun t => l.rowUnder "content_id" t.stored).mapM
        (Row.record l.textFields), rows) := by
  rw [h.rows, Sql.ask_records hl, ← map_twinsOf (·.stored) (fun _ => rfl) fun _ => rfl,
    List.map_map]
  rfl

section Hits

variable {α : Type} {as : List α} {p : α → Prop} [DecidablePred p]

theorem countP_decide_ne_zero {a : α} (ha : a ∈ as) (hp : p a) : as.countP (fun a => p a) ≠ 0 :=
  Nat.ne_of_gt (List.countP_pos_iff.mpr ⟨a, ha, decide_eq_true hp⟩)

theorem countP_decide_eq_zero (h : ∀ a ∈ as, ¬ p a) : as.countP (fun a => p a) = 0 :=
  List.countP_eq_zero.mpr fun a ha hp => h a ha (of_decide_eq_true hp)

theorem map_ite_of_forall_not (h : ∀ a ∈ as, ¬ p a) (f : α → α) :
    as.map (fun a => if p a then f a else a) = as := by
  conv_rhs => rw [← List.map_id as]
  exact List.map_congr_left fun a ha => if_neg (h a ha)

end Hits

variable (hl : l.Feasible) (h : Corresponds l referred twins rows s) (baseCode : String)
  (d : Directory)
include hl h

theorem write_interchanged (hclock : m.now = s.clock) (hlinked : Linked twins id id')
    (htext : text.keys ⊆ l.textFields) :
    Interchanged l referred twins (· = ·)
        (ask baseCode l referred m (.write id text follows actor) rows)
        (s.answer d (.write id' text follows actor)) := by
  have hadmits := h.admits hl
  rw [h.rows] at hadmits
  rw [ask_write htext, h.rows, hl.respond_writeOf hadmits]
  by_cases hid : ∃ r ∈ s.records, r.id = id'
  · have hhit : (twins.map (·.stored)).countP (·.id = id) ≠ 0 := by
      obtain ⟨t, ht, htid⟩ := (h.exists_twin_iff hlinked).mpr hid
      exact countP_decide_ne_zero (List.mem_map_of_mem ht) htid
    obtain ⟨r, hr, rfl⟩ := hid
    rw [Store.answer_write hr, hclock]
    refine ⟨?_, _, link_prefix_rewriteTwin .., h.put hlinked htext⟩
    show Alike _ (if _ then _ else _) _
    rw [if_neg hhit]
    rfl
  · have hnone : ∀ r ∈ twins.map (·.stored), ¬ r.id = id := by
      simpa using mt (h.exists_twin_iff hlinked).mp hid
    rw [Store.answer_write_of_absent hid text follows actor, map_ite_of_forall_not hnone]
    refine ⟨?_, twins, List.prefix_rfl, { h with rows := rfl }⟩
    show Alike _ (if _ then _ else _) _
    rw [if_pos (countP_decide_eq_zero hnone)]
    rfl

theorem overwriteCopy_interchanged_iff (hclock : m.now = s.clock) (hlinked : Linked twins id id')
    (htext : text.keys ⊆ l.textFields) :
    Interchanged l referred twins (· = ·)
        (ask baseCode l referred m (.overwriteCopy id text actor) rows)
        (s.answer d (.overwriteCopy id' text actor)) ↔ ∃ r ∈ s.records, r.id = id' := by
  have hadmits := h.admits hl
  rw [h.rows] at hadmits
  rw [ask_overwriteCopy htext, h.rows, hl.respond_overwriteOf hadmits]
  by_cases hid : ∃ r ∈ s.records, r.id = id'
  · refine iff_of_true ?_ hid
    obtain ⟨t, ht, htid⟩ := (h.exists_twin_iff hlinked).mpr hid
    obtain ⟨r, hr, rfl⟩ := hid
    -- the id decides alone: whether the one record that has it follows is known from the store
    have hown : ∀ t ∈ twins, t.id = id → t.record = r := fun t ht htid =>
      h.sound.eq_of_id (h.record_mem ht) hr ((hlinked t ht).mp htid)
    rw [h.sound.answer_overwriteCopy h.faults hr text actor]
    cases hfollows : r.follows with
    | true =>
        have hhit : (twins.map (·.stored)).countP (fun r => r.id = id ∧ r.follows = true) ≠ 0 :=
          countP_decide_ne_zero (List.mem_map_of_mem ht) ⟨htid, by simp [hown t ht htid, hfollows]⟩
        have hput : (twins.map (·.stored)).map (fun r => if r.id = id ∧ r.follows = true then
            r.rewritten text true actor m.now else r) = (twins.map (·.stored)).map fun r =>
            if r.id = id then r.rewritten text true actor s.clock else r := by
          rw [hclock]
          refine List.map_congr_left fun r' hr' => if_congr ?_ rfl rfl
          obtain ⟨t', ht', rfl⟩ := List.mem_map.mp hr'
          refine and_iff_left_of_imp fun hid => ?_
          rw [Twin.follows_stored, hown t' ht' hid, hfollows]
        rw [hput]
        refine ⟨?_, _, link_prefix_rewriteTwin .., h.put hlinked htext⟩
        exact decide_eq_true (Nat.pos_of_ne_zero hhit)
    | false =>
        have hnone : ∀ r ∈ twins.map (·.stored), ¬ (r.id = id ∧ r.follows = true) := by
          rintro r' hr' ⟨hid, hfollows'⟩
          obtain ⟨t', ht', rfl⟩ := List.mem_map.mp hr'
          rw [Twin.follows_stored, hown t' ht' hid, hfollows] at hfollows'
          cases hfollows'
        rw [map_ite_of_forall_not hnone]
        refine ⟨?_, twins, List.prefix_rfl, { h with rows := rfl }⟩
        exact decide_eq_false fun hpos => Nat.ne_of_gt hpos (countP_decide_eq_zero hnone)
  · rw [Store.answer_overwriteCopy_of_absent hid text actor]
    exact iff_of_false (fun hsame => hsame.1) hid

theorem insert_interchanged_iff (hclock : m.now = s.clock) (hfresh : m.Fresh twins)
    (hdrafts : drafts ≠ []) (hitem : item ∈ referred.items)
    (htexts : ∀ d ∈ drafts, d.text.keys ⊆ l.textFields) :
    Interchanged l referred twins (· = ·)
        (ask baseCode l referred m (.insert item drafts actor) rows)
        (s.answer d (.insert item drafts actor)) ↔
      (∀ d ∈ drafts, d.language ∈ referred.languages) ∨
        ¬ (s.languagesOf item ++ drafts.map (·.language)).Nodup := by
  have hcontains := (h.items item).mpr hitem
  rw [ask_insert hdrafts htexts, h.respond_insertOf hl, Layout.commit]
  by_cases hnodup : (s.languagesOf item ++ drafts.map (·.language)).Nodup
  · have hmemory : s.answer d (.insert item drafts actor) =
        (.ok (), s.append item drafts actor) :=
      Store.answer_insert h.faults hcontains ((h.sound.firstRepeat_eq_none_iff item _).mpr hnodup)
    rw [or_iff_left (not_not.mpr hnodup), hmemory]
    by_cases hlanguages : ∀ d ∈ drafts, d.language ∈ referred.languages
    · refine iff_of_true ?_ hlanguages
      have hsound := h.sound.becomes (Store.becomes_insert d item drafts actor)
      rw [hmemory] at hsound
      rw [if_pos ((h.admits_insert_iff hl hfresh hitem).mpr ⟨hnodup, hlanguages⟩)]
      refine ⟨rfl, _, ?_, h.append hclock hfresh hsound hlanguages htexts⟩
      rw [List.map_append]
      exact List.prefix_append _ _
    · rw [if_neg fun hin => hlanguages ((h.admits_insert_iff hl hfresh hitem).mp hin).2]
      exact iff_of_false (fun hsame => hsame.1) hlanguages
  · -- a clash is seen on both sides, whatever the languages are
    refine iff_of_true ?_ (Or.inr hnodup)
    obtain ⟨language, hclash⟩ : ∃ language, s.answer d (.insert item drafts actor) =
        (.error (.storage (.duplicate item language)), s) :=
      Store.answer_insert_of_clash h.faults hcontains
        (mt (h.sound.firstRepeat_eq_none_iff item _).mp hnodup)
    rw [hclash, if_neg fun hin => hnodup ((h.admits_insert_iff hl hfresh hitem).mp hin).1]
    exact ⟨rfl, twins, List.prefix_rfl, h⟩

theorem records_interchanged_iff (item : ItemId) :
    Interchanged l referred twins (SameRecords twins)
        (ask baseCode l referred m (.records item) rows) (s.answer d (.records item)) ↔
      "content_id" ∉ l.textFields ∨ ∀ r ∈ s.records, r.item ≠ item := by
  have hstate : ∃ twins', twins.map (·.link) <+: twins'.map (·.link) ∧
      Corresponds l referred twins' rows s := ⟨twins, List.prefix_rfl, h⟩
  rw [h.answer_records, h.ask_records hl]
  by_cases hfield : "content_id" ∈ l.textFields
  · rw [or_iff_right (not_not.mpr hfield)]
    constructor
    · -- the first row of the item cannot be read, so that the whole reply is an error
      rintro ⟨halike, -⟩ r hr hitem
      rw [h.records] at hr
      obtain ⟨t, ht, rfl⟩ := List.mem_map.mp hr
      obtain ⟨first, rest, hsplit⟩ := List.exists_cons_of_ne_nil
        (List.ne_nil_of_mem (mem_twinsOf.mpr ⟨ht, hitem⟩))
      rw [hsplit, List.map_cons, List.mapM_cons,
        Layout.record_rowUnder_eq_undecodable hfield] at halike
      exact halike
    · intro hnone
      have hempty : twinsOf item twins = [] :=
        List.eq_nil_iff_forall_not_mem.mpr fun t ht =>
          hnone t.record (h.record_mem (mem_twinsOf.mp ht).1) (mem_twinsOf.mp ht).2
      rw [hempty]
      exact ⟨⟨[], List.nil_subset _, rfl, rfl⟩, hstate⟩
  · refine iff_of_true ⟨?_, hstate⟩ (Or.inl hfield)
    have hread : ((twinsOf item twins).map fun t => l.rowUnder "content_id" t.stored).mapM
        (Row.record l.textFields) = .ok ((twinsOf item twins).map (·.stored)) := by
      rw [List.mapM_map]
      refine mapM_eq_ok fun t ht => hl.record_rowUnder hfield ?_
      exact h.texts t.record (h.record_mem (mem_twinsOf.mp ht).1)
    rw [hread]
    exact ⟨twinsOf item twins, fun t ht => (mem_twinsOf.mp ht).1, rfl, rfl⟩

omit hl h

/-- When the record table of a database and a store in memory can stand in for one another. Every
state of the table is that of some store, and from one state both go to one state and reply alike,
with three exceptions: records of an item cannot be read if a text field is called like the item's
column in results; the store takes languages that are not in the table of languages; and it fails
where a copy is to be overwritten that is not there. -/
theorem interchangeable_iff (hl : l.Feasible) (referred : Referred) :
    (∀ rows : List Row, (∀ row ∈ rows, row.map (·.1) = l.columnNames) → l.Admits referred rows →
      ∃ twins s, Corresponds l referred twins rows s) ∧
    ∀ (twins : List Twin) (rows : List Row) (s : Store) (m : Moment) (baseCode : String)
      (d : Directory), Corresponds l referred twins rows s → m.now = s.clock → m.Fresh twins →
      (∀ item, Interchanged l referred twins (SameRecords twins)
          (ask baseCode l referred m (.records item) rows) (s.answer d (.records item)) ↔
        "content_id" ∉ l.textFields ∨ ∀ r ∈ s.records, r.item ≠ item) ∧
      (∀ item drafts actor, drafts ≠ [] → item ∈ referred.items →
        (∀ d ∈ drafts, d.text.keys ⊆ l.textFields) →
        (Interchanged l referred twins (· = ·)
            (ask baseCode l referred m (.insert item drafts actor) rows)
            (s.answer d (.insert item drafts actor)) ↔
          (∀ d ∈ drafts, d.language ∈ referred.languages) ∨
            ¬ (s.languagesOf item ++ drafts.map (·.language)).Nodup)) ∧
      (∀ id id' text actor, Linked twins id id' → text.keys ⊆ l.textFields →
        (Interchanged l referred twins (· = ·)
            (ask baseCode l referred m (.overwriteCopy id text actor) rows)
            (s.answer d (.overwriteCopy id' text actor)) ↔ ∃ r ∈ s.records, r.id = id')) ∧
      ∀ id id' text follows actor, Linked twins id id' → text.keys ⊆ l.textFields →
        Interchanged l referred twins (· = ·)
          (ask baseCode l referred m (.write id text follows actor) rows)
          (s.answer d (.write id' text follows actor)) := by
  refine ⟨fun rows => exists_corresponds hl, ?_⟩
  intro twins rows s m baseCode d h hclock hfresh
  refine ⟨records_interchanged_iff hl h baseCode d, ?_, ?_, ?_⟩
  · intro item drafts actor hdrafts hitem htexts
    exact insert_interchanged_iff hl h baseCode d hclock hfresh hdrafts hitem htexts
  · intro id id' text actor hlinked htext
    exact overwriteCopy_interchanged_iff hl h baseCode d hclock hlinked htext
  · intro id id' text follows actor hlinked htext
    exact write_interchanged hl h baseCode d hclock hlinked htext

def tale (id : RecordId) (language : LanguageId) (follows : Bool) : Record :=
  ⟨id, 7, language, .ofList [("title", "Once")], follows, "ann", "ann", 3, 4⟩

def tales : List Twin := [⟨21, tale 1 1 false⟩, ⟨22, tale 2 2 true⟩]

def taleStore : Store :=
  ⟨"story", .ofList [(7, true)], [tale 1 1 false, tale 2 2 true], 3, 5, .none⟩

def taleRows : List Row := (tales.map (·.stored)).map Layout.story.row

theorem corresponds_tales : Corresponds .story ⟨[7], [1, 2, 3]⟩ tales taleRows taleStore where
  rows := rfl
  records := rfl
  ids := by decide
  sound := by
    refine ⟨by decide, by decide, by decide, by decide, by decide⟩
  faults := rfl
  items item := by
    have hitems : taleStore.items = SortedMap.empty.insert 7 true := rfl
    simp [hitems, SortedMap.contains]
  languages := by decide
  texts := by decide

theorem feasible_story : Layout.story.Feasible := by
  have hvalid : Layout.story.validate = .ok () := by decide
  exact ((Layout.validate_eq_ok_iff _).mp hvalid).feasible_iff.mpr (by decide)

def taleMoment : Moment := ⟨5, fun k => 30 + k⟩

theorem fresh_taleMoment : taleMoment.Fresh tales where
  injective k k' h := by simpa [taleMoment] using h
  unused k t ht := by
    have hid : t.id < 30 := by
      revert t
      decide
    exact fun heq => Int.not_lt.mpr (Int.le_add_of_nonneg_right (Int.natCast_nonneg k)) (heq ▸ hid)

/-- The tales are read, a third language is inserted, the copy is overwritten, and a record that is
not there is not written. -/
theorem tales_interchanged :
    let asked (q : Query) := ask "en" .story ⟨[7], [1, 2, 3]⟩ taleMoment q taleRows
    let told (q : Query) := taleStore.answer (.withBase "en") q
    let text : Text := .ofList [("summary", "A tale")]
    Layout.story.Feasible ∧ Layout.story.Admits ⟨[7], [1, 2, 3]⟩ taleRows ∧
      (∃ twins s, Corresponds .story ⟨[7], [1, 2, 3]⟩ twins taleRows s) ∧
      Corresponds .story ⟨[7], [1, 2, 3]⟩ tales taleRows taleStore ∧ taleMoment.Fresh tales ∧
      Interchanged .story ⟨[7], [1, 2, 3]⟩ tales (SameRecords tales) (asked (.records 7))
        (told (.records 7)) ∧
      Interchanged .story ⟨[7], [1, 2, 3]⟩ tales (· = ·) (asked (.insert 7 [.copy 3 text] "ben"))
        (told (.insert 7 [.copy 3 text] "ben")) ∧
      Interchanged .story ⟨[7], [1, 2, 3]⟩ tales (· = ·) (asked (.overwriteCopy 22 text "ben"))
        (told (.overwriteCopy 2 text "ben")) ∧
      Interchanged .story ⟨[7], [1, 2, 3]⟩ tales (· = ·) (asked (.write 99 text true "ben"))
        (told (.write 99 text true "ben")) := by
  intro asked told text
  have hadmits := corresponds_tales.admits feasible_story
  obtain ⟨hstore, hsame⟩ := interchangeable_iff feasible_story ⟨[7], [1, 2, 3]⟩
  obtain ⟨hrecords, hinsert, hoverwrite, hwrite⟩ := hsame tales taleRows taleStore taleMoment "en"
    (.withBase "en") corresponds_tales rfl fresh_taleMoment
  refine ⟨feasible_story, hadmits, hstore taleRows (by decide) hadmits, corresponds_tales,
    fresh_taleMoment, (hrecords 7).mpr ?_, (hinsert 7 [.copy 3 text] "ben" ?_ ?_ ?_).mpr ?_,
    (hoverwrite 22 2 text "ben" ?_ ?_).mpr ?_, hwrite 99 99 text true "ben" ?_ ?_⟩
  · exact Or.inl (by decide)
  · decide
  · decide
  · simpa [Draft.copy] using (by decide : text.keys ⊆ Layout.story.textFields)
  · exact Or.inl (by decide)
  all_goals decide

/-- A record that is gone when its copy is to be overwritten: the database has written nothing, the
store fails. -/
theorem absent_copy_not_interchanged :
    let asked := ask "en" .story ⟨[7], [1, 2, 3]⟩ taleMoment
      (.overwriteCopy 99 (.ofList [("title", "Twice")]) "ben") taleRows
    let told := taleStore.answer (.withBase "en")
      (.overwriteCopy 99 (.ofList [("title", "Twice")]) "ben")
    Corresponds .story ⟨[7], [1, 2, 3]⟩ tales taleRows taleStore ∧ Linked tales 99 99 ∧
      asked.1 = .ok false ∧ told.1 = .error (.noRecord 99) ∧
      ¬ Interchanged .story ⟨[7], [1, 2, 3]⟩ tales (· = ·) asked told := by
  intro asked told
  have hasked : asked.1 = .ok false := by decide
  have htold : told.1 = .error (.noRecord 99) := by decide
  refine ⟨corresponds_tales, by decide, hasked, htold, fun hsame => ?_⟩
  have halike := hsame.1
  rw [hasked, htold] at halike
  exact halike

end Sql

end Polyglot
