import Polyglot.Proofs.Sql.Row
import Polyglot.Proofs.Store.Place

/-!
A store in memory beside the record table of a database. They are in the same state when they hold
the same records, each side with ids of its own; every state of the table is that of some store, and
the two stay in the same state when both make the same change.
-/

namespace Polyglot

namespace Sql

/-- A record of a store with the id that it has in the table. -/
structure Twin where
  id : RecordId
  record : Record
deriving DecidableEq

namespace Twin

def stored (t : Twin) : Record := { t.record with id := t.id }

@[simp] theorem id_stored (t : Twin) : t.stored.id = t.id := rfl

@[simp] theorem language_stored (t : Twin) : t.stored.language = t.record.language := rfl

@[simp] theorem follows_stored (t : Twin) : t.stored.follows = t.record.follows := rfl

def link (t : Twin) : RecordId × RecordId := (t.id, t.record.id)

def place (t : Twin) : ItemId × LanguageId := (t.record.item, t.record.language)

def rewritten (t : Twin) (text : Text) (follows : Bool) (actor : Actor) (now : Instant) : Twin :=
  { t with record := t.record.rewritten text follows actor now }

end Twin

def rewriteTwin (id : RecordId) (text : Text) (follows : Bool) (actor : Actor) (now : Instant)
    (twins : List Twin) : List Twin :=
  twins.map fun t => if t.id = id then t.rewritten text follows actor now else t

/-- The table and the store are in the same state, but for the ids of their records. -/
structure Corresponds (l : Layout) (referred : Referred) (twins : List Twin) (rows : List Row)
    (s : Store) : Prop where
  rows : rows = (twins.map (·.stored)).map l.row
  records : s.records = twins.map (·.record)
  ids : (twins.map (·.id)).Nodup
  sound : s.Sound
  faults : s.faults = .none
  items : ∀ item, s.items.contains item = true ↔ item ∈ referred.items
  languages : ∀ r ∈ s.records, r.language ∈ referred.languages
  texts : ∀ r ∈ s.records, r.text.keys ⊆ l.textFields

/-- The ids that the sequence gives next are new and differ. -/
structure Moment.Fresh (m : Moment) (twins : List Twin) : Prop where
  injective : Function.Injective m.ids
  unused : ∀ k, ∀ t ∈ twins, m.ids k ≠ t.id

/-- Two ids are of twins, or of nothing in the table and of nothing in the store. -/
def Linked (twins : List Twin) (id id' : RecordId) : Prop :=
  ∀ t ∈ twins, t.id = id ↔ t.record.id = id'

instance (twins : List Twin) (id id' : RecordId) : Decidable (Linked twins id id') :=
  inferInstanceAs (Decidable (∀ t ∈ twins, t.id = id ↔ t.record.id = id'))

variable {l : Layout} {referred : Referred} {twins : List Twin} {rows : List Row} {s : Store}
  {m : Moment} {item : ItemId} {drafts : List Draft} {text : Text} {actor : Actor}
  {follows : Bool} {id id' : RecordId}

theorem map_rewriteTwin {β : Type} {now : Instant} (f : Twin → β)
    (hf : ∀ t, f (t.rewritten text follows actor now) = f t) :
    (rewriteTwin id text follows actor now twins).map f = twins.map f := by
  rw [rewriteTwin, List.map_map]
  refine List.map_congr_left fun t _ => ?_
  rw [Function.comp_apply, apply_ite f, hf, ite_self]

theorem link_prefix_rewriteTwin (id : RecordId) (text : Text) (follows : Bool) (actor : Actor)
    (now : Instant) (twins : List Twin) :
    twins.map (·.link) <+: (rewriteTwin id text follows actor now twins).map (·.link) :=
  (map_rewriteTwin (·.link) fun _ => rfl).symm ▸ List.prefix_rfl

/-- The twins of a batch that is inserted. -/
def newTwins (m : Moment) (item : ItemId) (drafts : List Draft) (actor : Actor) (next : RecordId) :
    List Twin :=
  drafts.mapIdx fun k d => ⟨m.ids k, d.record item actor m.now (next + k)⟩

theorem map_newTwins {β : Type} (f : Twin → β) (next : RecordId) :
    (newTwins m item drafts actor next).map f =
      drafts.mapIdx fun k d => f ⟨m.ids k, d.record item actor m.now (next + k)⟩ := by
  refine List.ext_getElem? fun k => ?_
  simp [newTwins, List.getElem?_mapIdx, Function.comp_def]

theorem Moment.Fresh.nodup_ids (h : m.Fresh twins) (hids : (twins.map (·.id)).Nodup)
    (next : RecordId) : ((twins ++ newTwins m item drafts actor next).map (·.id)).Nodup := by
  have hnew : (newTwins m item drafts actor next).map (·.id) =
      (List.range drafts.length).map m.ids := by
    refine List.ext_getElem (by simp [newTwins]) fun k _ _ => ?_
    simp [newTwins]
  rw [List.map_append, hnew, List.nodup_append']
  refine ⟨hids, List.nodup_range.map h.injective, fun id hold hid => ?_⟩
  obtain ⟨t, ht, rfl⟩ := List.mem_map.mp hold
  obtain ⟨k, -, hk⟩ := List.mem_map.mp hid
  exact h.unused k t ht hk

theorem map_place_newTwins (next : RecordId) :
    (newTwins m item drafts actor next).map (·.place) =
      (drafts.map (·.language)).map (Prod.mk item) := by
  rw [map_newTwins]
  refine List.ext_getElem? fun k => ?_
  simp [List.getElem?_mapIdx, Twin.place, Draft.record, Function.comp_def]

theorem admits_twins_iff (hl : l.Feasible) :
    l.Admits referred ((twins.map (·.stored)).map l.row) ↔ (twins.map (·.id)).Nodup ∧
      (twins.map (·.place)).Nodup ∧ ∀ place ∈ twins.map (·.place),
        place.1 ∈ referred.items ∧ place.2 ∈ referred.languages := by
  rw [hl.admits_iff, List.map_map, List.map_map, List.forall_mem_map, List.forall_mem_map]
  rfl

namespace Corresponds

theorem record_mem (h : Corresponds l referred twins rows s) {t : Twin} (ht : t ∈ twins) :
    t.record ∈ s.records := by
  rw [h.records]
  exact List.mem_map_of_mem ht

theorem map_place (h : Corresponds l referred twins rows s) :
    twins.map (·.place) = s.records.map fun r => (r.item, r.language) := by
  rw [h.records, List.map_map]
  rfl

theorem referred_of_place (h : Corresponds l referred twins rows s) :
    ∀ place ∈ twins.map (·.place), place.1 ∈ referred.items ∧ place.2 ∈ referred.languages := by
  intro place hplace
  obtain ⟨t, ht, rfl⟩ := List.mem_map.mp hplace
  exact ⟨(h.items t.record.item).mp (h.sound.items t.record (h.record_mem ht)),
    h.languages t.record (h.record_mem ht)⟩

theorem admits (h : Corresponds l referred twins rows s) (hl : l.Feasible) :
    l.Admits referred rows := by
  rw [h.rows, admits_twins_iff hl]
  refine ⟨h.ids, ?_, h.referred_of_place⟩
  rw [h.map_place]
  exact h.sound.keys_nodup

/-- Which batches the constraints of the table let in. -/
theorem admits_insert_iff (h : Corresponds l referred twins rows s) (hl : l.Feasible)
    (hfresh : m.Fresh twins) (hitem : item ∈ referred.items) :
    l.Admits referred
        (((twins ++ newTwins m item drafts actor s.nextId).map (·.stored)).map l.row) ↔
      (s.languagesOf item ++ drafts.map (·.language)).Nodup ∧
        ∀ d ∈ drafts, d.language ∈ referred.languages := by
  have hplaces : (twins ++ newTwins m item drafts actor s.nextId).map (·.place) =
      s.records.map (fun r => (r.item, r.language)) ++
        (drafts.map (·.language)).map (Prod.mk item) := by
    rw [List.map_append, h.map_place, map_place_newTwins]
  rw [admits_twins_iff hl, and_iff_right (hfresh.nodup_ids h.ids s.nextId), hplaces,
    h.sound.nodup_keys_append_iff, List.forall_mem_append, ← h.map_place,
    and_iff_right h.referred_of_place]
  simp [hitem]

theorem put (h : Corresponds l referred twins rows s) (hlinked : Linked twins id id')
    (htext : text.keys ⊆ l.textFields) :
    Corresponds l referred (rewriteTwin id text follows actor s.clock twins)
      (((twins.map (·.stored)).map fun r =>
        if r.id = id then r.rewritten text follows actor s.clock else r).map l.row)
      (s.put id' text follows actor) := by
  refine ⟨congrArg (List.map l.row) ?_, ?_, ?_, h.sound.put id' text follows actor, h.faults,
    h.items, ?_, ?_⟩
  · -- the table picks the row by one id and the store the record by the other
    rw [rewriteTwin, List.map_map, List.map_map]
    refine List.map_congr_left fun t _ => ?_
    rw [Function.comp_apply, Function.comp_apply, apply_ite Twin.stored]
    rfl
  · rw [Store.put, h.records, rewriteTwin, List.map_map, List.map_map]
    refine List.map_congr_left fun t ht => ?_
    rw [Function.comp_apply, Function.comp_apply, apply_ite Twin.record]
    exact if_congr (hlinked t ht).symm rfl rfl
  · rw [map_rewriteTwin (·.id) fun _ => rfl]
    exact h.ids
  · intro r hr
    rcases Store.mem_put.mp hr with ⟨hr, -⟩ | ⟨r₀, hr₀, -, rfl⟩
    · exact h.languages r hr
    · exact h.languages r₀ hr₀
  · intro r hr
    rcases Store.mem_put.mp hr with ⟨hr, -⟩ | ⟨r₀, hr₀, -, rfl⟩
    · exact h.texts r hr
    · exact htext

theorem append (h : Corresponds l referred twins rows s) (hclock : m.now = s.clock)
    (hfresh : m.Fresh twins) (hsound : (s.append item drafts actor).Sound)
    (hlanguages : ∀ d ∈ drafts, d.language ∈ referred.languages)
    (htexts : ∀ d ∈ drafts, d.text.keys ⊆ l.textFields) :
    Corresponds l referred (twins ++ newTwins m item drafts actor s.nextId)
      (((twins ++ newTwins m item drafts actor s.nextId).map (·.stored)).map l.row)
      (s.append item drafts actor) := by
  refine ⟨rfl, ?_, hfresh.nodup_ids h.ids s.nextId, hsound, h.faults, h.items, ?_, ?_⟩
  · rw [Store.append, h.records, List.map_append, map_newTwins, Store.enrol_eq_mapIdx, hclock]
  · intro r hr
    rcases List.mem_append.mp hr with hr | hr
    · exact h.languages r hr
    · obtain ⟨d, hd, n, -, rfl⟩ := Store.mem_enrol hr
      exact hlanguages d hd
  · intro r hr
    rcases List.mem_append.mp hr with hr | hr
    · exact h.texts r hr
    · obtain ⟨d, hd, n, -, rfl⟩ := Store.mem_enrol hr
      exact htexts d hd

theorem respond_insertOf (h : Corresponds l referred twins rows s) (hl : l.Feasible) :
    l.respond referred m (l.insertOf item drafts actor) rows = l.commit referred rows
      (((twins ++ newTwins m item drafts actor s.nextId).map (·.stored)).map l.row)
      drafts.length := by
  have hadded : twins.map (·.stored) ++ (drafts.mapIdx fun k d =>
      d.record item actor m.now (m.ids k)) =
        (twins ++ newTwins m item drafts actor s.nextId).map (·.stored) := by
    rw [List.map_append, map_newTwins]
    rfl
  rw [h.rows, hl.respond_insertOf, hadded]

theorem exists_twin_iff (h : Corresponds l referred twins rows s)
    (hlinked : Linked twins id id') :
    (∃ t ∈ twins, t.id = id) ↔ ∃ r ∈ s.records, r.id = id' := by
  rw [h.records]
  constructor
  · rintro ⟨t, ht, hid⟩
    exact ⟨t.record, List.mem_map_of_mem ht, (hlinked t ht).mp hid⟩
  · rintro ⟨r, hr, hid⟩
    obtain ⟨t, ht, rfl⟩ := List.mem_map.mp hr
    exact ⟨t, ht, (hlinked t ht).mpr hid⟩

end Corresponds

theorem exists_items (items : List ItemId) :
    ∃ kept : SortedMap ItemId Bool, ∀ item, kept.contains item = true ↔ item ∈ items := by
  induction items with
  | nil => exact ⟨.empty, fun _ => by simp [SortedMap.contains]⟩
  | cons first rest ih =>
      obtain ⟨kept, hkept⟩ := ih
      refine ⟨kept.insert first true, fun item => ?_⟩
      by_cases heq : item = first
      · simp [SortedMap.contains, heq]
      · rw [List.mem_cons, or_iff_right heq, ← hkept]
        simp [SortedMap.contains, heq]

/-- The records of a table with ids that are counted up from 1. -/
def numbered (records : List Record) : List Twin :=
  records.mapIdx fun k r => ⟨r.id, { r with id := 1 + k }⟩

theorem map_numbered {β : Type} {f : Twin → β} {g : Record → β} (records : List Record)
    (h : ∀ (r : Record) (k : RecordId), f ⟨r.id, { r with id := k }⟩ = g r) :
    (numbered records).map f = records.map g := by
  refine List.ext_getElem? fun k => ?_
  simp [numbered, List.getElem?_mapIdx, Function.comp_def, h]

theorem mem_numbered {records : List Record} {t : Twin} (h : t ∈ numbered records) :
    ∃ r ∈ records, ∃ k : Nat, k < records.length ∧ t = ⟨r.id, { r with id := 1 + k }⟩ := by
  obtain ⟨k, hk, rfl⟩ := List.mem_mapIdx.mp h
  exact ⟨records[k], List.getElem_mem hk, k, hk, rfl⟩

/-- The store of the records of a table. -/
def storeOf (items : SortedMap ItemId Bool) (records : List Record) : Store :=
  ⟨"", items, (numbered records).map (·.record), 1 + records.length, 0, .none⟩

theorem mem_storeOf {items : SortedMap ItemId Bool} {records : List Record} {r : Record}
    (h : r ∈ (storeOf items records).records) :
    ∃ r₀ ∈ records, ∃ k : Nat, k < records.length ∧ r = { r₀ with id := 1 + k } := by
  obtain ⟨t, ht, rfl⟩ := List.mem_map.mp h
  obtain ⟨r₀, hr₀, k, hk, rfl⟩ := mem_numbered ht
  exact ⟨r₀, hr₀, k, hk, rfl⟩

theorem sound_storeOf {records : List Record} {items : SortedMap ItemId Bool}
    (hplaces : (records.map fun r => (r.item, r.language)).Nodup)
    (hitems : ∀ r ∈ records, items.contains r.item = true) : (storeOf items records).Sound where
  first := Int.le_add_of_nonneg_right (Int.natCast_nonneg _)
  ids r hr := by
    obtain ⟨r₀, -, k, hk, rfl⟩ := mem_storeOf hr
    exact ⟨Int.le_add_of_nonneg_right (Int.natCast_nonneg _),
      Int.add_lt_add_left (Int.ofNat_lt.mpr hk) 1⟩
  ids_nodup := by
    have hids : (storeOf items records).records.map (·.id) =
        (List.range records.length).map fun k : Nat => (1 + k : Int) := by
      refine List.ext_getElem (by simp [storeOf, numbered]) fun k _ _ => ?_
      simp [storeOf, numbered]
    rw [hids]
    exact List.nodup_range.map fun k k' h => by simpa using h
  keys_nodup := by
    have hkept : (storeOf items records).records.map (fun r => (r.item, r.language)) =
        records.map fun r => (r.item, r.language) := by
      rw [storeOf, List.map_map]
      exact map_numbered records fun _ _ => rfl
    rw [hkept]
    exact hplaces
  items r hr := by
    obtain ⟨r₀, hr₀, k, -, rfl⟩ := mem_storeOf hr
    exact hitems r₀ hr₀

/-- Every state of the table is that of some store. -/
theorem exists_corresponds (hl : l.Feasible)
    (hcolumns : ∀ row ∈ rows, row.map (·.1) = l.columnNames)
    (hadmits : l.Admits referred rows) : ∃ twins s, Corresponds l referred twins rows s := by
  obtain ⟨records, rfl, htexts⟩ := hl.exists_records hcolumns hadmits.typed
  obtain ⟨items, hitems⟩ := exists_items referred.items
  obtain ⟨hids, hplaces, hreferred⟩ := hl.admits_iff.mp hadmits
  refine ⟨numbered records, storeOf items records, ?_, rfl, ?_, ?_, rfl, hitems, ?_, ?_⟩
  · rw [map_numbered (g := id) records fun _ _ => rfl, List.map_id]
  · rwa [map_numbered records fun _ _ => rfl]
  · exact sound_storeOf hplaces fun r hr => (hitems r.item).mpr (hreferred r hr).1
  · intro r hr
    obtain ⟨r₀, hr₀, k, -, rfl⟩ := mem_storeOf hr
    exact (hreferred r₀ hr₀).2
  · intro r hr
    obtain ⟨r₀, hr₀, k, -, rfl⟩ := mem_storeOf hr
    exact htexts r₀ hr₀

end Sql

end Polyglot
