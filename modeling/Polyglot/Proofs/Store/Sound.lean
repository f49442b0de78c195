import Mathlib.Data.Int.Cast.Lemmas
import Mathlib.Data.List.Nodup
import Polyglot.Store.Basic

namespace Polyglot

theorem find?_of_nodup_map {α κ : Type} [DecidableEq κ] {f : α → κ} {l : List α}
    (hnodup : (l.map f).Nodup) {a : α} (ha : a ∈ l) {k : κ} (hk : f a = k) :
    l.find? (f · = k) = some a := by
  cases hfind : l.find? (f · = k) with
  | none => simpa [hk] using List.find?_eq_none.mp hfind a ha
  | some b =>
      have hb : f b = k := by simpa using List.find?_some hfind
      rw [List.inj_on_of_nodup_map hnodup (List.mem_of_find?_eq_some hfind) ha (hb.trans hk.symm)]

/-- The record with another text, as a write leaves it. -/
def Record.rewritten (r : Record) (text : Text) (follows : Bool) (actor : Actor)
    (now : Instant) : Record :=
  { r with text, follows, updatedBy := actor, updatedAt := now }

namespace Store

variable {s t u : Store}

theorem mem_recordsOf {item : ItemId} {r : Record} :
    r ∈ s.recordsOf item ↔ r ∈ s.records ∧ r.item = item := by
  simp [recordsOf]

theorem mem_languagesOf {item : ItemId} {language : LanguageId} :
    language ∈ s.languagesOf item ↔ ∃ r ∈ s.records, r.item = item ∧ r.language = language := by
  simp [languagesOf, and_assoc]

theorem mem_map_language_recordsOf {item : ItemId} {language : LanguageId} :
    language ∈ (s.recordsOf item).map (·.language) ↔ language ∈ s.languagesOf item := by
  simp [mem_recordsOf, mem_languagesOf, and_assoc]

theorem languagesOf_eq_nil {item : ItemId} (h : ∀ r ∈ s.records, r.item ≠ item) :
    s.languagesOf item = [] := by
  refine List.eq_nil_iff_forall_not_mem.mpr fun language hlanguage => ?_
  obtain ⟨r, hr, hitem, _⟩ := mem_languagesOf.mp hlanguage
  exact h r hr hitem

theorem nodup_liveItems (s : Store) : s.liveItems.Nodup := by
  have hkeys := (s.items.sorted.filter fun e => e.2).map Prod.fst fun _ _ hlt => Int.ne_of_lt hlt
  exact hkeys

theorem mem_liveItems {item : ItemId} : item ∈ s.liveItems ↔ s.live item = true := by
  rw [live, beq_iff_eq, SortedMap.get?_eq_some_iff]
  simp [liveItems]

theorem mem_put {id : RecordId} {text : Text} {follows : Bool} {actor : Actor} {r : Record} :
    r ∈ (s.put id text follows actor).records ↔
      (r ∈ s.records ∧ r.id ≠ id) ∨
        ∃ r₀ ∈ s.records, r₀.id = id ∧ r = r₀.rewritten text follows actor s.clock := by
  simp only [put, List.mem_map]
  constructor
  · rintro ⟨r₀, hr₀, heq⟩
    by_cases hid : r₀.id = id
    · rw [if_pos hid] at heq
      exact Or.inr ⟨r₀, hr₀, hid, heq.symm⟩
    · rw [if_neg hid] at heq
      subst heq
      exact Or.inl ⟨hr₀, hid⟩
  · rintro (⟨hr, hid⟩ | ⟨r₀, hr₀, hid, rfl⟩)
    · exact ⟨r, hr, if_neg hid⟩
    · exact ⟨r₀, hr₀, if_pos hid⟩

theorem mem_enrol {item : ItemId} {actor : Actor} {now : Instant} {id : RecordId}
    {drafts : List Draft} {r : Record} (h : r ∈ enrol item actor now id drafts) :
    ∃ d ∈ drafts, ∃ n : Nat, n < drafts.length ∧ r = d.record item actor now (id + n) := by
  induction drafts generalizing id with
  | nil => simp [enrol] at h
  | cons d rest ih =>
      rcases List.mem_cons.mp h with rfl | h
      · exact ⟨d, List.mem_cons_self, 0, by simp, by simp⟩
      · obtain ⟨d', hd', n, hn, rfl⟩ := ih h
        refine ⟨d', List.mem_cons_of_mem d hd', n + 1, by simpa using hn, ?_⟩
        rw [Nat.cast_add_one, add_comm (n : Int) 1, add_assoc]

theorem mem_enrol_of_mem (item : ItemId) (actor : Actor) (now : Instant) (id : RecordId)
    {drafts : List Draft} {draft : Draft} (h : draft ∈ drafts) :
    ∃ id', draft.record item actor now id' ∈ enrol item actor now id drafts := by
  induction drafts generalizing id with
  | nil => cases h
  | cons first rest ih =>
      rcases List.mem_cons.mp h with rfl | h
      · exact ⟨id, List.mem_cons_self⟩
      · obtain ⟨id', hid'⟩ := ih (id + 1) h
        exact ⟨id', List.mem_cons_of_mem _ hid'⟩

theorem enrol_eq_mapIdx (item : ItemId) (actor : Actor) (now : Instant) (id : RecordId)
    (drafts : List Draft) :
    enrol item actor now id drafts =
      drafts.mapIdx fun k d => d.record item actor now (id + k) := by
  induction drafts generalizing id with
  | nil => rfl
  | cons d rest ih =>
      rw [enrol, ih, List.mapIdx_cons, Nat.cast_zero, Int.add_zero]
      simp only [Nat.cast_add_one, Int.add_assoc, Int.add_comm 1]

/-- What a store can become when it is asked `q`. -/
inductive Becomes (s : Store) : Query → Store → Prop where
  | same (q : Query) : Becomes s q s
  | inserted (item : ItemId) (drafts : List Draft) (actor : Actor)
      (hitem : s.items.contains item = true)
      (hnodup : (drafts.map (·.language)).Nodup)
      (hfree : ∀ d ∈ drafts, ∀ r ∈ s.records, r.item = item → r.language ≠ d.language) :
      Becomes s (.insert item drafts actor) (s.append item drafts actor)
  | overwritten (r : Record) (text : Text) (actor : Actor) (hr : r ∈ s.records)
      (hfollows : r.follows = true) :
      Becomes s (.overwriteCopy r.id text actor) (s.put r.id text true actor)
  | written (r : Record) (text : Text) (follows : Bool) (actor : Actor) (hr : r ∈ s.records) :
      Becomes s (.write r.id text follows actor) (s.put r.id text follows actor)

theorem becomes_insert (d : Directory) (item : ItemId) (drafts : List Draft) (actor : Actor) :
    s.Becomes (.insert item drafts actor) (s.answer d (.insert item drafts actor)).2 := by
  simp only [answer, insert]
  split
  · exact .same _
  · split
    · exact .same _
    · rename_i hitem
      split
      · exact .same _
      · rename_i hrepeat
        obtain ⟨hnodup, hfree⟩ := firstRepeat_eq_none_iff.mp hrepeat
        refine .inserted item drafts actor (by simpa using hitem) hnodup ?_
        intro d hd r hr hr' heq
        refine hfree d.language (List.mem_map_of_mem hd) ?_
        exact List.mem_map.mpr ⟨r, List.mem_filter.mpr ⟨hr, by simpa using hr'⟩, heq⟩

theorem becomes_overwriteCopy (d : Directory) (id : RecordId) (text : Text) (actor : Actor) :
    s.Becomes (.overwriteCopy id text actor) (s.answer d (.overwriteCopy id text actor)).2 := by
  simp only [answer, overwriteCopy]
  cases hr : s.record? id with
  | none => exact .same _
  | some r =>
      have hid : r.id = id := by simpa using List.find?_some hr
      dsimp only
      split_ifs with hfault hfollows
      · exact .same _
      · subst hid
        exact .overwritten r text actor (List.mem_of_find?_eq_some hr) hfollows
      · exact .same _

theorem becomes_write (d : Directory) (id : RecordId) (text : Text) (follows : Bool)
    (actor : Actor) :
    s.Becomes (.write id text follows actor) (s.answer d (.write id text follows actor)).2 := by
  simp only [answer, write]
  cases hr : s.record? id with
  | none => exact .same _
  | some r =>
      have hid : r.id = id := by simpa using List.find?_some hr
      subst hid
      exact .written r text follows actor (List.mem_of_find?_eq_some hr)

theorem becomes_answer (d : Directory) (q : Query) : s.Becomes q (s.answer d q).2 := by
  cases q with
  | insert item drafts actor => exact becomes_insert d item drafts actor
  | overwriteCopy id text actor => exact becomes_overwriteCopy d id text actor
  | write id text follows actor => exact becomes_write d id text follows actor
  | language l => exact .same _
  | items => exact .same _
  | hasItem item => exact .same _
  | records item => exact .same _

theorem isSome_record? {r : Record} (hr : r ∈ s.records) : (s.record? r.id).isSome = true := by
  rw [record?, List.find?_isSome]
  exact ⟨r, hr, by simp⟩

theorem record?_eq_none {id : RecordId} (h : ¬ ∃ r ∈ s.records, r.id = id) :
    s.record? id = none := by
  simpa [record?] using h

theorem answer_write {d : Directory} {r : Record} (hr : r ∈ s.records) (text : Text)
    (follows : Bool) (actor : Actor) :
    s.answer d (.write r.id text follows actor) = (.ok (), s.put r.id text follows actor) := by
  obtain ⟨r₀, hr₀⟩ := Option.isSome_iff_exists.mp (isSome_record? hr)
  simp only [answer, write, hr₀, settle]

theorem answer_write_of_absent {d : Directory} {id : RecordId}
    (h : ¬ ∃ r ∈ s.records, r.id = id) (text : Text) (follows : Bool) (actor : Actor) :
    s.answer d (.write id text follows actor) = (.error (.noRecord id), s) := by
  simp only [answer, write, record?_eq_none h, settle]

theorem answer_overwriteCopy_of_absent {d : Directory} {id : RecordId}
    (h : ¬ ∃ r ∈ s.records, r.id = id) (text : Text) (actor : Actor) :
    s.answer d (.overwriteCopy id text actor) = (.error (.noRecord id), s) := by
  simp only [answer, overwriteCopy, record?_eq_none h]

theorem answer_insert {d : Directory} {item : ItemId} {drafts : List Draft} {actor : Actor}
    (hfaults : s.faults = .none) (hitem : s.items.contains item = true)
    (hfree : firstRepeat (s.languagesOf item) (drafts.map (·.language)) = none) :
    s.answer d (.insert item drafts actor) = (.ok (), s.append item drafts actor) := by
  have hinsert : s.insert item drafts actor = .ok (s.append item drafts actor) := by
    rw [insert, hfaults, hfree]
    simp [Faults.none, hitem]
  simp only [answer, hinsert, settle]

theorem answer_insert_of_clash {d : Directory} {item : ItemId} {drafts : List Draft} {actor : Actor}
    (hfaults : s.faults = .none) (hitem : s.items.contains item = true)
    (hclash : firstRepeat (s.languagesOf item) (drafts.map (·.language)) ≠ none) :
    ∃ language, s.answer d (.insert item drafts actor) =
      (.error (.storage (.duplicate item language)), s) := by
  obtain ⟨language, hlanguage⟩ := Option.ne_none_iff_exists'.mp hclash
  refine ⟨language, ?_⟩
  have hinsert : s.insert item drafts actor = .error (.storage (.duplicate item language)) := by
    rw [insert, hfaults, hlanguage]
    simp [Faults.none, hitem]
  simp only [answer, hinsert, settle]

/-- The representation invariant of a store. -/
structure Sound (s : Store) : Prop where
  first : 1 ≤ s.nextId
  ids : ∀ r ∈ s.records, 1 ≤ r.id ∧ r.id < s.nextId
  ids_nodup : (s.records.map (·.id)).Nodup
  keys_nodup : (s.records.map fun r => (r.item, r.language)).Nodup
  items : ∀ r ∈ s.records, s.items.contains r.item = true

theorem Sound.eq_of_id (hs : s.Sound) {r r' : Record} (hr : r ∈ s.records)
    (hr' : r' ∈ s.records) (hid : r.id = r'.id) : r = r' :=
  List.inj_on_of_nodup_map hs.ids_nodup hr hr' hid

theorem Sound.record?_eq (hs : s.Sound) {r : Record} (hr : r ∈ s.records) :
    s.record? r.id = some r :=
  find?_of_nodup_map hs.ids_nodup hr rfl

theorem Sound.answer_overwriteCopy (hs : s.Sound) {d : Directory} {r : Record}
    (hfaults : s.faults = .none) (hr : r ∈ s.records) (text : Text) (actor : Actor) :
    s.answer d (.overwriteCopy r.id text actor) =
      if r.follows then (.ok true, s.put r.id text true actor) else (.ok false, s) := by
  simp only [answer, overwriteCopy, hs.record?_eq hr, hfaults, Faults.none, List.not_mem_nil,
    if_false]
  cases r.follows <;> rfl

theorem Sound.eq_of_key (hs : s.Sound) {r r' : Record} (hr : r ∈ s.records)
    (hr' : r' ∈ s.records) (hitem : r.item = r'.item) (hlanguage : r.language = r'.language) :
    r = r' :=
  List.inj_on_of_nodup_map hs.keys_nodup hr hr' (Prod.ext hitem hlanguage)

theorem Sound.recordIn?_eq (hs : s.Sound) {r : Record} (hr : r ∈ s.records) {item : ItemId}
    {language : LanguageId} (hitem : r.item = item) (hlanguage : r.language = language) :
    s.recordIn? item language = some r := by
  subst hitem hlanguage
  cases hfind : s.recordIn? r.item r.language with
  | none =>
      have hnone := List.find?_eq_none.mp hfind r hr
      simp at hnone
  | some r' =>
      have hplace := List.find?_some hfind
      simp only [Bool.and_eq_true, decide_eq_true_eq] at hplace
      rw [hs.eq_of_key (List.mem_of_find?_eq_some hfind) hr hplace.1 hplace.2]

theorem sound_named (name : String) : (Store.named name).Sound where
  first := Int.le_refl 1
  ids := by simp [named]
  ids_nodup := by simp [named]
  keys_nodup := by simp [named]
  items := by simp [named]

theorem Sound.put (hs : s.Sound) (id : RecordId) (text : Text) (follows : Bool)
    (actor : Actor) : (s.put id text follows actor).Sound := by
  have hmap {β : Type} (f : Record → β)
      (hf : ∀ r, f (r.rewritten text follows actor s.clock) = f r) :
      (s.put id text follows actor).records.map f = s.records.map f := by
    simp only [Store.put, List.map_map]
    apply List.map_congr_left
    intro r _
    simp only [Function.comp_apply]
    split
    · exact hf r
    · rfl
  refine ⟨hs.first, ?_, ?_, ?_, ?_⟩
  · intro r hr
    rcases mem_put.mp hr with ⟨hr, _⟩ | ⟨r₀, hr₀, _, rfl⟩
    · exact hs.ids r hr
    · exact hs.ids r₀ hr₀
  · rw [hmap (·.id) fun _ => rfl]
    exact hs.ids_nodup
  · rw [hmap (fun r => (r.item, r.language)) fun _ => rfl]
    exact hs.keys_nodup
  · intro r hr
    rcases mem_put.mp hr with ⟨hr, _⟩ | ⟨r₀, hr₀, _, rfl⟩
    · exact hs.items r hr
    · exact hs.items r₀ hr₀

theorem le_of_mem_enrol {item : ItemId} {actor : Actor} {now : Instant} {id : RecordId}
    {drafts : List Draft} {r : Record} (h : r ∈ enrol item actor now id drafts) : id ≤ r.id := by
  obtain ⟨d, _, n, _, rfl⟩ := mem_enrol h
  exact Int.le_add_of_nonneg_right (Int.natCast_nonneg n)

theorem nodup_enrol_ids (item : ItemId) (actor : Actor) (now : Instant) (id : RecordId)
    (drafts : List Draft) : ((enrol item actor now id drafts).map (·.id)).Nodup := by
  induction drafts generalizing id with
  | nil => simp [enrol]
  | cons d rest ih =>
      refine List.nodup_cons.mpr ⟨fun hmem => ?_, ih (id + 1)⟩
      obtain ⟨r, hr, hid⟩ := List.mem_map.mp hmem
      have hle := le_of_mem_enrol hr
      rw [show r.id = id from hid] at hle
      exact Int.not_le.mpr (Int.lt_succ id) hle

theorem map_language_enrol (item : ItemId) (actor : Actor) (now : Instant) (id : RecordId)
    (drafts : List Draft) :
    (enrol item actor now id drafts).map (fun r => (r.item, r.language)) =
      (drafts.map (·.language)).map (Prod.mk item) := by
  induction drafts generalizing id with
  | nil => rfl
  | cons d rest ih => exact congrArg ((item, d.language) :: ·) (ih (id + 1))

theorem length_enrol (item : ItemId) (actor : Actor) (now : Instant) (id : RecordId)
    (drafts : List Draft) : (enrol item actor now id drafts).length = drafts.length := by
  have hlength := congrArg List.length (map_language_enrol item actor now id drafts)
  simpa using hlength

theorem Sound.append (hs : s.Sound) {item : ItemId} {drafts : List Draft} (actor : Actor)
    (hitem : s.items.contains item = true) (hnodup : (drafts.map (·.language)).Nodup)
    (hfree : ∀ d ∈ drafts, ∀ r ∈ s.records, r.item = item → r.language ≠ d.language) :
    (s.append item drafts actor).Sound := by
  have hnew : ∀ r ∈ enrol item actor s.clock s.nextId drafts,
      s.nextId ≤ r.id ∧ r.id < s.nextId + drafts.length ∧ r.item = item ∧
        ∃ d ∈ drafts, r.language = d.language := by
    intro r hr
    obtain ⟨d, hd, n, hn, rfl⟩ := mem_enrol hr
    exact ⟨le_of_mem_enrol hr, Int.add_lt_add_left (Int.ofNat_lt.mpr hn) _, rfl, d, hd, rfl⟩
  refine ⟨?_, ?_, ?_, ?_, ?_⟩
  · exact Int.le_trans hs.first (Int.le_add_of_nonneg_right (Int.natCast_nonneg _))
  · intro r hr
    have hfirst := hs.first
    rcases List.mem_append.mp hr with hr | hr
    · have := hs.ids r hr
      exact ⟨this.1, Int.lt_of_lt_of_le this.2
        (Int.le_add_of_nonneg_right (Int.natCast_nonneg _))⟩
    · have := hnew r hr
      exact ⟨Int.le_trans hfirst this.1, this.2.1⟩
  · rw [Store.append, List.map_append]
    refine List.Nodup.append hs.ids_nodup (nodup_enrol_ids _ _ _ _ _) ?_
    intro id hold hid
    obtain ⟨r, hr, rfl⟩ := List.mem_map.mp hold
    obtain ⟨r', hr', heq⟩ := List.mem_map.mp hid
    have hle : s.nextId ≤ r.id := heq ▸ (hnew r' hr').1
    exact Int.not_le.mpr (hs.ids r hr).2 hle
  · rw [Store.append, List.map_append, map_language_enrol]
    refine List.Nodup.append hs.keys_nodup (hnodup.map fun _ _ h => (Prod.mk.inj h).2) ?_
    intro key hold hkey
    obtain ⟨r, hr, rfl⟩ := List.mem_map.mp hold
    obtain ⟨language, hlanguage, heq⟩ := List.mem_map.mp hkey
    obtain ⟨d, hd, rfl⟩ := List.mem_map.mp hlanguage
    obtain ⟨hi, hl⟩ := Prod.mk.inj heq
    exact hfree d hd r hr hi.symm hl.symm
  · intro r hr
    rcases List.mem_append.mp hr with hr | hr
    · exact hs.items r hr
    · rw [(hnew r hr).2.2.1]
      exact hitem

theorem Sound.becomes (hs : s.Sound) {q : Query} (h : s.Becomes q t) : t.Sound := by
  cases h with
  | same => exact hs
  | inserted item drafts actor hitem hnodup hfree => exact hs.append actor hitem hnodup hfree
  | overwritten r text actor => exact hs.put r.id text true actor
  | written r text follows actor => exact hs.put r.id text follows actor

theorem Sound.addItem (hs : s.Sound) (item : ItemId) : (s.addItem item).Sound where
  first := hs.first
  ids := hs.ids
  ids_nodup := hs.ids_nodup
  keys_nodup := hs.keys_nodup
  items r hr := by
    have h := hs.items r hr
    by_cases heq : r.item = item <;> simp_all [Store.addItem, SortedMap.contains]

theorem Sound.softDelete (hs : s.Sound) (item : ItemId) : (s.softDelete item).Sound := by
  rw [Store.softDelete]
  split
  · refine ⟨hs.first, hs.ids, hs.ids_nodup, hs.keys_nodup, fun r hr => ?_⟩
    have h := hs.items r hr
    by_cases heq : r.item = item <;> simp_all [SortedMap.contains]
  · exact hs

theorem Sound.delete (hs : s.Sound) (item : ItemId) : (s.delete item).Sound where
  first := hs.first
  ids r hr := hs.ids r (List.mem_of_mem_filter hr)
  ids_nodup := hs.ids_nodup.sublist (List.filter_sublist.map _)
  keys_nodup := hs.keys_nodup.sublist (List.filter_sublist.map _)
  items r hr := by
    have h := hs.items r (List.mem_of_mem_filter hr)
    have hne : r.item ≠ item := by simpa using (List.mem_filter.mp hr).2
    simp_all [Store.delete, SortedMap.contains]

theorem Sound.setFaults (hs : s.Sound) (faults : Faults) : { s with faults }.Sound :=
  ⟨hs.first, hs.ids, hs.ids_nodup, hs.keys_nodup, hs.items⟩

/-- The stores that come about by calls and by changes to items and faults, in whatever order. -/
inductive Reachable : Store → Prop where
  | named (name : String) : Reachable (named name)
  | answered {s : Store} (d : Directory) (q : Query) (h : Reachable s) :
      Reachable (s.answer d q).2
  | addItem {s : Store} (item : ItemId) (h : Reachable s) : Reachable (s.addItem item)
  | softDelete {s : Store} (item : ItemId) (h : Reachable s) : Reachable (s.softDelete item)
  | delete {s : Store} (item : ItemId) (h : Reachable s) : Reachable (s.delete item)
  | faulted {s : Store} (faults : Faults) (h : Reachable s) : Reachable { s with faults }

theorem Reachable.sound (h : s.Reachable) : s.Sound := by
  induction h with
  | named name => exact sound_named name
  | answered d q _ ih => exact ih.becomes (becomes_answer d q)
  | addItem item _ ih => exact ih.addItem item
  | softDelete item _ ih => exact ih.softDelete item
  | delete item _ ih => exact ih.delete item
  | faulted faults _ ih => exact ih.setFaults faults

end Store

end Polyglot
