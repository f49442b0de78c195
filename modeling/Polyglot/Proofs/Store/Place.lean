import Mathlib.Data.Set.Image
import Polyglot.Proofs.Store.Convergence

namespace Polyglot

/-- What no write changes about a record. -/
def Record.place (r : Record) : RecordId × ItemId × LanguageId := (r.id, r.item, r.language)

namespace Store

variable {s t : Store} {item : ItemId} {language : LanguageId} {r : Record}

theorem mem_of_recordIn? (h : s.recordIn? item language = some r) :
    r ∈ s.records ∧ r.item = item ∧ r.language = language := by
  have hplace := List.find?_some h
  simp only [Bool.and_eq_true, decide_eq_true_eq] at hplace
  exact ⟨List.mem_of_find?_eq_some h, hplace⟩

theorem Sound.recordIn?_eq_some_iff (hs : s.Sound) :
    s.recordIn? item language = some r ↔
      r ∈ s.records ∧ r.item = item ∧ r.language = language :=
  ⟨mem_of_recordIn?, fun ⟨hr, hitem, hlanguage⟩ => hs.recordIn?_eq hr hitem hlanguage⟩

theorem Sound.recordIn?_of_mem (hs : s.Sound) (hr : r ∈ s.records) :
    s.recordIn? r.item r.language = some r :=
  hs.recordIn?_eq hr rfl rfl

theorem recordIn?_eq_none_iff :
    s.recordIn? item language = none ↔
      ∀ r ∈ s.records, r.item = item → r.language ≠ language := by
  simp [recordIn?]

theorem recordIn?_eq_none_iff_not_mem :
    s.recordIn? item language = none ↔ language ∉ s.languagesOf item := by
  rw [recordIn?_eq_none_iff, mem_languagesOf]
  push Not
  rfl

theorem mem_languagesOf_congr (h : t.records.map Record.place = s.records.map Record.place) :
    language ∈ t.languagesOf item ↔ language ∈ s.languagesOf item := by
  have hplace (u : Store) :
      language ∈ u.languagesOf item ↔ ∃ id, (id, item, language) ∈ u.records.map Record.place := by
    simp [languagesOf, Record.place, and_assoc]
  rw [hplace t, hplace s, h]

theorem map_place_put (s : Store) (id : RecordId) (text : Text) (follows : Bool) (actor : Actor) :
    (s.put id text follows actor).records.map Record.place = s.records.map Record.place := by
  simp only [put, List.map_map]
  apply List.map_congr_left
  intro r _
  simp only [Function.comp_apply]
  split <;> rfl

theorem mem_languagesOf_iff_key :
    language ∈ s.languagesOf item ↔
      (item, language) ∈ s.records.map fun r => (r.item, r.language) := by
  simp [languagesOf, and_assoc]

theorem mem_languagesOf_append (s : Store) (target : ItemId) (drafts : List Draft)
    (actor : Actor) :
    language ∈ (s.append target drafts actor).languagesOf item ↔
      language ∈ s.languagesOf item ∨ item = target ∧ language ∈ drafts.map (·.language) := by
  rw [mem_languagesOf_iff_key, append, List.map_append, List.mem_append, map_language_enrol,
    ← mem_languagesOf_iff_key]
  simp [and_left_comm, eq_comm]

theorem Becomes.languagesOf_subset {q : Query} (h : s.Becomes q t) (item : ItemId) :
    s.languagesOf item ⊆ t.languagesOf item := by
  intro l hl
  cases h with
  | same => exact hl
  | inserted target drafts actor =>
      exact (mem_languagesOf_append s target drafts actor).mpr (Or.inl hl)
  | overwritten r text actor =>
      exact (mem_languagesOf_congr (map_place_put s r.id text true actor)).mpr hl
  | written r text follows actor =>
      exact (mem_languagesOf_congr (map_place_put s r.id text follows actor)).mpr hl

theorem Sound.nodup_languagesOf (hs : s.Sound) (item : ItemId) : (s.languagesOf item).Nodup := by
  have hkeys : (s.languagesOf item).map (Prod.mk item) =
      (s.records.filter (·.item = item)).map fun r => (r.item, r.language) := by
    rw [languagesOf, List.map_map]
    refine List.map_congr_left fun r hr => ?_
    have hitem : r.item = item := by simpa using (List.mem_filter.mp hr).2
    rw [← hitem]
    rfl
  refine List.Nodup.of_map (Prod.mk item) ?_
  rw [hkeys]
  exact hs.keys_nodup.sublist (List.filter_sublist.map _)

theorem Sound.firstRepeat_eq_none_iff (hs : s.Sound) (item : ItemId)
    (languages : List LanguageId) :
    firstRepeat (s.languagesOf item) languages = none ↔
      (s.languagesOf item ++ languages).Nodup := by
  rw [Polyglot.firstRepeat_eq_none_iff, List.nodup_append',
    and_iff_right (hs.nodup_languagesOf item), List.disjoint_comm]
  rfl

theorem Sound.nodup_keys_append_iff (hs : s.Sound) (item : ItemId) (languages : List LanguageId) :
    (s.records.map (fun r => (r.item, r.language)) ++ languages.map (Prod.mk item)).Nodup ↔
      (s.languagesOf item ++ languages).Nodup := by
  have hpair : Function.Injective (Prod.mk item : LanguageId → ItemId × LanguageId) :=
    fun _ _ h => (Prod.mk.inj h).2
  rw [List.nodup_append', List.nodup_append', List.nodup_map_iff hpair, and_iff_right hs.keys_nodup,
    and_iff_right (hs.nodup_languagesOf item)]
  refine and_congr_right fun _ => ?_
  constructor
  · intro hdisjoint language hold hlanguage
    exact hdisjoint (mem_languagesOf_iff_key.mp hold) (List.mem_map_of_mem hlanguage)
  · rintro hdisjoint _ hold hkey
    obtain ⟨language, hlanguage, rfl⟩ := List.mem_map.mp hkey
    exact hdisjoint (mem_languagesOf_iff_key.mpr hold) hlanguage

theorem Sound.nodup_ids_recordsOf (hs : s.Sound) (item : ItemId) :
    ((s.recordsOf item).map (·.id)).Nodup := by
  have hperm : (s.recordsOf item).Perm (s.records.filter (·.item = item)) :=
    List.mergeSort_perm _ _
  rw [(hperm.map _).nodup_iff]
  exact hs.ids_nodup.sublist (List.filter_sublist.map _)

theorem Sound.sorted_recordsOf (hs : s.Sound) (item : ItemId) :
    (s.recordsOf item).Pairwise fun r r' => r.language < r'.language := by
  have hsorted : (s.recordsOf item).Pairwise fun r r' => r.language ≤ r'.language := by
    have hle := @List.pairwise_mergeSort Record (fun a b => a.language ≤ b.language)
      (by simpa using fun a b c => Int.le_trans) (by simpa using fun a b => Int.le_total _ _)
      (s.records.filter (·.item = item))
    exact hle.imp of_decide_eq_true
  have hdistinct : (s.recordsOf item).Pairwise fun r r' => r.id ≠ r'.id :=
    List.pairwise_map.mp (hs.nodup_ids_recordsOf item)
  refine (hsorted.and hdistinct).imp_of_mem fun {r r'} hr hr' ⟨hle, hne⟩ => ?_
  obtain ⟨hr, hitem⟩ := mem_recordsOf.mp hr
  obtain ⟨hr', hitem'⟩ := mem_recordsOf.mp hr'
  refine lt_of_le_of_ne hle fun hlanguage => hne ?_
  rw [hs.eq_of_key hr hr' (hitem.trans hitem'.symm) hlanguage]

theorem Sound.find?_recordsOf_eq (hs : s.Sound) (item : ItemId) (language : LanguageId) :
    (s.recordsOf item).find? (·.language = language) = s.recordIn? item language := by
  cases hfind : (s.recordsOf item).find? (·.language = language) with
  | none =>
      rw [List.find?_eq_none] at hfind
      refine (recordIn?_eq_none_iff.mpr fun r hr hitem => ?_).symm
      simpa using hfind r (mem_recordsOf.mpr ⟨hr, hitem⟩)
  | some r =>
      obtain ⟨hr, hitem⟩ := mem_recordsOf.mp (List.mem_of_find?_eq_some hfind)
      exact (hs.recordIn?_eq hr hitem (by simpa using List.find?_some hfind)).symm

theorem Sound.recordIn?_put (hs : s.Sound) (hr : r ∈ s.records) (text : Text) (follows : Bool)
    (actor : Actor) (item : ItemId) (language : LanguageId) :
    (s.put r.id text follows actor).recordIn? item language =
      if r.item = item ∧ r.language = language then
        some (r.rewritten text follows actor s.clock)
      else s.recordIn? item language := by
  have hput := hs.put r.id text follows actor
  by_cases hplace : r.item = item ∧ r.language = language
  · rw [if_pos hplace]
    have hmem : r.rewritten text follows actor s.clock ∈ (s.put r.id text follows actor).records :=
      mem_put.mpr (Or.inr ⟨r, hr, rfl, rfl⟩)
    exact hput.recordIn?_eq hmem hplace.1 hplace.2
  · rw [if_neg hplace]
    have hiff (r' : Record) (hr' : r'.item = item ∧ r'.language = language) :
        r' ∈ (s.put r.id text follows actor).records ↔ r' ∈ s.records := by
      rw [mem_put]
      constructor
      · rintro (⟨hmem, _⟩ | ⟨r₀, hr₀, hid, rfl⟩)
        · exact hmem
        · exact absurd (hs.eq_of_id hr₀ hr hid ▸ hr') hplace
      · intro hmem
        exact Or.inl ⟨hmem, fun hid => hplace (hs.eq_of_id hmem hr hid ▸ hr')⟩
    ext r'
    rw [hput.recordIn?_eq_some_iff, hs.recordIn?_eq_some_iff]
    exact and_congr_left (hiff r')

theorem recordIn?_append (s : Store) (i : ItemId) (drafts : List Draft) (actor : Actor)
    (item : ItemId) (language : LanguageId) :
    (s.append i drafts actor).recordIn? item language =
      (s.recordIn? item language).or
        ((enrol i actor s.clock s.nextId drafts).find? fun r =>
          r.item = item && r.language = language) :=
  List.find?_append

theorem find?_enrol_eq_none {i : ItemId} {actor : Actor} {now : Instant} {id : RecordId}
    {drafts : List Draft} (h : i = item → language ∉ drafts.map (·.language)) :
    ((enrol i actor now id drafts).find? fun r => r.item = item && r.language = language) =
      none := by
  rw [List.find?_eq_none]
  intro r hr
  simp only [Bool.and_eq_true, decide_eq_true_eq]
  rintro ⟨hitem, rfl⟩
  obtain ⟨d, hd, n, _, rfl⟩ := mem_enrol hr
  exact h hitem (List.mem_map_of_mem hd)

theorem find?_enrol_eq_some (item : ItemId) (actor : Actor) (now : Instant) (id : RecordId)
    {drafts : List Draft} (h : language ∈ drafts.map (·.language)) :
    ∃ d ∈ drafts, d.language = language ∧ ∃ id', id ≤ id' ∧
      ((enrol item actor now id drafts).find? fun r => r.item = item && r.language = language) =
        some (d.record item actor now id') := by
  have hkey : (item, language) ∈
      (enrol item actor now id drafts).map fun r => (r.item, r.language) := by
    rw [map_language_enrol]
    exact List.mem_map_of_mem h
  obtain ⟨r₀, hr₀, hplace⟩ := List.mem_map.mp hkey
  obtain ⟨hitem, hlanguage⟩ := Prod.mk.inj hplace
  cases hfind : (enrol item actor now id drafts).find? fun r =>
      r.item = item && r.language = language with
  | none =>
      have hnone := List.find?_eq_none.mp hfind r₀ hr₀
      simp [hitem, hlanguage] at hnone
  | some r =>
      have hr := List.mem_of_find?_eq_some hfind
      have hplace := List.find?_some hfind
      simp only [Bool.and_eq_true, decide_eq_true_eq] at hplace
      have hle := le_of_mem_enrol hr
      obtain ⟨d, hd, n, _, rfl⟩ := mem_enrol hr
      exact ⟨d, hd, hplace.2, _, hle, rfl⟩

/-- The base text of a live item. -/
def baseText? (s : Store) (base : LanguageId) (item : ItemId) : Option Text :=
  if s.live item then (s.recordIn? item base).map (·.text) else none

theorem baseText?_eq_some_iff {base : LanguageId} {text : Text} :
    s.baseText? base item = some text ↔
      s.live item = true ∧ ∃ rb, s.recordIn? item base = some rb ∧ rb.text = text := by
  rw [baseText?]
  split
  · rename_i hlive
    simp [hlive]
  · rename_i hlive
    simp [hlive]

/-- Two sound stores hold the same as far as `f` tells, if they do so in every place. -/
theorem Sound.image_eq_on {α : Type} {f : Record → α} (p : ItemId → Prop) (hs : s.Sound)
    (ht : t.Sound)
    (h : ∀ item, p item → ∀ language,
      (s.recordIn? item language).map f = (t.recordIn? item language).map f) :
    f '' {r | r ∈ s.records ∧ p r.item} = f '' {r | r ∈ t.records ∧ p r.item} := by
  have hsubset {s t : Store} (hs : s.Sound)
      (h : ∀ item, p item → ∀ language,
        (s.recordIn? item language).map f = (t.recordIn? item language).map f) :
      f '' {r | r ∈ s.records ∧ p r.item} ⊆ f '' {r | r ∈ t.records ∧ p r.item} := by
    rintro _ ⟨r, ⟨hr, hp⟩, rfl⟩
    have hmap := h r.item hp r.language
    rw [hs.recordIn?_of_mem hr] at hmap
    obtain ⟨r', hr', heq⟩ := Option.map_eq_some_iff.mp hmap.symm
    obtain ⟨hmem, hitem, _⟩ := mem_of_recordIn? hr'
    exact ⟨r', ⟨hmem, hitem ▸ hp⟩, heq⟩
  exact Set.Subset.antisymm (hsubset hs h) (hsubset ht fun i hi l => (h i hi l).symm)

theorem Sound.image_eq {α : Type} {f : Record → α} (hs : s.Sound) (ht : t.Sound)
    (h : ∀ item language, (s.recordIn? item language).map f = (t.recordIn? item language).map f) :
    f '' {r | r ∈ s.records} = f '' {r | r ∈ t.records} := by
  have himage := hs.image_eq_on (fun _ => True) ht fun item _ => h item
  simpa using himage

theorem Sound.image_recordsOf_eq {α : Type} {f : Record → α} (hs : s.Sound) (ht : t.Sound)
    (h : ∀ language, (s.recordIn? item language).map f = (t.recordIn? item language).map f) :
    f '' {r | r ∈ s.recordsOf item} = f '' {r | r ∈ t.recordsOf item} := by
  simp only [mem_recordsOf]
  apply hs.image_eq_on (· = item) ht
  rintro _ rfl
  exact h

end Store

end Polyglot
