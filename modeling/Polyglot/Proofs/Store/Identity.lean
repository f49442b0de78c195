import Polyglot.Proofs.Store.Sound
import Polyglot.Store.World

namespace Polyglot

namespace Store

variable {s t u : Store}

@[simp] theorem records_softDelete (s : Store) (item : ItemId) :
    (s.softDelete item).records = s.records := by
  rw [softDelete]
  split <;> rfl

@[simp] theorem nextId_softDelete (s : Store) (item : ItemId) :
    (s.softDelete item).nextId = s.nextId := by
  rw [softDelete]
  split <;> rfl

/-- No id of `s` has come to stand for another item or language in `t`. -/
structure Later (s t : Store) : Prop where
  nextId : s.nextId ≤ t.nextId
  identity : ∀ r ∈ t.records, r.id < s.nextId →
    ∃ r₀ ∈ s.records, r₀.id = r.id ∧ r₀.item = r.item ∧ r₀.language = r.language

theorem Later.refl (s : Store) : s.Later s :=
  ⟨Int.le_refl _, fun r hr _ => ⟨r, hr, rfl, rfl, rfl⟩⟩

theorem Later.of_mem (hnext : s.nextId ≤ t.nextId) (h : ∀ r ∈ t.records, r ∈ s.records) :
    s.Later t :=
  ⟨hnext, fun r hr _ => ⟨r, h r hr, rfl, rfl, rfl⟩⟩

theorem later_put (id : RecordId) (text : Text) (follows : Bool) (actor : Actor) :
    s.Later (s.put id text follows actor) := by
  refine ⟨Int.le_refl _, fun r hr _ => ?_⟩
  rcases mem_put.mp hr with ⟨hr, _⟩ | ⟨r₀, hr₀, _, rfl⟩
  · exact ⟨r, hr, rfl, rfl, rfl⟩
  · exact ⟨r₀, hr₀, rfl, rfl, rfl⟩

theorem later_append (item : ItemId) (drafts : List Draft) (actor : Actor) :
    s.Later (s.append item drafts actor) := by
  refine ⟨Int.le_add_of_nonneg_right (Int.natCast_nonneg _), fun r hr hlt => ?_⟩
  rcases List.mem_append.mp hr with hr | hr
  · exact ⟨r, hr, rfl, rfl, rfl⟩
  · exact absurd (le_of_mem_enrol hr) (Int.not_le.mpr hlt)

theorem Becomes.later {q : Query} (h : s.Becomes q t) : s.Later t := by
  cases h with
  | same => exact .refl s
  | inserted item drafts actor => exact later_append item drafts actor
  | overwritten r text actor => exact later_put r.id text true actor
  | written r text follows actor => exact later_put r.id text follows actor

theorem Becomes.name {q : Query} (h : s.Becomes q t) : t.name = s.name := by
  cases h <;> rfl

theorem Becomes.items {q : Query} (h : s.Becomes q t) : t.items = s.items := by
  cases h <;> rfl

theorem Becomes.faults {q : Query} (h : s.Becomes q t) : t.faults = s.faults := by
  cases h <;> rfl

/-- Whatever record has the id of `r`, now or later, is the one in its place. -/
def Knows (s : Store) (r : Record) : Prop :=
  r.id < s.nextId ∧ ∀ r' ∈ s.records, r'.id = r.id → r'.item = r.item ∧ r'.language = r.language

theorem Sound.knows (hs : s.Sound) {r : Record} (hr : r ∈ s.records) : s.Knows r := by
  refine ⟨(hs.ids r hr).2, fun r' hr' hid => ?_⟩
  rw [hs.eq_of_id hr' hr hid]
  exact ⟨rfl, rfl⟩

theorem Knows.mono {r : Record} (h : s.Knows r) (hlater : s.Later t) : t.Knows r := by
  refine ⟨Int.lt_of_lt_of_le h.1 hlater.nextId, fun r' hr' hid => ?_⟩
  obtain ⟨r₀, hr₀, hid₀, hitem₀, hlanguage₀⟩ := hlater.identity r' hr' (hid ▸ h.1)
  obtain ⟨hitem, hlanguage⟩ := h.2 r₀ hr₀ (hid₀.trans hid)
  exact ⟨hitem₀ ▸ hitem, hlanguage₀ ▸ hlanguage⟩

end Store

namespace World

variable {w : World} {type other : String} {s : Store}

theorem name_of_store? (h : w.store? type = some s) : s.name = type := by
  simpa using List.find?_some h

theorem store?_update {f : Store → Store} (hname : ∀ s, s.name = type → (f s).name = type) :
    (w.update type f).store? other =
      if other = type then (w.store? other).map f else w.store? other := by
  simp only [store?, update]
  induction w.stores with
  | nil => simp
  | cons s rest ih =>
      rw [List.map_cons, List.find?_cons, List.find?_cons, ih]
      by_cases hs : s.name = type
      · by_cases hother : other = type
        · simp [hs, hother, hname s hs]
        · simp [hs, hother, hname s hs, Ne.symm hother]
      · rw [if_neg hs]
        by_cases hother : s.name = other
        · simp [hother, show other ≠ type from hother ▸ hs]
        · simp [hother]

end World

end Polyglot
