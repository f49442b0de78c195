import Polyglot.Proofs.Store.Identity

namespace Polyglot

/-- A record that is to hold the base text of its item. -/
def Record.IsCopy (b : LanguageId) (r : Record) : Prop := r.follows = true ∧ r.language ≠ b

namespace Store

/-- The text that is on its way to the copies of an item is its base text. An item to which nothing
is on its way has copies of its base text only. -/
structure Converges (b : LanguageId) (awaited : ItemId → Option Text) (s : Store) : Prop where
  sound : s.Sound
  faults : s.faults = .none
  live : ∀ item, s.items.contains item = true → s.live item = true
  based : ∀ r ∈ s.records, ∃ rb ∈ s.records, rb.item = r.item ∧ rb.language = b
  announced : ∀ item text, awaited item = some text →
    ∃ rb ∈ s.records, rb.item = item ∧ rb.language = b ∧ rb.text = text
  copied : ∀ r ∈ s.records, r.IsCopy b → awaited r.item = none →
    ∀ rb ∈ s.records, rb.item = r.item → rb.language = b → r.text = rb.text

variable {s t : Store} {b : LanguageId} {awaited : ItemId → Option Text}

theorem converges_named (b : LanguageId) (name : String) :
    (named name).Converges b fun _ => none where
  sound := sound_named name
  faults := rfl
  live item h := by simp [named, SortedMap.contains] at h
  based r hr := by simp [named] at hr
  announced item text h := by cases h
  copied r hr := by simp [named] at hr

theorem Converges.addItem (h : s.Converges b awaited) (item : ItemId) :
    (s.addItem item).Converges b awaited where
  sound := h.sound.addItem item
  faults := h.faults
  live other hother := by
    by_cases heq : other = item
    · simp [Store.live, Store.addItem, heq]
    · have := h.live other (by simpa [Store.addItem, SortedMap.contains, heq] using hother)
      simpa [Store.live, Store.addItem, heq] using this
  based := h.based
  announced := h.announced
  copied := h.copied

theorem Sound.mem_put_of_ne (hs : s.Sound) {r rb : Record} (hr : r ∈ s.records)
    (hrb : rb ∈ s.records) (hlanguage : r.language ≠ rb.language) {text : Text} {follows : Bool}
    {actor : Actor} : rb ∈ (s.put r.id text follows actor).records := by
  refine mem_put.mpr (Or.inl ⟨hrb, fun hid => hlanguage ?_⟩)
  rw [hs.eq_of_id hrb hr hid]

/-- A write into a record outside the base language keeps the order if it pins the record, or
writes the base text, or if the item waits for a text anyway. -/
theorem Converges.put (h : s.Converges b awaited) {r : Record} (hr : r ∈ s.records)
    (hlanguage : r.language ≠ b) {text : Text} {follows : Bool} (actor : Actor)
    (htext : follows = true → awaited r.item = none →
      ∀ rb ∈ s.records, rb.item = r.item → rb.language = b → text = rb.text) :
    (s.put r.id text follows actor).Converges b awaited := by
  have hbase {rb : Record} (hrb : rb ∈ s.records) (hl : rb.language = b) :
      rb ∈ (s.put r.id text follows actor).records :=
    h.sound.mem_put_of_ne hr hrb (hl ▸ hlanguage)
  have hback {rb : Record} (hrb : rb ∈ (s.put r.id text follows actor).records)
      (hl : rb.language = b) : rb ∈ s.records := by
    rcases mem_put.mp hrb with ⟨hrb, _⟩ | ⟨r₀, hr₀, hid, rfl⟩
    · exact hrb
    · rw [h.sound.eq_of_id hr₀ hr hid] at hl
      exact absurd hl hlanguage
  refine ⟨h.sound.put r.id text follows actor, h.faults, h.live, ?_, ?_, ?_⟩
  · intro r' hr'
    rcases mem_put.mp hr' with ⟨hr', _⟩ | ⟨r₀, hr₀, _, rfl⟩
    · obtain ⟨rb, hrb, hitem, hl⟩ := h.based r' hr'
      exact ⟨rb, hbase hrb hl, hitem, hl⟩
    · obtain ⟨rb, hrb, hitem, hl⟩ := h.based r₀ hr₀
      exact ⟨rb, hbase hrb hl, hitem, hl⟩
  · intro item text' hawaited
    obtain ⟨rb, hrb, hitem, hl, htext'⟩ := h.announced item text' hawaited
    exact ⟨rb, hbase hrb hl, hitem, hl, htext'⟩
  · intro r' hr' hcopy hnone rb hrb hitem hl
    have hrb := hback hrb hl
    rcases mem_put.mp hr' with ⟨hr', _⟩ | ⟨r₀, hr₀, hid, rfl⟩
    · exact h.copied r' hr' hcopy hnone rb hrb hitem hl
    · cases h.sound.eq_of_id hr₀ hr hid
      exact htext hcopy.1 hnone rb hrb hitem hl

theorem Converges.append (h : s.Converges b awaited) {item : ItemId} {languages : List LanguageId}
    {rb : Record} (hrb : rb ∈ s.records) (hitem : rb.item = item) (hbase : rb.language = b)
    {actor : Actor}
    (hsound : (s.append item (languages.map (Draft.copy · rb.text)) actor).Sound) :
    (s.append item (languages.map (Draft.copy · rb.text)) actor).Converges b awaited := by
  have hnew {r : Record} (hr : r ∈ enrol item actor s.clock s.nextId
      (languages.map (Draft.copy · rb.text))) : r.item = item ∧ r.text = rb.text := by
    obtain ⟨d, hd, n, _, rfl⟩ := mem_enrol hr
    obtain ⟨l, _, rfl⟩ := List.mem_map.mp hd
    exact ⟨rfl, rfl⟩
  have hold {r : Record} (hr : r ∈ s.records) :
      r ∈ (s.append item (languages.map (Draft.copy · rb.text)) actor).records :=
    List.mem_append_left _ hr
  refine ⟨hsound, h.faults, h.live, ?_, ?_, ?_⟩
  · intro r hr
    rcases List.mem_append.mp hr with hr | hr
    · obtain ⟨rb', hrb', hplace⟩ := h.based r hr
      exact ⟨rb', hold hrb', hplace⟩
    · exact ⟨rb, hold hrb, hitem.trans (hnew hr).1.symm, hbase⟩
  · intro item' text hawaited
    obtain ⟨rb', hrb', hplace⟩ := h.announced item' text hawaited
    exact ⟨rb', hold hrb', hplace⟩
  · intro r hr hcopy hnone rb' hrb' hitem' hl
    have hold' : rb' ∈ s.records := by
      rcases List.mem_append.mp hrb' with hrb' | hrb''
      · exact hrb'
      · have heq : rb' = rb :=
          hsound.eq_of_key hrb' (hold hrb) ((hnew hrb'').1.trans hitem.symm) (hl.trans hbase.symm)
        exact heq ▸ hrb
    rcases List.mem_append.mp hr with hr | hr
    · exact h.copied r hr hcopy hnone rb' hold' hitem' hl
    · have heq : rb' = rb := h.sound.eq_of_key hold' hrb
        (hitem'.trans ((hnew hr).1.trans hitem.symm)) (hl.trans hbase.symm)
      rw [(hnew hr).2, heq]

theorem Converges.putBase (h : s.Converges b awaited) {rb : Record} (hrb : rb ∈ s.records)
    (hbase : rb.language = b) (text : Text) (actor : Actor) :
    (s.put rb.id text false actor).Converges b
      fun item => if item = rb.item then some text else awaited item := by
  have hput {r : Record} (hr : r ∈ (s.put rb.id text false actor).records) :
      (r ∈ s.records ∧ r.id ≠ rb.id) ∨ r = rb.rewritten text false actor s.clock := by
    rcases mem_put.mp hr with hr | ⟨r₀, hr₀, hid, rfl⟩
    · exact Or.inl hr
    · exact Or.inr (h.sound.eq_of_id hr₀ hrb hid ▸ rfl)
  have hnew : rb.rewritten text false actor s.clock ∈ (s.put rb.id text false actor).records :=
    mem_put.mpr (Or.inr ⟨rb, hrb, rfl, rfl⟩)
  have hother {rb' : Record} (hrb' : rb' ∈ s.records) (hitem : rb'.item ≠ rb.item) :
      rb' ∈ (s.put rb.id text false actor).records :=
    mem_put.mpr (Or.inl ⟨hrb', fun hid => hitem (h.sound.eq_of_id hrb' hrb hid ▸ rfl)⟩)
  have hbased {r : Record} (hr : r ∈ s.records) :
      ∃ rb' ∈ (s.put rb.id text false actor).records, rb'.item = r.item ∧ rb'.language = b := by
    by_cases hitem : r.item = rb.item
    · exact ⟨_, hnew, hitem.symm, hbase⟩
    · obtain ⟨rb', hrb', hplace, hl⟩ := h.based r hr
      exact ⟨rb', hother hrb' (hplace ▸ hitem), hplace, hl⟩
  refine ⟨h.sound.put rb.id text false actor, h.faults, h.live, ?_, ?_, ?_⟩
  · intro r hr
    rcases hput hr with ⟨hr, _⟩ | rfl
    · exact hbased hr
    · exact ⟨_, hnew, rfl, hbase⟩
  · intro item text' hawaited
    by_cases hitem : item = rb.item
    · rw [if_pos hitem] at hawaited
      cases hawaited
      exact ⟨_, hnew, hitem.symm, hbase, rfl⟩
    · rw [if_neg hitem] at hawaited
      obtain ⟨rb', hrb', rfl, hplace⟩ := h.announced item text' hawaited
      exact ⟨rb', hother hrb' hitem, rfl, hplace⟩
  · intro r hr hcopy hnone rb' hrb' hitem hl
    by_cases hr' : r.item = rb.item
    · rw [if_pos hr'] at hnone
      cases hnone
    · rw [if_neg hr'] at hnone
      rcases hput hr with ⟨hr, _⟩ | rfl
      · rcases hput hrb' with ⟨hrb', _⟩ | rfl
        · exact h.copied r hr hcopy hnone rb' hrb' hitem hl
        · exact absurd hitem.symm hr'
      · exact absurd rfl hr'

theorem Converges.delivered (h : s.Converges b awaited) {item : ItemId} {text : Text}
    (hawaited : awaited item = some text)
    (hcopies : ∀ r ∈ s.records, r.item = item → r.IsCopy b → r.text = text) :
    s.Converges b fun other => if other = item then none else awaited other := by
  refine ⟨h.sound, h.faults, h.live, h.based, ?_, ?_⟩
  · intro other text' hother
    by_cases heq : other = item
    · rw [if_pos heq] at hother
      cases hother
    · rw [if_neg heq] at hother
      exact h.announced other text' hother
  · intro r hr hcopy hnone rb hrb hitem hl
    by_cases heq : r.item = item
    · obtain ⟨rb', hrb', hitem', hl', htext⟩ := h.announced item text hawaited
      rw [hcopies r hr heq hcopy, ← htext]
      rw [h.sound.eq_of_key hrb' hrb (hitem'.trans (heq.symm.trans hitem.symm)) (hl'.trans hl.symm)]
    · rw [if_neg heq] at hnone
      exact h.copied r hr hcopy hnone rb hrb hitem hl

/-- An item gets its first records, all copies with one text, which the base record has too. -/
theorem Converges.founded (h : s.Converges b awaited) {item : ItemId} {text : Text}
    (hfree : ∀ r ∈ s.records, r.item ≠ item) (hsound : t.Sound) (hfaults : t.faults = s.faults)
    (hitems : t.items = s.items)
    (hothers : ∀ r, r.item ≠ item → (r ∈ t.records ↔ r ∈ s.records))
    (hbase : ∃ rb ∈ t.records, rb.item = item ∧ rb.language = b)
    (htext : ∀ r ∈ t.records, r.item = item → r.IsCopy b ∨ r.language = b → r.text = text) :
    t.Converges b awaited := by
  refine ⟨hsound, hfaults.trans h.faults, ?_, ?_, ?_, ?_⟩
  · intro other hother
    rw [hitems] at hother
    have hlive := h.live other hother
    simpa only [Store.live, hitems] using hlive
  · intro r hr
    by_cases hitem : r.item = item
    · obtain ⟨rb, hrb, hplace, hl⟩ := hbase
      exact ⟨rb, hrb, hplace.trans hitem.symm, hl⟩
    · obtain ⟨rb, hrb, hplace, hl⟩ := h.based r ((hothers r hitem).mp hr)
      exact ⟨rb, (hothers rb (hplace ▸ hitem)).mpr hrb, hplace, hl⟩
  · intro other text' hother
    obtain ⟨rb, hrb, hplace⟩ := h.announced other text' hother
    exact ⟨rb, (hothers rb (hfree rb hrb)).mpr hrb, hplace⟩
  · intro r hr hcopy hnone rb hrb hitem hl
    by_cases hr' : r.item = item
    · rw [htext r hr hr' (Or.inl hcopy), htext rb hrb (hitem.trans hr') (Or.inr hl)]
    · exact h.copied r ((hothers r hr').mp hr) hcopy hnone rb
        ((hothers rb (hitem ▸ hr')).mp hrb) hitem hl

end Store

end Polyglot
