import Polyglot.Proofs.Pool.Knowledge
import Polyglot.Proofs.Store.Convergence

namespace Polyglot

/-- Nothing that was heard keeps a handler from its work. -/
structure Clear (type : String) (item : ItemId) (b : LanguageId) (past : List Heard) : Prop where
  there : ∀ v, (⟨.content type (.hasItem item), .ok v⟩ : Heard) ∈ past → v = true
  base : ∀ o, (⟨.content type (.language .base), .ok o⟩ : Heard) ∈ past → ∃ l ∈ o, l.id = b
  answered : ∀ (q : Query) (e : Error), (Call.content type q).looks = true →
    (⟨.content type q, .error e⟩ : Heard) ∉ past

/-- Every copy of the item is good, unless it was read and is still to be overwritten. -/
structure Sweeping (event : Event) (good : Record → Prop) (past : List Heard) (s : Store) :
    Prop where
  seen : ∀ rs, (⟨.content event.contentType (.records event.item), .ok rs⟩ : Heard) ∈ past →
    ∀ r ∈ s.records, r.item = event.item → r.IsCopy event.language → good r ∨ r ∈ rs
  swept : ∀ id reply,
    (⟨.content event.contentType (.overwriteCopy id event.text event.actor), reply⟩ : Heard) ∈
      past →
    ∀ r ∈ s.records, r.id = id → r.item = event.item → r.IsCopy event.language → good r

theorem Store.text_of_overwriteCopy {d : Directory} {s : Store} (hs : s.Sound)
    (hfaults : s.faults = .none) {id : RecordId} {text : Text} {actor : Actor} {r : Record}
    (hr : r ∈ (s.answer d (.overwriteCopy id text actor)).2.records) (hid : r.id = id)
    (hfollows : r.follows = true) : r.text = text := by
  simp only [answer, overwriteCopy, hfaults, Faults.none, List.not_mem_nil, if_false] at hr
  cases hfind : s.record? id with
  | none =>
      rw [hfind] at hr
      have hnone := List.find?_eq_none.mp hfind r hr
      simp [hid] at hnone
  | some r₀ =>
      have hid₀ : r₀.id = id := by simpa using List.find?_some hfind
      have hr₀ := List.mem_of_find?_eq_some hfind
      simp only [hfind] at hr
      by_cases hfollows₀ : r₀.follows = true
      · rw [if_pos hfollows₀] at hr
        rcases mem_put.mp hr with ⟨_, hne⟩ | ⟨_, _, _, rfl⟩
        · exact absurd hid hne
        · rfl
      · rw [if_neg hfollows₀] at hr
        rw [hs.eq_of_id hr hr₀ (hid.trans hid₀.symm)] at hfollows
        exact absurd hfollows hfollows₀

section

variable {type : String} {item : ItemId} {b : LanguageId} {past : List Heard} {w : World}
  {s t : Store} {event : Event} {good good' : Record → Prop}

theorem Clear.nil (type : String) (item : ItemId) (b : LanguageId) : Clear type item b [] :=
  ⟨nofun, nofun, nofun⟩

theorem Clear.answer (h : Clear type item b past) {l : Language}
    (hbase : w.directory.base = some l) (hl : l.id = b) (hs : w.store? type = some s)
    (hfaults : s.faults = .none) (hlive : s.live item = true) (c : Call) :
    Clear type item b (⟨c, (World.answer c w).1⟩ :: past) := by
  refine ⟨?_, ?_, ?_⟩
  · intro v hv
    rcases List.mem_cons.mp hv with heq | hv
    · have hreply := World.told heq
      rw [World.reply_answer hs] at hreply
      rw [← Except.ok.inj hreply]
      exact hlive
    · exact h.there v hv
  · intro o ho
    rcases List.mem_cons.mp ho with heq | ho
    · have hreply := World.told heq
      rw [World.reply_answer hs] at hreply
      rw [← Except.ok.inj hreply]
      exact ⟨l, hbase, hl⟩
    · exact h.base o ho
  · intro q e hlooks he
    rcases List.mem_cons.mp he with heq | he
    · have hreply := World.told heq
      rw [World.reply_answer hs] at hreply
      cases q with
      | items => simp [Store.answer, Store.list, hfaults, Faults.none] at hreply
      | language => cases hreply
      | hasItem => cases hreply
      | records => cases hreply
      | insert => cases hlooks
      | overwriteCopy => cases hlooks
      | write => cases hlooks
    · exact h.answered q e hlooks he

theorem Clear.not_hindered (h : Clear event.contentType event.item event.language past) :
    ¬ HandlerHindered past event := by
  rintro (hgone | ⟨o, ho, hother⟩ | ⟨q, e, hlooks, he⟩)
  · cases h.there false hgone
  · obtain ⟨l, hl, hid⟩ := h.base o ho
    exact hother l hl hid
  · exact h.answered q e hlooks he

theorem Sweeping.nil (event : Event) (good : Record → Prop) (s : Store) :
    Sweeping event good [] s := ⟨nofun, nofun⟩

/-- What others do to the store is no harm if it leaves a copy good or as it was. -/
theorem Sweeping.mono (h : Sweeping event good past s)
    (hcopies : ∀ r ∈ t.records, r.item = event.item → r.IsCopy event.language →
      good' r ∨ (r ∈ s.records ∧ (good r → good' r))) :
    Sweeping event good' past t := by
  constructor
  · intro rs hread r hr hitem hcopy
    rcases hcopies r hr hitem hcopy with hgood | ⟨hr, hkeeps⟩
    · exact Or.inl hgood
    · exact (h.seen rs hread r hr hitem hcopy).imp hkeeps id
  · intro id reply hheard r hr hid hitem hcopy
    rcases hcopies r hr hitem hcopy with hgood | ⟨hr, hkeeps⟩
    · exact hgood
    · exact hkeeps (h.swept id reply hheard r hr hid hitem hcopy)

theorem Sweeping.answer {c : Call}
    (h : Sweeping event good past (c.at w.directory event.contentType s))
    (hs : w.store? event.contentType = some s) (hsound : s.Sound) (hfaults : s.faults = .none)
    (hgood : ∀ r, r.text = event.text → good r) :
    Sweeping event good (⟨c, (World.answer c w).1⟩ :: past)
      (c.at w.directory event.contentType s) := by
  constructor
  · intro rs hread r hr hitem hcopy
    rcases List.mem_cons.mp hread with heq | hread
    · have hreply := World.told heq
      rw [World.reply_answer hs] at hreply
      have hc : c = .content event.contentType (.records event.item) :=
        (congrArg Answered.question heq).symm
      subst hc
      rw [Call.at, if_pos rfl] at hr
      rw [← Except.ok.inj hreply]
      exact Or.inr (Store.mem_recordsOf.mpr ⟨hr, hitem⟩)
    · exact h.seen rs hread r hr hitem hcopy
  · intro id reply hheard r hr hid hitem hcopy
    rcases List.mem_cons.mp hheard with heq | hheard
    · have hc : c = .content event.contentType (.overwriteCopy id event.text event.actor) :=
        (congrArg Answered.question heq).symm
      subst hc
      rw [Call.at, if_pos rfl] at hr
      exact hgood r (Store.text_of_overwriteCopy hsound hfaults hr hid hcopy.1)
    · exact h.swept id reply hheard r hr hid hitem hcopy

/-- At the end of the handler every copy is good. -/
theorem Sweeping.good_of_covered (h : Sweeping event good past s) (hcovered : Covered past event)
    (hgood : ∀ r, r.text = event.text → good r) {r : Record} (hr : r ∈ s.records)
    (hitem : r.item = event.item) (hcopy : r.IsCopy event.language) : good r := by
  obtain ⟨rs, hread, hall⟩ := hcovered
  rcases h.seen rs hread r hr hitem hcopy with hdone | hmem
  · exact hdone
  · rcases hall r (Copies.mem_among.mpr ⟨hmem, hcopy⟩) with htext | ⟨reply, hheard⟩
    · exact hgood r htext
    · exact h.swept r.id reply hheard r hr rfl hitem hcopy

theorem text_of_handler {c : Call} {d : Directory} (h : (Job.handle event).Grounds past c)
    {r : Record} (hr : r ∈ (c.at d type s).records) : r ∈ s.records ∨ r.text = event.text := by
  rcases c.becomes_at d type s with heq | ⟨q, rfl, hbecomes⟩
  · rw [heq] at hr
    exact Or.inl hr
  · generalize (Call.content type q).at d type s = t at hr hbecomes
    cases hbecomes with
    | same => exact Or.inl hr
    | inserted =>
        cases h with
        | look hlooks => cases hlooks
        | filled hpass => cases hpass
    | overwritten r₀ text actor hr₀ hfollows =>
        generalize r₀.id = id at h hr
        rcases Store.mem_put.mp hr with ⟨hr, _⟩ | ⟨_, _, _, rfl⟩
        · exact Or.inl hr
        · cases h with
          | look hlooks => cases hlooks
          | followed => exact Or.inr rfl
          | refreshed hpass => cases hpass
    | written r₀ text follows actor hr₀ =>
        generalize r₀.id = id at h hr
        cases h with
        | look hlooks => cases hlooks

end

end Polyglot
