import Polyglot.Proofs.Backfill.Course
import Polyglot.Proofs.Store.History

namespace Polyglot

namespace Store

variable {s t : Store} {d : Directory} {refuse : Refusals}

theorem Becomes.ids_subset {q : Query} (h : s.Becomes q t) :
    s.records.map (·.id) ⊆ t.records.map (·.id) := by
  have hput (id : RecordId) (text : Text) (follows : Bool) (actor : Actor) :
      (s.put id text follows actor).records.map (·.id) = s.records.map (·.id) := by
    have hplaces := congrArg (List.map Prod.fst) (map_place_put s id text follows actor)
    rwa [List.map_map, List.map_map] at hplaces
  cases h with
  | same => exact List.Subset.refl _
  | inserted => exact List.map_subset _ (List.subset_append_left _ _)
  | overwritten r text actor => rw [hput]; exact List.Subset.refl _
  | written r text follows actor => rw [hput]; exact List.Subset.refl _

theorem Sound.length_issued (hs : s.Sound) (ht : t.Sound)
    (hkept : s.records.map (·.id) ⊆ t.records.map (·.id)) :
    (s.issued t).length + s.records.length = t.records.length := by
  have hsplit := @List.length_eq_length_filter_add _ (t.records.map (·.id)) fun id =>
    decide (id ∈ s.records.map (·.id))
  have hold : ((t.records.map (·.id)).filter fun id => id ∈ s.records.map (·.id)).Perm
      (s.records.map (·.id)) := by
    refine (List.perm_ext_iff_of_nodup (ht.ids_nodup.filter _) hs.ids_nodup).mpr fun id => ?_
    rw [List.mem_filter, decide_eq_true_eq]
    exact and_iff_right_of_imp fun hid => hkept hid
  have hissued : (s.issued t).length =
      ((t.records.map (·.id)).filter fun id => !decide (id ∈ s.records.map (·.id))).length := by
    simp only [issued, decide_not]
  rw [hold.length_eq, List.length_map, List.length_map] at hsplit
  omega

end Store

namespace Session

variable {α : Type} {d : Directory} {refuse : Refusals} {σ : Session}

theorem ids_subset_run (f : Flow α) (σ : Session) :
    σ.store.records.map (·.id) ⊆ (f.run (answer d refuse) σ).2.store.records.map (·.id) := by
  induction f generalizing σ with
  | done a => exact List.Subset.refl _
  | ask q next ih =>
      have hstep : σ.store.records.map (·.id) ⊆
          (answer d refuse q σ).2.store.records.map (·.id) := by
        rw [answer]
        cases refuse σ.calls q with
        | some e => exact List.Subset.refl _
        | none => exact (Store.becomes_answer d q).ids_subset
      exact List.Subset.trans hstep (ih _ _)

end Session

/-- The items could not be listed, the records of one could not be read, or those that were to be
added to it were not. -/
def Told.spoils : Told → Bool
  | ⟨.items, .error _⟩ => true
  | ⟨.records _, .error _⟩ => true
  | ⟨.insert _ _ _, .error _⟩ => true
  | _ => false

namespace Backfill

open Reconciliation

section

variable {c : Course} {language : LanguageId} {item : ItemId} {items : List ItemId}
  {entry entry' : Entry} {result : Except Error Nat} {σ σ' : Session}

theorem Supply.spoiled (h : Supply c language item σ result σ') :
    ∃ calls, σ'.calls = calls ++ σ.calls ∧ ∀ entry : Entry,
      (entry.enter result).itemFailures = entry.itemFailures + calls.countP Told.spoils := by
  cases h with
  | unread e => exact ⟨[⟨.records item, .error e⟩], rfl, fun _ => rfl⟩
  | present => exact ⟨[⟨.records item, .ok (σ.store.recordsOf item)⟩], rfl, fun _ => rfl⟩
  | baseless => exact ⟨[⟨.records item, .ok (σ.store.recordsOf item)⟩], rfl, fun _ => rfl⟩
  | @supplied _ rb _ _ _ hfill =>
      cases hfill with
      | filled =>
          exact ⟨[⟨.insert item [.copy language rb.text] c.actor, .ok ()⟩,
            ⟨.records item, .ok (σ.store.recordsOf item)⟩], rfl, fun _ => rfl⟩
      | failed _ e =>
          exact ⟨[⟨.insert item [.copy language rb.text] c.actor, .error e⟩,
            ⟨.records item, .ok (σ.store.recordsOf item)⟩], rfl, fun _ => rfl⟩

theorem Supplies.spoiled (h : Supplies c language items entry σ entry' σ') :
    ∃ calls, σ'.calls = calls ++ σ.calls ∧
      entry'.itemFailures = entry.itemFailures + calls.countP Told.spoils := by
  induction h with
  | nil => exact ⟨[], rfl, rfl⟩
  | cons hsupply _ ih =>
      obtain ⟨earlier, hearlier, hfirst⟩ := hsupply.spoiled
      obtain ⟨calls, hcalls, hrest⟩ := ih
      refine ⟨calls ++ earlier, ?_, ?_⟩
      · rw [hcalls, hearlier, List.append_assoc]
      · rw [hrest, hfirst, List.countP_append]
        omega

theorem Filling.failed_iff (h : Filling c language σ entry σ') :
    ∃ calls, σ'.calls = calls ++ σ.calls ∧
      (entry.failed = true ↔ ∃ x ∈ calls, x.spoils = true) := by
  cases h with
  | unlisted e =>
      exact ⟨[⟨.items, .error e⟩], rfl, iff_of_true rfl ⟨_, List.mem_cons_self, rfl⟩⟩
  | filled _ hsupplies =>
      obtain ⟨calls, hcalls, hfailures⟩ := hsupplies.spoiled
      refine ⟨calls ++ [⟨.items, .ok σ.store.liveItems⟩], ?_, ?_⟩
      · rw [hcalls, listed, Session.note, List.append_assoc, List.singleton_append]
      · have hlisted : Told.spoils ⟨.items, .ok σ.store.liveItems⟩ = false := rfl
        have hzero : Entry.zero.itemFailures = 0 := rfl
        rw [decide_eq_true_eq, hfailures, hzero, Nat.zero_add, List.countP_pos_iff]
        simp [hlisted, or_and_right, exists_or]

theorem Filling.created (h : Filling c language σ entry σ') :
    σ'.store.records.length = σ.store.records.length + entry.created := by
  cases h with
  | unlisted => rfl
  | filled _ hsupplies => exact hsupplies.created

theorem Filling.frame (h : Filling c language σ entry σ') (hs : σ.store.Sound) :
    Frame σ.store σ'.store := by
  cases h with
  | unlisted => exact .refl hs
  | filled _ hsupplies =>
      have hlisted : (listed σ).store.Sound := hs
      exact hsupplies.frame hlisted fun _ => contains_of_mem_liveItems

end

end Backfill

namespace Reconciliation

theorem Scan.created {d : Directory} {refuse : Refusals} {type : String} {actor : Actor}
    {pass : Pass} {σ σ' : Session} (h : Scan d refuse type actor σ pass σ') :
    σ'.store.records.length = σ.store.records.length + pass.report.created := by
  cases h with
  | aborted e hlooked => rw [hlooked.store]; rfl
  | scanned _ _ hround => exact hround.counts.created

theorem Scan.sound {d : Directory} {refuse : Refusals} {type : String} {actor : Actor}
    {pass : Pass} {σ σ' : Session} (h : Scan d refuse type actor σ pass σ')
    (hs : σ.store.Sound) : σ'.store.Sound := by
  cases h with
  | aborted e hlooked => rwa [hlooked.store]
  | scanned _ _ hround => exact (hround.frame hs fun _ => contains_of_mem_liveItems).sound

end Reconciliation

namespace Backfill

open Reconciliation

/-- Every live item with a base text has a record in the language, and its copies hold that text. -/
structure Finished (language base : LanguageId) (t : Store) : Prop where
  present : ∀ item text, t.baseText? base item = some text →
    ∃ r ∈ t.records, r.item = item ∧ r.language = language
  equal : ∀ item text, t.baseText? base item = some text →
    ∀ r ∈ t.records, r.item = item → r.IsCopy base → r.text = text

/-- The tally says what has become of a content type: `σ` is its session before the backfill, `σ₁`
the one between the passes, `σ'` the one after them with the second pass's report. -/
structure Accounts (language base : LanguageId) (σ σ₁ σ' : Session) (report : Report)
    (entry : Entry) : Prop where
  created : entry.created = (σ.store.issued σ'.store).length
  failed : ∃ calls, σ₁.calls = calls ++ σ.calls ∧
    (entry.failed = true ↔ (∃ x ∈ calls, x.spoils = true) ∨ report.isClean = false)
  finished : entry.failed = false → Finished language base σ'.store

variable {d : Directory} {code : String} {language base : Language} {σ : Session}

theorem finished_of_clean {refuse : Refusals} {type : String} {actor : Actor} {pass : Pass}
    {σ' : Session} (h : Scan d refuse type actor σ pass σ') (hs : σ.store.Sound)
    (hbase : d.base = some base) (hlanguage : language.id ∈ d.active.map (·.id))
    (hclean : pass.report.isClean = true) : Finished language.id base.id σ'.store := by
  obtain ⟨haborted, hfaultless⟩ := isClean_iff.mp hclean
  rcases h.effect hs with ⟨hsome, -⟩ | ⟨base', hbase', -, -, htreats⟩
  · rw [haborted] at hsome
    cases hsome
  · obtain rfl : base' = base := Option.some_inj.mp (hbase'.symm.trans hbase)
    have hsettled := htreats.settled hfaultless
    obtain ⟨l, hl, hid⟩ := List.mem_map.mp hlanguage
    refine ⟨fun item text hitem => ?_, fun item text hitem r hr hof hcopy => ?_⟩
    · exact hid ▸ hsettled.covered item text hitem l hl
    · exact hsettled.copied r hr hcopy text (hof.symm ▸ hitem)

/-- Whatever calls fail, the two passes over a content type are accounted for. -/
theorem accounts_passes (refuse : Refusals) (type : String) (actor : Actor) (hs : σ.store.Sound)
    (hcode : d.byCode code = some language) (havailable : language.available = true)
    (hbase : d.base = some base) :
    let first := (fill language.id base.id actor).run (Session.answer d refuse) σ
    let second := (Reconciliation.run type actor).run (Session.answer d refuse) first.2
    Accounts language.id base.id σ first.2 second.2 second.1.report
      (first.1.conclude second.1.report) := by
  intro first second
  have hfilling : Filling _ language.id σ first.1 first.2 :=
    filling_run d ⟨refuse, base.id, others d base.id, actor⟩ language.id hs
  have hfilled := (hfilling.frame hs).sound
  have hscan : Scan d refuse type actor first.2 second.1 second.2 :=
    scan_run d refuse type actor hfilled
  obtain ⟨calls, hcalls, hfailed⟩ := hfilling.failed_iff
  have hconcluded : (first.1.conclude second.1.report).failed = true ↔
      first.1.failed = true ∨ second.1.report.isClean = false := by
    simp [Entry.conclude]
  refine ⟨?_, ⟨calls, hcalls, hconcluded.trans (or_congr_left hfailed)⟩, fun hdone => ?_⟩
  · have hkept : σ.store.records.map (·.id) ⊆ second.2.store.records.map (·.id) :=
      List.Subset.trans (Session.ids_subset_run _ σ) (Session.ids_subset_run _ first.2)
    have hissued := hs.length_issued (hscan.sound hfilled) hkept
    have hfirst := hfilling.created
    have hsecond := hscan.created
    show first.1.created + second.1.report.created = _
    omega
  · have hclean : second.1.report.isClean = true := by
      by_contra hdirty
      rw [hconcluded.mpr (Or.inr (Bool.eq_false_iff.mpr hdirty))] at hdone
      cases hdone
    exact finished_of_clean hscan hfilled hbase (Directory.id_mem_active hcode havailable) hclean

end Backfill

end Polyglot
