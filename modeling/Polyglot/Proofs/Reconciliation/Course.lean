import Polyglot.Flow.Reconciliation
import Polyglot.Proofs.Flow.Outcome
import Polyglot.Proofs.Store.Session

/-!
How a pass can go while calls fail: one case for everything that can happen to a copy, to the copies
that an item lacks and to an item. Whatever is refused, a pass over a sound store goes in one of
these ways.
-/

namespace Polyglot.Reconciliation

/-- What a pass goes by when it knows the languages. -/
structure Course where
  refuse : Refusals
  base : LanguageId
  active : List LanguageId
  actor : Actor

/-- The copies are brought to a text one after another. -/
inductive Sweep (c : Course) (text : Text) : List Record → Session → Tally → Session → Prop where
  | nil (σ : Session) : Sweep c text [] σ .zero σ
  | equal {r : Record} {rest : List Record} {σ σ' : Session} {tally : Tally}
      (htext : r.text = text) (hrest : Sweep c text rest σ tally σ') :
      Sweep c text (r :: rest) σ (⟨0, 1, 0, 0⟩ + tally) σ'
  | written {r : Record} {rest : List Record} {σ σ' : Session} {tally : Tally}
      (htext : r.text ≠ text) (hfree : r.language ∉ σ.store.faults.overwritesIn)
      (hrest : Sweep c text rest
        (σ.note (.overwriteCopy r.id text c.actor) (.ok true) (σ.store.put r.id text true c.actor))
        tally σ') :
      Sweep c text (r :: rest) σ (⟨1, 0, 0, 0⟩ + tally) σ'
  | failed {r : Record} {rest : List Record} {σ σ' : Session} {tally : Tally} (e : Error)
      (htext : r.text ≠ text)
      (hwhy : c.refuse.Bites ∨ r.language ∈ σ.store.faults.overwritesIn)
      (hrest : Sweep c text rest
        (σ.note (.overwriteCopy r.id text c.actor) (.error e) σ.store) tally σ') :
      Sweep c text (r :: rest) σ (⟨0, 0, 0, 1⟩ + tally) σ'

/-- The copies that an item lacks are added together. -/
inductive Fill (c : Course) (item : ItemId) (text : Text) :
    List LanguageId → Session → Except Error Nat → Session → Prop where
  | nothing (σ : Session) : Fill c item text [] σ (.ok 0) σ
  | filled {gaps : List LanguageId} (σ : Session) (hgaps : gaps ≠ [])
      (hfree : σ.store.faults.copyInserts = false) :
      Fill c item text gaps σ (.ok gaps.length)
        (σ.note (.insert item (gaps.map (Draft.copy · text)) c.actor) (.ok ())
          (σ.store.append item (gaps.map (Draft.copy · text)) c.actor))
  | failed {gaps : List LanguageId} (σ : Session) (e : Error) (hgaps : gaps ≠ [])
      (hwhy : c.refuse.Bites ∨ σ.store.faults.copyInserts = true) :
      Fill c item text gaps σ (.error e)
        (σ.note (.insert item (gaps.map (Draft.copy · text)) c.actor) (.error e) σ.store)

def read (σ : Session) (item : ItemId) : Session :=
  σ.note (.records item) (.ok (σ.store.recordsOf item)) σ.store

inductive Visit (c : Course) (item : ItemId) :
    Session → Except Error ItemOutcome → Session → Prop where
  | unread (σ : Session) (e : Error) (hwhy : c.refuse.Bites) :
      Visit c item σ (.error e) (σ.note (.records item) (.error e) σ.store)
  | baseless (σ : Session) (hbase : σ.store.recordIn? item c.base = none) :
      Visit c item σ (.ok .noBase) (read σ item)
  | tended {σ σ₁ σ' : Session} {rb : Record} {tally : Tally} {result : Except Error Nat}
      (hbase : σ.store.recordIn? item c.base = some rb)
      (hsweep : Sweep c rb.text (Copies.among (σ.store.recordsOf item) c.base) (read σ item) tally
        σ₁)
      (hfill : Fill c item rb.text
        (Copies.missing ((σ.store.recordsOf item).map (·.language)) c.active) σ₁ result σ') :
      Visit c item σ (result.map (.reconciled tally)) σ'

inductive Round (c : Course) : List ItemId → Pass → Session → Pass → Session → Prop where
  | nil (pass : Pass) (σ : Session) : Round c [] pass σ pass σ
  | cons {item : ItemId} {rest : List ItemId} {pass pass' : Pass} {σ σ₁ σ' : Session}
      {outcome : Except Error ItemOutcome} (hvisit : Visit c item σ outcome σ₁)
      (hrest : Round c rest (pass.enter outcome) σ₁ pass' σ') :
      Round c (item :: rest) pass σ pass' σ'

/-- The languages other than the base language in which an item is to have a record. -/
def others (d : Directory) (base : LanguageId) : List LanguageId :=
  (d.active.map (·.id)).filter (· ≠ base)

def started (type : String) : Pass := ⟨.start type, Metrics.zero.countReconcileRun⟩

def abandoned (type : String) (e : Error) : Pass :=
  { started type with report := { (started type).report with aborted := some e } }

def surveyed (d : Directory) (σ : Session) : Session :=
  ((σ.note (.language .base) (.ok d.base) σ.store).note (.language .active) (.ok d.active)
    σ.store).note .items (.ok σ.store.liveItems) σ.store

theorem surveyed_looked (d : Directory) (σ : Session) : Session.Looked σ (surveyed d σ) :=
  (((Session.Looked.refl σ).note rfl _).note rfl _).note rfl _

/-- A pass ends before its first item, or it visits all live items. -/
inductive Scan (d : Directory) (refuse : Refusals) (type : String) (actor : Actor) :
    Session → Pass → Session → Prop where
  | aborted {σ σ' : Session} (e : Error) (hlooked : Session.Looked σ σ')
      (hwhy : refuse.Bites ∨ d.base = none ∨ σ.store.faults.listing = true) :
      Scan d refuse type actor σ (abandoned type e) σ'
  | scanned {σ σ' : Session} {pass : Pass} {base : Language} (hbase : d.base = some base)
      (hlisting : σ.store.faults.listing = false)
      (hround : Round ⟨refuse, base.id, others d base.id, actor⟩ σ.store.liveItems (started type)
        (surveyed d σ) pass σ') :
      Scan d refuse type actor σ pass σ'

/-- What a pass never changes about a store. -/
structure Frame (s t : Store) : Prop where
  sound : t.Sound
  name : t.name = s.name
  items : t.items = s.items
  faults : t.faults = s.faults

theorem Frame.refl {s : Store} (hs : s.Sound) : Frame s s := ⟨hs, rfl, rfl, rfl⟩

theorem Frame.trans {s t u : Store} (h : Frame s t) (h' : Frame t u) : Frame s u :=
  ⟨h'.sound, h'.name.trans h.name, h'.items.trans h.items, h'.faults.trans h.faults⟩

theorem mem_gaps_iff {s : Store} {item : ItemId} {active : List LanguageId} {l : LanguageId} :
    l ∈ Copies.missing ((s.recordsOf item).map (·.language)) active ↔
      l ∈ active ∧ s.recordIn? item l = none := by
  rw [Store.recordIn?_eq_none_iff_not_mem, ← Store.mem_map_language_recordsOf,
    Copies.mem_missing_iff]

section

variable {d : Directory} {c : Course} {text : Text} {rs : List Record} {σ σ₁ σ' : Session}
  {tally : Tally} {item : ItemId} {gaps : List LanguageId} {result : Except Error Nat}
  {outcome : Except Error ItemOutcome} {items : List ItemId} {pass pass' : Pass}

theorem Sweep.frame (h : Sweep c text rs σ tally σ') (hs : σ.store.Sound) :
    Frame σ.store σ'.store := by
  induction h with
  | nil σ => exact .refl hs
  | equal _ _ ih => exact ih hs
  | @written r _ σ _ _ _ _ _ ih =>
      have hput := hs.put r.id text true c.actor
      exact Frame.trans ⟨hput, rfl, rfl, rfl⟩ (ih hput)
  | failed _ _ _ _ ih => exact ih hs

theorem Sweep.places (h : Sweep c text rs σ tally σ') :
    σ'.store.records.map Record.place = σ.store.records.map Record.place := by
  induction h with
  | nil σ => rfl
  | equal _ _ ih => exact ih
  | written _ _ _ ih => exact ih.trans (Store.map_place_put _ _ _ _ _)
  | failed _ _ _ _ ih => exact ih

theorem Sweep.recordIn?_eq_none_iff (h : Sweep c text rs σ tally σ') (l : LanguageId) :
    σ'.store.recordIn? item l = none ↔ σ.store.recordIn? item l = none := by
  simp only [Store.recordIn?_eq_none_iff_not_mem, Store.mem_languagesOf_congr h.places]

theorem Fill.frame (h : Fill c item text gaps σ result σ') (hs : σ.store.Sound)
    (hitem : σ.store.items.contains item = true) (hnodup : gaps.Nodup)
    (hfree : ∀ l ∈ gaps, σ.store.recordIn? item l = none) : Frame σ.store σ'.store := by
  cases h with
  | nothing => exact .refl hs
  | failed e => exact .refl hs
  | filled =>
      refine ⟨hs.append c.actor hitem ?_ ?_, rfl, rfl, rfl⟩
      · rw [List.map_map]
        exact hnodup.map fun _ _ h => h
      · intro draft hdraft
        obtain ⟨l, hl, rfl⟩ := List.mem_map.mp hdraft
        exact Store.recordIn?_eq_none_iff.mp (hfree l hl)

theorem Visit.frame (h : Visit c item σ outcome σ') (hs : σ.store.Sound)
    (hitem : σ.store.items.contains item = true) : Frame σ.store σ'.store := by
  cases h with
  | unread e hwhy => exact .refl hs
  | baseless hbase => exact .refl hs
  | tended hbase hsweep hfill =>
      have hswept := hsweep.frame hs
      refine hswept.trans (hfill.frame hswept.sound ?_ (Copies.missing_spec _ _).1 ?_)
      · rw [hswept.items]
        exact hitem
      · intro l hl
        exact (hsweep.recordIn?_eq_none_iff l).mpr (mem_gaps_iff.mp hl).2

theorem Round.frame (h : Round c items pass σ pass' σ') (hs : σ.store.Sound)
    (hitems : ∀ item ∈ items, σ.store.items.contains item = true) :
    Frame σ.store σ'.store := by
  induction h with
  | nil => exact .refl hs
  | cons hvisit _ ih =>
      have hframe := hvisit.frame hs (hitems _ List.mem_cons_self)
      refine hframe.trans (ih hframe.sound fun item hitem => ?_)
      rw [hframe.items]
      exact hitems item (List.mem_cons_of_mem _ hitem)

theorem sweep_run (hs : σ.store.Sound) (hrs : ∀ r ∈ rs, r ∈ σ.store.records ∧ r.follows = true)
    (hids : (rs.map (·.id)).Nodup) :
    let out := (Copies.overwriteAll text c.actor rs).run (Session.answer d c.refuse) σ
    Sweep c text rs σ out.1 out.2 := by
  induction rs generalizing σ with
  | nil => exact .nil σ
  | cons r rest ih =>
      obtain ⟨hr, hfollows⟩ := hrs r List.mem_cons_self
      have hrest (r' : Record) (hr' : r' ∈ rest) := hrs r' (List.mem_cons_of_mem r hr')
      obtain ⟨hfirst, hids⟩ := List.nodup_cons.mp hids
      simp only [Copies.overwriteAll, Copies.overwrite, Program.run_bind]
      by_cases htext : r.text = text
      · rw [if_pos htext]
        exact .equal htext (ih hs hrest hids)
      · rw [if_neg htext]
        simp only [Program.run_bind, Flow.run_overwriteCopy, Program.run_query]
        rcases Session.answer_overwriteCopy d c.refuse hs hr hfollows text c.actor with
          ⟨hfree, hanswer⟩ | ⟨e, hwhy, hanswer⟩
        · rw [hanswer]
          refine .written htext hfree (ih (hs.put r.id text true c.actor) ?_ hids)
          intro r' hr'
          refine ⟨Store.mem_put.mpr (Or.inl ⟨(hrest r' hr').1, fun hid => ?_⟩), (hrest r' hr').2⟩
          exact hfirst (List.mem_map.mpr ⟨r', hr', hid⟩)
        · rw [hanswer]
          exact .failed e htext hwhy (ih hs hrest hids)

theorem converge_run (d : Directory) (c : Course) (item : ItemId) (text : Text)
    (hs : σ.store.Sound) :
    let out := (Copies.converge (σ.store.recordsOf item) c.base text c.actor).run
      (Session.answer d c.refuse) (read σ item)
    Sweep c text (Copies.among (σ.store.recordsOf item) c.base) (read σ item) out.1 out.2 := by
  refine sweep_run hs (fun r hr => ?_) ?_
  · obtain ⟨hmem, hfollows, _⟩ := Copies.mem_among.mp hr
    exact ⟨(Store.mem_recordsOf.mp hmem).1, hfollows⟩
  · exact (hs.nodup_ids_recordsOf item).sublist (List.filter_sublist.map _)

theorem fill_run (d : Directory) (c : Course) (text : Text) {records : List Record}
    (active : List LanguageId) (hitem : σ.store.items.contains item = true)
    (hrecords : ∀ l ∈ σ.store.languagesOf item, l ∈ records.map (·.language)) :
    let out := (Copies.fillGaps item records active text c.actor).run.run
      (Session.answer d c.refuse) σ
    Fill c item text (Copies.missing (records.map (·.language)) active) σ out.1 out.2 := by
  by_cases hmissing : Copies.missing (records.map (·.language)) active = []
  · rw [Copies.run_fillGaps_of_full hmissing, hmissing]
    exact .nothing σ
  · have hrepeat := Copies.firstRepeat_missing hrecords active text
    have hfollows := Copies.any_follows_copies hmissing text
    rw [Copies.run_fillGaps_of_gap hmissing, Program.run_ask]
    rcases Session.answer_insert d c.refuse c.actor hitem hrepeat with
      ⟨hallowed, hanswer⟩ | ⟨e, hwhy, hanswer⟩
    · rw [hfollows, Bool.and_true] at hallowed
      rw [hanswer]
      exact .filled σ hmissing hallowed
    · rw [hfollows, Bool.and_true] at hwhy
      rw [hanswer]
      exact .failed σ e hmissing hwhy

theorem run_lift_bind {α β : Type} (flow : Flow α) (f : α → Attempt β) :
    ((liftM flow : Attempt α) >>= f).run = flow >>= fun a => (f a).run := by
  change (ExceptT.lift flow >>= f).run = _
  exact ExceptT.run_bind_lift flow f

theorem visit_run (hs : σ.store.Sound) (hitem : σ.store.items.contains item = true) :
    let out := (reconcileItem c.base c.active c.actor item).run.run (Session.answer d c.refuse) σ
    Visit c item σ out.1 out.2 := by
  rw [reconcileItem, Flow.records]
  have hread : (σ.store.answer d (.records item)).1 = .ok (σ.store.recordsOf item) := rfl
  rcases Session.run_demand c.refuse rfl hread _ with ⟨e, hwhy, hrun⟩ | hrun
  · rw [hrun]
    exact .unread σ e hwhy
  rw [← read] at hrun
  rw [hrun, hs.find?_recordsOf_eq]
  cases hbase : σ.store.recordIn? item c.base with
  | none => exact .baseless σ hbase
  | some rb =>
      dsimp only
      rw [run_lift_bind, Program.run_bind]
      have hsweep := converge_run d c item rb.text hs
      generalize (Copies.converge (σ.store.recordsOf item) c.base rb.text c.actor).run
        (Session.answer d c.refuse) (read σ item) = out at hsweep ⊢
      obtain ⟨tally, σ₁⟩ := out
      -- The sweep leaves the item and its languages as they were read.
      have hitem₁ : σ₁.store.items.contains item = true := (hsweep.frame hs).items ▸ hitem
      have hrecords : ∀ l ∈ σ₁.store.languagesOf item,
          l ∈ (σ.store.recordsOf item).map (·.language) := by
        intro l hl
        rw [Store.mem_languagesOf_congr hsweep.places] at hl
        exact Store.mem_map_language_recordsOf.mpr hl
      have hfill := fill_run d c rb.text c.active hitem₁ hrecords
      rw [Flow.run_attempt]
      generalize (Copies.fillGaps item (σ.store.recordsOf item) c.active rb.text c.actor).run.run
        (Session.answer d c.refuse) σ₁ = out at hfill ⊢
      obtain ⟨e | created, σ'⟩ := out
      · exact .tended hbase hsweep hfill
      · exact .tended hbase hsweep hfill

theorem round_run (hs : σ.store.Sound)
    (hitems : ∀ item ∈ items, σ.store.items.contains item = true) :
    let out := (reconcileItems c.base c.active c.actor items pass).run
      (Session.answer d c.refuse) σ
    Round c items pass σ out.1 out.2 := by
  induction items generalizing pass σ with
  | nil => exact .nil pass σ
  | cons item rest ih =>
      have hitem := hitems item List.mem_cons_self
      have hvisit := visit_run (d := d) (c := c) hs hitem
      have hframe := hvisit.frame hs hitem
      simp only [reconcileItems, Program.run_bind]
      refine .cons hvisit (ih hframe.sound fun other hother => ?_)
      rw [hframe.items]
      exact hitems other (List.mem_cons_of_mem item hother)

theorem contains_of_mem_liveItems {s : Store} (h : item ∈ s.liveItems) :
    s.items.contains item = true := by
  have hlive := Store.mem_liveItems.mp h
  rw [Store.live, beq_iff_eq] at hlive
  simp [SortedMap.contains, hlive]

theorem survey_run (d : Directory) (refuse : Refusals) (σ : Session) :
    (∃ e σ', Session.Looked σ σ' ∧
        (refuse.Bites ∨ d.base = none ∨ σ.store.faults.listing = true) ∧
        survey.run.run (Session.answer d refuse) σ = (.error e, σ')) ∨
      ∃ base, d.base = some base ∧ σ.store.faults.listing = false ∧
        survey.run.run (Session.answer d refuse) σ =
          (.ok (base.id, others d base.id, σ.store.liveItems), surveyed d σ) := by
  have hlooked := Session.Looked.refl σ
  have hbase : (σ.store.answer d (.language .base)).1 = .ok d.base := rfl
  rw [survey, Flow.baseLanguage]
  rcases Session.run_demand refuse rfl hbase _ with ⟨e, hwhy, hrun⟩ | hrun
  · exact Or.inl ⟨e, _, hlooked.note rfl _, Or.inl hwhy, hrun⟩
  rw [hrun]
  replace hlooked := hlooked.note (q := .language .base) rfl (.ok d.base)
  set σ₁ := σ.note (.language .base) (.ok d.base) σ.store with hσ₁
  cases hnone : d.base with
  | none => exact Or.inl ⟨.noBaseLanguage, σ₁, hlooked, Or.inr (Or.inl rfl), rfl⟩
  | some base =>
      have hactive : (σ₁.store.answer d (.language .active)).1 = .ok d.active := rfl
      dsimp only
      rw [Flow.activeLanguages]
      rcases Session.run_demand refuse rfl hactive _ with ⟨e, hwhy, hrun⟩ | hrun
      · exact Or.inl ⟨e, _, hlooked.note rfl _, Or.inl hwhy, hrun⟩
      rw [hrun]
      replace hlooked := hlooked.note (q := .language .active) rfl (.ok d.active)
      set σ₂ := σ₁.note (.language .active) (.ok d.active) σ₁.store with hσ₂
      have hitems : (σ₂.store.answer d .items).1 = σ.store.list := rfl
      rw [Store.list] at hitems
      rw [Flow.items]
      cases hlisting : σ.store.faults.listing with
      | true =>
          rw [if_pos hlisting] at hitems
          obtain ⟨e, hrun⟩ := Session.run_demand_error refuse rfl hitems _
          exact Or.inl ⟨e, _, hlooked.note rfl _, Or.inr (Or.inr rfl), hrun⟩
      | false =>
          rw [if_neg (by simp [hlisting])] at hitems
          rcases Session.run_demand refuse rfl hitems _ with ⟨e, hwhy, hrun⟩ | hrun
          · exact Or.inl ⟨e, _, hlooked.note rfl _, Or.inl hwhy, hrun⟩
          rw [hrun]
          exact Or.inr ⟨base, rfl, rfl, rfl⟩

/-- Every run of a pass goes in one of these ways. -/
theorem scan_run (d : Directory) (refuse : Refusals) (type : String) (actor : Actor)
    (hs : σ.store.Sound) :
    let out := (run type actor).run (Session.answer d refuse) σ
    Scan d refuse type actor σ out.1 out.2 := by
  simp only [run, Program.run_bind]
  rcases survey_run d refuse σ with ⟨e, _, hlooked, hwhy, hrun⟩ | ⟨base, hbase, hlisting, hrun⟩
  · rw [hrun]
    exact .aborted e hlooked hwhy
  · rw [hrun]
    refine .scanned hbase hlisting ?_
    exact round_run (c := ⟨refuse, base.id, others d base.id, actor⟩) hs
      fun item => contains_of_mem_liveItems

end

end Polyglot.Reconciliation
