import Polyglot.Proofs.Backfill.Course
import Polyglot.Proofs.Store.History

namespace Polyglot

namespace Store

variable {s t : Store}

theorem Sound.perm_recordsOf_of_places (hs : s.Sound) (ht : t.Sound) {item : ItemId}
    (h : ∀ l, t.recordIn? item l = s.recordIn? item l) :
    (t.recordsOf item).Perm (s.recordsOf item) := by
  have hmem {u : Store} (hu : u.Sound) {r : Record} :
      r ∈ u.recordsOf item ↔ u.recordIn? item r.language = some r := by
    rw [mem_recordsOf, hu.recordIn?_eq_some_iff]
    simp
  refine (List.perm_ext_iff_of_nodup (ht.nodup_ids_recordsOf item).of_map
    (hs.nodup_ids_recordsOf item).of_map).mpr fun r => ?_
  rw [hmem ht, hmem hs, h]

theorem Sound.length_eq_of_places (hs : s.Sound) (ht : t.Sound)
    (h : ∀ item l, (t.recordIn? item l).isSome = (s.recordIn? item l).isSome) :
    t.records.length = s.records.length := by
  have hmem {u : Store} (hu : u.Sound) (key : ItemId × LanguageId) :
      key ∈ u.records.map (fun r => (r.item, r.language)) ↔
        (u.recordIn? key.1 key.2).isSome = true := by
    rw [Option.isSome_iff_exists, List.mem_map]
    constructor
    · rintro ⟨r, hr, rfl⟩
      exact ⟨r, hu.recordIn?_of_mem hr⟩
    · rintro ⟨r, hr⟩
      obtain ⟨hr, hitem, hlanguage⟩ := mem_of_recordIn? hr
      exact ⟨r, hr, Prod.ext hitem hlanguage⟩
  have hperm := (List.perm_ext_iff_of_nodup ht.keys_nodup hs.keys_nodup).mpr fun key => by
    rw [hmem ht, hmem hs, h]
  simpa using hperm.length_eq

end Store

namespace Reconciliation

def stale (base : LanguageId) (s : Store) (item : ItemId) : Nat :=
  match s.recordIn? item base with
  | none => 0
  | some rb => (s.recordsOf item).countP fun r => r.IsCopy base ∧ r.text ≠ rb.text

section

variable {d : Directory} {c : Course} {base : LanguageId} {text : Text} {rs : List Record}
  {s t : Store} {σ σ' : Session} {tally : Tally} {item i : ItemId} {items : List ItemId}
  {outcome : Except Error ItemOutcome} {pass pass' : Pass}

theorem stale_congr (hs : s.Sound) (ht : t.Sound)
    (h : ∀ l, t.recordIn? item l = s.recordIn? item l) : stale base t item = stale base s item := by
  rw [stale, stale, h base]
  cases s.recordIn? item base with
  | none => rfl
  | some rb => exact (hs.perm_recordsOf_of_places ht h).countP_eq _

theorem Sweep.synced (h : Sweep c text rs σ tally σ') (hcalm : ¬ c.refuse.Bites)
    (hfaults : σ.store.faults = .none) : tally.synced = rs.countP (·.text ≠ text) := by
  induction h with
  | nil => rfl
  | equal htext _ ih => simp [htext, ih hfaults]
  | written htext _ _ ih => simp [htext, ih hfaults, Nat.add_comm]
  | failed e _ hwhy =>
      rcases hwhy with hbites | hblocked
      · exact absurd hbites hcalm
      · rw [hfaults] at hblocked
        cases hblocked

theorem Fill.isOk {gaps : List LanguageId} {result : Except Error Nat}
    (h : Fill c item text gaps σ result σ') (hcalm : ¬ c.refuse.Bites)
    (hfaults : σ.store.faults = .none) : ∃ created, result = .ok created := by
  cases h with
  | nothing => exact ⟨_, rfl⟩
  | filled => exact ⟨_, rfl⟩
  | failed _ e _ hwhy =>
      rw [hfaults] at hwhy
      exact absurd hwhy (by simp [hcalm, Faults.none])

theorem Visit.synced (h : Visit c item σ outcome σ') (hs : σ.store.Sound)
    (hcalm : ¬ c.refuse.Bites) (hfaults : σ.store.faults = .none) :
    (tallyOf outcome).synced = stale c.base σ.store item := by
  cases h with
  | unread e hwhy => exact absurd hwhy hcalm
  | baseless hbase => rw [stale, hbase]; rfl
  | @tended _ _ rb tally _ hbase hsweep hfill =>
      obtain ⟨created, rfl⟩ := hfill.isOk hcalm ((hsweep.frame hs).faults.trans hfaults)
      rw [show tallyOf _ = tally from rfl, hsweep.synced hcalm hfaults, stale, hbase,
        Copies.among, List.countP_filter]
      apply List.countP_congr
      intro r _
      simp only [Bool.and_eq_true, decide_eq_true_eq]
      exact and_comm

theorem Visit.stale_elsewhere (h : Visit c item σ outcome σ') (hs : σ.store.Sound)
    (hitem : σ.store.items.contains item = true) (hi : i ≠ item) :
    stale base σ'.store i = stale base σ.store i :=
  stale_congr hs (h.frame hs hitem).sound fun _ => h.elsewhere hs (Or.inl hi)

theorem Round.synced (h : Round c items pass σ pass' σ') (hs : σ.store.Sound)
    (hitems : ∀ item ∈ items, σ.store.items.contains item = true) (hnodup : items.Nodup)
    (hcalm : ¬ c.refuse.Bites) (hfaults : σ.store.faults = .none) :
    pass'.report.synced = pass.report.synced + (items.map (stale c.base σ.store)).sum := by
  induction h with
  | nil => rfl
  | @cons item rest pass pass' σ σ₁ σ' outcome hvisit _ ih =>
      obtain ⟨hitem, hnodup⟩ := List.nodup_cons.mp hnodup
      have hthere := hitems item List.mem_cons_self
      have hframe := hvisit.frame hs hthere
      have hrest : rest.map (stale c.base σ₁.store) = rest.map (stale c.base σ.store) := by
        refine List.map_congr_left fun other hother => ?_
        exact hvisit.stale_elsewhere hs hthere fun heq => hitem (heq ▸ hother)
      have hitems' : ∀ other ∈ rest, σ₁.store.items.contains other = true := by
        intro other hother
        rw [hframe.items]
        exact hitems other (List.mem_cons_of_mem item hother)
      rw [ih hframe.sound hitems' hnodup (hframe.faults.trans hfaults), hrest, enter_eq,
        hvisit.synced hs hcalm hfaults, List.map_cons, List.sum_cons, Nat.add_assoc]

structure Passed (d : Directory) (actor : Actor) (base : LanguageId) (s : Store) (report : Report)
    (t : Store) : Prop where
  frame : Frame s t
  outlines : ∀ item l, (t.recordIn? item l).map Record.outline = normal d actor s item l
  created : t.records.length = s.records.length + report.created
  synced : report.synced = (s.liveItems.map (stale base s)).sum
  done : ∀ item ∈ t.liveItems, Done ⟨.never, base, others d base, actor⟩ t item

theorem passUnder_none (type : String) (actor : Actor) (hfaults : s.faults = .none) :
    passUnder d type actor .none s =
      (run type actor).run (Session.answer d .never) (.start s) := by
  have hsame : { s with faults := Trouble.none.faults } = s := by
    rw [show Trouble.none.faults = s.faults from hfaults.symm]
  rw [passUnder, hsame]
  rfl

theorem run_passed (type : String) (actor : Actor) (hs : s.Sound) (hfaults : s.faults = .none)
    {base : Language} (hbase : d.base = some base) :
    let out := (run type actor).run (Store.answer d) s
    Passed d actor base.id s out.1.report out.2 := by
  have hstart : (Session.start s).store.Sound := hs
  have hscan := scan_run d .never type actor hstart
  have houtlines (item : ItemId) (l : LanguageId) :
      ((passUnder d type actor .none s).2.store.recordIn? item l).map Record.outline =
        normal d actor s item l := outline_passUnder_none hs item l
  have hdone : ∀ item ∈ (passUnder d type actor .none s).2.store.liveItems,
      Done ⟨.never, base.id, others d base.id, actor⟩ (passUnder d type actor .none s).2.store
        item := done_passUnder_none hs hbase
  rw [passUnder_none type actor hfaults] at houtlines hdone
  refine Session.of_never
    (P := fun (pass : Pass) t => Passed d actor base.id s pass.report t) _ s fun pass σ' hrun => ?_
  rw [hrun] at hscan houtlines hdone
  cases hscan with
  | aborted e _ hwhy =>
      have hlisting : (Session.start s).store.faults.listing = false := by
        rw [Session.start, hfaults]
        rfl
      simp [hbase, hlisting, Refusals.not_bites_never] at hwhy
  | @scanned _ _ base' hbase' _ hround =>
      obtain rfl : base' = base := Option.some_inj.mp (hbase'.symm.trans hbase)
      have hsurveyed : (surveyed d (.start s)).store.Sound := hs
      have hitems : ∀ item ∈ s.liveItems, s.items.contains item = true :=
        fun item => contains_of_mem_liveItems
      have hcreated := hround.counts.created
      have hsynced := hround.synced hsurveyed hitems s.nodup_liveItems Refusals.not_bites_never
        hfaults
      refine ⟨hround.frame hsurveyed hitems, houtlines, hcreated, ?_, hdone⟩
      rw [hsynced]
      exact Nat.zero_add _

end

end Reconciliation

namespace Backfill

open Reconciliation

/-- A store from which a pass makes the same as from `s`, place by place, with as many copies to
overwrite. -/
structure Harmless (d : Directory) (actor : Actor) (base : LanguageId) (s t : Store) : Prop where
  frame : Frame s t
  normal : ∀ item l, normal d actor t item l = normal d actor s item l
  stale : ∀ item, stale base t item = stale base s item

section

variable {d : Directory} {c : Course} {actor : Actor} {base : LanguageId}
  {language l : LanguageId} {item i : ItemId} {items : List ItemId} {entry entry' : Entry}
  {result : Except Error Nat} {s t u : Store} {σ σ' : Session}

theorem Harmless.refl (hs : s.Sound) : Harmless d actor base s s :=
  ⟨.refl hs, fun _ _ => rfl, fun _ => rfl⟩

theorem Harmless.trans (h : Harmless d actor base s t) (h' : Harmless d actor base t u) :
    Harmless d actor base s u where
  frame := h.frame.trans h'.frame
  normal item l := (h'.normal item l).trans (h.normal item l)
  stale item := (h'.stale item).trans (h.stale item)

theorem Supply.elsewhere (h : Supply c language item σ result σ') (hout : i = item → l ≠ language) :
    σ'.store.recordIn? i l = σ.store.recordIn? i l := by
  cases h with
  | unread => rfl
  | present => rfl
  | baseless => rfl
  | supplied _ _ hfill =>
      exact hfill.elsewhere fun hi hl => hout hi.symm (List.mem_singleton.mp hl)

theorem Supply.baseRecord (h : Supply c language item σ result σ') (i : ItemId) :
    σ'.store.recordIn? i c.base = σ.store.recordIn? i c.base := by
  cases h with
  | unread => rfl
  | present => rfl
  | baseless => rfl
  | supplied hgap hbase hfill =>
      refine hfill.elsewhere fun _ hl => ?_
      rw [← List.mem_singleton.mp hl, hbase] at hgap
      cases hgap

/-- What is supplied is what the next pass would have added. -/
theorem Supply.normal {refuse : Refusals} {base : Language} (hbase : d.base = some base)
    (hactive : language ∈ d.active.map (·.id))
    (h : Supply ⟨refuse, base.id, others d base.id, actor⟩ language item σ result σ')
    (hs : σ.store.Sound) (hlive : σ.store.live item = true) (i : ItemId) (l : LanguageId) :
    normal d actor σ'.store i l = normal d actor σ.store i l := by
  by_cases hplace : i = item ∧ l = language
  · obtain ⟨rfl, rfl⟩ := hplace
    cases h with
    | unread => rfl
    | present => rfl
    | baseless => rfl
    | @supplied _ rb _ hgap hrb hfill =>
        have hne : l ≠ base.id := by
          rintro rfl
          rw [hrb] at hgap
          cases hgap
        have htext {t : Store} (ht : t.live i = true) (h : t.recordIn? i base.id = some rb) :
            t.baseText? base.id i = some rb.text :=
          Store.baseText?_eq_some_iff.mpr ⟨ht, rb, h, rfl⟩
        have hkept : σ'.store.recordIn? i base.id = some rb :=
          (hfill.elsewhere fun _ hl => hne (List.mem_singleton.mp hl).symm).trans hrb
        have hthere : σ.store.items.contains i = true :=
          contains_of_mem_liveItems (Store.mem_liveItems.mpr hlive)
        have hframe := (Supply.supplied hgap hrb hfill).frame hs hthere
        have hlive' : σ'.store.live i = true := by
          rw [Store.live, hframe.items]
          exact hlive
        have htreated := hfill.treats (List.mem_singleton_self l)
          (mem_others.mpr ⟨hactive, hne⟩) hgap
        rw [normal_eq_of_base hbase refuse, normal_eq_of_base hbase refuse, htext hlive hrb,
          htext hlive' hkept, hgap]
        exact htreated.mended_eq
  · have hrecord : σ'.store.recordIn? i l = σ.store.recordIn? i l :=
      h.elsewhere fun hi hl => hplace ⟨hi, hl⟩
    have hlive' : σ'.store.live i = σ.store.live i := by
      have hthere := contains_of_mem_liveItems (Store.mem_liveItems.mpr hlive)
      rw [Store.live, Store.live, (h.frame hs hthere).items]
    rw [normal_eq_of_base hbase refuse, normal_eq_of_base hbase refuse, hrecord, Store.baseText?,
      Store.baseText?, hlive', h.baseRecord i]

theorem Supply.stale (h : Supply c language item σ result σ') (hs : σ.store.Sound)
    (hitem : σ.store.items.contains item = true) (i : ItemId) :
    stale c.base σ'.store i = stale c.base σ.store i := by
  have hframe := h.frame hs hitem
  by_cases hi : i = item
  · subst hi
    rw [Reconciliation.stale, Reconciliation.stale, h.baseRecord i]
    cases h with
    | unread => rfl
    | present => rfl
    | baseless => rfl
    | @supplied _ rb _ _ hrb hfill =>
        rw [hrb]
        cases hfill with
        | failed => rfl
        | filled =>
            have hold := (σ.store.perm_recordsOf i).countP_eq fun r =>
              decide (r.IsCopy c.base ∧ r.text ≠ rb.text)
            have hnew := (Store.perm_recordsOf
              (σ.store.append i ([language].map (Draft.copy · rb.text)) c.actor) i).countP_eq
              fun r => decide (r.IsCopy c.base ∧ r.text ≠ rb.text)
            refine hnew.trans (Eq.trans ?_ hold.symm)
            simp [Store.append, Store.enrol, Draft.record, Draft.copy]
  · exact stale_congr hs hframe.sound fun l => h.elsewhere fun heq => absurd heq hi

theorem Supplies.harmless {refuse : Refusals} {base : Language} (hbase : d.base = some base)
    (hactive : language ∈ d.active.map (·.id))
    (h : Supplies ⟨refuse, base.id, others d base.id, actor⟩ language items entry σ entry' σ')
    (hs : σ.store.Sound) (hlive : ∀ item ∈ items, σ.store.live item = true) :
    Harmless d actor base.id σ.store σ'.store := by
  induction h with
  | nil => exact .refl hs
  | @cons item rest _ _ σ _ _ _ hsupply _ ih =>
      have hfirst := hlive item List.mem_cons_self
      have hthere := contains_of_mem_liveItems (Store.mem_liveItems.mpr hfirst)
      have hframe := hsupply.frame hs hthere
      have hstep : Harmless d actor base.id σ.store _ :=
        ⟨hframe, hsupply.normal hbase hactive hs hfirst, hsupply.stale hs hthere⟩
      refine hstep.trans (ih hframe.sound fun other hother => ?_)
      rw [Store.live, hframe.items]
      exact hlive other (List.mem_cons_of_mem item hother)

theorem Supplies.synced (h : Supplies c language items entry σ entry' σ') :
    entry'.synced = entry.synced := by
  induction h with
  | nil => rfl
  | @cons _ _ _ _ _ _ _ result _ _ ih => rw [ih]; cases result <;> rfl

/-- What the filling of a store without failures comes to. -/
structure Stocked (d : Directory) (actor : Actor) (base : LanguageId) (s : Store) (entry : Entry)
    (t : Store) : Prop where
  harmless : Harmless d actor base s t
  created : t.records.length = s.records.length + entry.created
  synced : entry.synced = 0

theorem fill_stocked (actor : Actor) (hs : s.Sound) (hfaults : s.faults = .none) {base : Language}
    (hbase : d.base = some base) (hactive : language ∈ d.active.map (·.id)) :
    let out := (fill language base.id actor).run (Store.answer d) s
    Stocked d actor base.id s out.1 out.2 := by
  have hstart : (Session.start s).store.Sound := hs
  have hfilling := filling_run d ⟨.never, base.id, others d base.id, actor⟩ language hstart
  refine Session.of_never (P := Stocked d actor base.id s) _ s fun entry σ' hrun => ?_
  rw [hrun] at hfilling
  cases hfilling with
  | unlisted e hwhy =>
      have hlisting : (Session.start s).store.faults.listing = false := by
        rw [Session.start, hfaults]
        rfl
      simp [hlisting, Refusals.not_bites_never] at hwhy
  | filled _ hsupplies =>
      have hcreated := hsupplies.created
      refine ⟨hsupplies.harmless hbase hactive hs fun item => Store.mem_liveItems.mp, hcreated, ?_⟩
      exact hsupplies.synced

/-- Filling a content type and reconciling it then agrees with reconciling it at once. -/
theorem fill_then_run (type : String) (actor : Actor) (hs : s.Sound) (hfaults : s.faults = .none)
    {base : Language} (hbase : d.base = some base) (hactive : language ∈ d.active.map (·.id)) :
    let first := (fill language base.id actor).run (Store.answer d) s
    let second := (Reconciliation.run type actor).run (Store.answer d) first.2
    let direct := (Reconciliation.run type actor).run (Store.answer d) s
    Record.outline '' {r | r ∈ second.2.records} = Record.outline '' {r | r ∈ direct.2.records} ∧
      (first.1.conclude second.1.report).created = direct.1.report.created ∧
      (first.1.conclude second.1.report).synced = direct.1.report.synced := by
  intro first second direct
  have hfirst : Stocked d actor base.id s first.1 first.2 :=
    fill_stocked actor hs hfaults hbase hactive
  have hframe := hfirst.harmless.frame
  have hsecond : Passed d actor base.id first.2 second.1.report second.2 :=
    run_passed type actor hframe.sound (hframe.faults.trans hfaults) hbase
  have hdirect : Passed d actor base.id s direct.1.report direct.2 :=
    run_passed type actor hs hfaults hbase
  have houtlines (item : ItemId) (l : LanguageId) :
      (second.2.recordIn? item l).map Record.outline =
        (direct.2.recordIn? item l).map Record.outline := by
    rw [hsecond.outlines, hdirect.outlines, hfirst.harmless.normal]
  refine ⟨hsecond.frame.sound.image_eq hdirect.frame.sound houtlines, ?_, ?_⟩
  · have hlength : second.2.records.length = direct.2.records.length :=
      hdirect.frame.sound.length_eq_of_places hsecond.frame.sound fun item l => by
        simpa using congrArg Option.isSome (houtlines item l)
    have hfirst' := hfirst.created
    have hsecond' := hsecond.created
    have hdirect' := hdirect.created
    simp only [Entry.conclude]
    omega
  · have hlive : first.2.liveItems = s.liveItems := by
      rw [Store.liveItems, hframe.items]
      rfl
    have hstale : first.2.liveItems.map (Reconciliation.stale base.id first.2) =
        s.liveItems.map (Reconciliation.stale base.id s) := by
      rw [hlive]
      exact List.map_congr_left fun item _ => hfirst.harmless.stale item
    simp only [Entry.conclude]
    rw [hfirst.synced, hsecond.synced, hdirect.synced, hstale, Nat.zero_add]

theorem Supply.idle (h : Supply c language item σ result σ') (hdone : Done c σ.store item)
    (hlanguage : language ∈ c.active ∨ language = c.base) :
    σ'.store = σ.store ∧ gained result = 0 := by
  cases h with
  | unread => exact ⟨rfl, rfl⟩
  | present => exact ⟨rfl, rfl⟩
  | baseless => exact ⟨rfl, rfl⟩
  | supplied hgap hbase =>
      rcases hlanguage with hactive | rfl
      · have hdue := hdone _ hbase language
        rw [hgap] at hdue
        exact absurd hactive hdue
      · rw [hbase] at hgap
        cases hgap

theorem Supplies.idle (h : Supplies c language items entry σ entry' σ')
    (hdone : ∀ item ∈ items, Done c σ.store item)
    (hlanguage : language ∈ c.active ∨ language = c.base) :
    σ'.store = σ.store ∧ entry'.created = entry.created := by
  induction h with
  | nil => exact ⟨rfl, rfl⟩
  | cons hsupply _ ih =>
      obtain ⟨hstore, hgained⟩ := hsupply.idle (hdone _ List.mem_cons_self) hlanguage
      obtain ⟨hstore', hcreated⟩ := ih fun item hitem => by
        rw [hstore]
        exact hdone item (List.mem_cons_of_mem _ hitem)
      rw [created_enter, hgained] at hcreated
      exact ⟨hstore'.trans hstore, hcreated⟩

structure Complete (d : Directory) (actor : Actor) (base : LanguageId) (s : Store) : Prop where
  sound : s.Sound
  faults : s.faults = .none
  done : ∀ item ∈ s.liveItems, Done ⟨.never, base, others d base, actor⟩ s item

theorem complete_of_passed {report : Report} (h : Passed d actor base s report t)
    (hfaults : s.faults = .none) : Complete d actor base t :=
  ⟨h.frame.sound, h.frame.faults.trans hfaults, h.done⟩

theorem Complete.fill {base : Language} (h : Complete d actor base.id s)
    (hactive : language ∈ d.active.map (·.id)) :
    let out := (fill language base.id actor).run (Store.answer d) s
    out.1.created = 0 ∧ out.2 = s := by
  have hstart : (Session.start s).store.Sound := h.sound
  have hfilling := filling_run d ⟨.never, base.id, others d base.id, actor⟩ language hstart
  refine Session.of_never (P := fun (entry : Entry) t => entry.created = 0 ∧ t = s) _ s ?_
  intro entry σ' hrun
  rw [hrun] at hfilling
  cases hfilling with
  | unlisted => exact ⟨rfl, rfl⟩
  | filled _ hsupplies =>
      obtain ⟨hsame, hcreated⟩ := hsupplies.idle h.done <| by
        rw [mem_others]
        by_cases heq : language = base.id
        · exact Or.inr heq
        · exact Or.inl ⟨hactive, heq⟩
      exact ⟨hcreated, hsame⟩

theorem Complete.run {base : Language} (h : Complete d actor base.id s)
    (hbase : d.base = some base) (type : String) :
    let out := (Reconciliation.run type actor).run (Store.answer d) s
    out.1.report.created = 0 ∧ out.2 = s := by
  have hstart : (Session.start s).store.Sound := h.sound
  have hscan := scan_run d .never type actor hstart
  obtain ⟨hlooked, _, hcreated⟩ := hscan.idle h.sound fun base' hbase' => by
    obtain rfl : base' = base := Option.some_inj.mp (hbase'.symm.trans hbase)
    exact h.done
  refine Session.of_never (P := fun (pass : Pass) t => pass.report.created = 0 ∧ t = s) _ s ?_
  intro pass σ' hrun
  rw [hrun] at hlooked hcreated
  exact ⟨hcreated, hlooked.store⟩

end

end Backfill

end Polyglot
