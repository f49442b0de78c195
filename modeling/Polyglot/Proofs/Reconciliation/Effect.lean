import Mathlib
import Polyglot.Proofs.Reconciliation.Course

namespace Polyglot.Reconciliation

/-- What is in a place of an item with this base text is not what it is to be. -/
def Due (c : Course) (text : Text) (language : LanguageId) : Option Record → Prop
  | some r => r.IsCopy c.base ∧ r.text ≠ text
  | none => language ∈ c.active

/-- The store itself is made to fail where it would have to change the place. -/
def Blocked (faults : Faults) (language : LanguageId) : Option Record → Prop
  | some _ => language ∈ faults.overwritesIn
  | none => faults.copyInserts = true

/-- What a pass makes of a place of an item with this base text. -/
inductive Treated (c : Course) (faults : Faults) (text : Text) (item : ItemId)
    (language : LanguageId) (clean : Prop) : Option Record → Option Record → Prop where
  | overwritten (r : Record) (now : Instant) (hdue : Due c text language (some r))
      (hfree : ¬ Blocked faults language (some r)) :
      Treated c faults text item language clean (some r)
        (some (r.rewritten text true c.actor now))
  | added (id : RecordId) (now : Instant) (hdue : Due c text language none)
      (hfree : ¬ Blocked faults language none) :
      Treated c faults text item language clean none
        (some ((Draft.copy language text).record item c.actor now id))
  | kept (o : Option Record) (hdue : ¬ Due c text language o) :
      Treated c faults text item language clean o o
  | hindered (o : Option Record) (hdue : Due c text language o)
      (hwhy : c.refuse.Bites ∨ Blocked faults language o) (hclean : ¬ clean) :
      Treated c faults text item language clean o o

/-- Every place of an item with a base text is treated, and no other place changes. -/
structure Treats (c : Course) (clean : Prop) (s t : Store) : Prop where
  frame : Frame s t
  based : ∀ item text, s.baseText? c.base item = some text → ∀ l,
    Treated c s.faults text item l clean (s.recordIn? item l) (t.recordIn? item l)
  unbased : ∀ item, s.baseText? c.base item = none → ∀ l,
    t.recordIn? item l = s.recordIn? item l

def Clean : Except Error ItemOutcome → Prop
  | .ok (.reconciled tally _) => tally.failed = 0
  | .ok .noBase => True
  | .error _ => False

def Report.Faultless (r : Report) : Prop := r.failed = 0 ∧ r.itemFailures = 0

theorem clean_of_faultless_enter {pass : Pass} {outcome : Except Error ItemOutcome}
    (h : (pass.enter outcome).report.Faultless) : Clean outcome := by
  match outcome, h with
  | .ok (.reconciled _ _), h => exact (Nat.add_eq_zero_iff.mp h.1).2
  | .ok .noBase, _ => exact trivial
  | .error _, h => exact absurd h.2 (Nat.succ_ne_zero _)

theorem faultless_of_enter {pass : Pass} {outcome : Except Error ItemOutcome}
    (h : (pass.enter outcome).report.Faultless) : pass.report.Faultless := by
  match outcome, h with
  | .ok (.reconciled _ _), h => exact ⟨(Nat.add_eq_zero_iff.mp h.1).1, h.2⟩
  | .ok .noBase, h => exact h
  | .error _, h => exact absurd h.2 (Nat.succ_ne_zero _)

theorem isClean_iff {r : Report} : r.isClean = true ↔ r.aborted = none ∧ r.Faultless := by
  simp [Report.isClean, Report.Faultless, and_assoc]

section

variable {c : Course} {faults : Faults} {text : Text} {rs : List Record} {σ σ₁ σ' : Session}
  {tally : Tally} {item i : ItemId} {l : LanguageId} {gaps : List LanguageId}
  {result : Except Error Nat} {outcome : Except Error ItemOutcome} {items : List ItemId}
  {pass pass' : Pass} {clean clean' : Prop} {o o' : Option Record} {r rb : Record}

theorem Treated.mono (h : Treated c faults text item l clean o o') (hclean : clean' → clean) :
    Treated c faults text item l clean' o o' := by
  cases h with
  | overwritten r now hdue hfree => exact .overwritten r now hdue hfree
  | added id now hdue hfree => exact .added id now hdue hfree
  | kept o hdue => exact .kept o hdue
  | hindered o hdue hwhy hdirty => exact .hindered o hdue hwhy fun h => hdirty (hclean h)

/-- The records of a sweep are different records of the store. -/
structure Distinct (s : Store) (rs : List Record) : Prop where
  mem : ∀ r ∈ rs, r ∈ s.records
  ids : (rs.map (·.id)).Nodup

theorem Distinct.tail {s : Store} (h : Distinct s (r :: rs)) : Distinct s rs :=
  ⟨fun r' hr' => h.mem r' (List.mem_cons_of_mem r hr'), (List.nodup_cons.mp h.ids).2⟩

theorem Distinct.id_ne {s : Store} (h : Distinct s (r :: rs)) {r' : Record} (hr' : r' ∈ rs) :
    r'.id ≠ r.id := by
  intro hid
  apply (List.nodup_cons.mp h.ids).1
  exact List.mem_map.mpr ⟨r', hr', hid⟩

theorem Distinct.put {s : Store} (h : Distinct s (r :: rs)) (text : Text) (follows : Bool)
    (actor : Actor) : Distinct (s.put r.id text follows actor) rs := by
  constructor
  · intro r' hr'
    exact Store.mem_put.mpr (Or.inl ⟨h.tail.mem r' hr', h.id_ne hr'⟩)
  · exact h.tail.ids

theorem Distinct.language_ne {s : Store} (hs : s.Sound) (h : Distinct s (r :: rs)) {r' : Record}
    (hr' : r' ∈ rs) (hitem : r'.item = r.item) : r'.language ≠ r.language := by
  intro hlanguage
  apply h.id_ne hr'
  rw [hs.eq_of_key (h.tail.mem r' hr') (h.mem r List.mem_cons_self) hitem hlanguage]

theorem Sweep.elsewhere (h : Sweep c text rs σ tally σ') (hs : σ.store.Sound)
    (hrs : Distinct σ.store rs) (hout : ∀ r ∈ rs, r.item = i → r.language ≠ l) :
    σ'.store.recordIn? i l = σ.store.recordIn? i l := by
  induction h with
  | nil => rfl
  | equal _ _ ih => exact ih hs hrs.tail fun r hr => hout r (List.mem_cons_of_mem _ hr)
  | failed _ _ _ _ ih => exact ih hs hrs.tail fun r hr => hout r (List.mem_cons_of_mem _ hr)
  | @written r _ σ _ _ _ _ _ ih =>
      have hput := hs.put r.id text true c.actor
      refine (ih hput (hrs.put _ _ _) fun r hr => hout r (List.mem_cons_of_mem _ hr)).trans ?_
      change (σ.store.put r.id text true c.actor).recordIn? i l = _
      rw [hs.recordIn?_put (hrs.mem r List.mem_cons_self), if_neg]
      rintro ⟨hitem, hlanguage⟩
      exact hout r List.mem_cons_self hitem hlanguage

theorem Sweep.treats (h : Sweep c text rs σ tally σ') (hs : σ.store.Sound)
    (hrs : Distinct σ.store rs) (hcopies : ∀ r ∈ rs, r.IsCopy c.base) (hr : r ∈ rs) :
    Treated c σ.store.faults text r.item r.language (tally.failed = 0) (some r)
      (σ'.store.recordIn? r.item r.language) := by
  induction h generalizing r with
  | nil => cases hr
  | @equal r₀ rest σ σ' tally htext hrest ih =>
      have hcopies' (r' : Record) (hr' : r' ∈ rest) := hcopies r' (List.mem_cons_of_mem _ hr')
      rcases List.mem_cons.mp hr with rfl | hr
      · rw [hrest.elsewhere hs hrs.tail fun r' hr' => hrs.language_ne hs hr',
          hs.recordIn?_of_mem (hrs.mem r List.mem_cons_self)]
        exact .kept _ fun hdue => hdue.2 htext
      · refine (ih hs hrs.tail hcopies' hr).mono fun h => ?_
        simpa using h
  | @written r₀ rest σ σ' tally htext hfree hrest ih =>
      have hcopies' (r' : Record) (hr' : r' ∈ rest) := hcopies r' (List.mem_cons_of_mem _ hr')
      have hput := hs.put r₀.id text true c.actor
      rcases List.mem_cons.mp hr with rfl | hr
      · have hafter := hrest.elsewhere hput (hrs.put _ _ _) fun r' hr' => hrs.language_ne hs hr'
        have hmem := hrs.mem r List.mem_cons_self
        rw [hafter, Session.note, hs.recordIn?_put hmem, if_pos ⟨rfl, rfl⟩]
        exact .overwritten r _ ⟨hcopies r List.mem_cons_self, htext⟩ hfree
      · refine (ih hput (hrs.put _ _ _) hcopies' hr).mono fun h => ?_
        simpa using h
  | @failed r₀ rest σ σ' tally e htext hwhy hrest ih =>
      have hcopies' (r' : Record) (hr' : r' ∈ rest) := hcopies r' (List.mem_cons_of_mem _ hr')
      have hdirty : ¬ ((⟨0, 0, 0, 1⟩ : Tally) + tally).failed = 0 := by
        simp only [Tally.failed_add]
        omega
      rcases List.mem_cons.mp hr with rfl | hr
      · rw [hrest.elsewhere hs hrs.tail fun r' hr' => hrs.language_ne hs hr', Session.note,
          hs.recordIn?_of_mem (hrs.mem r List.mem_cons_self)]
        exact .hindered _ ⟨hcopies r List.mem_cons_self, htext⟩ hwhy hdirty
      · exact (ih hs hrs.tail hcopies' hr).mono fun h => absurd h hdirty

theorem Fill.elsewhere (h : Fill c item text gaps σ result σ')
    (hout : item = i → l ∉ gaps) : σ'.store.recordIn? i l = σ.store.recordIn? i l := by
  cases h with
  | nothing => rfl
  | failed => rfl
  | filled =>
      rw [Session.note, Store.recordIn?_append, Store.find?_enrol_eq_none, Option.or_none]
      simpa [Draft.copy] using hout

theorem Fill.treats (h : Fill c item text gaps σ result σ') (hl : l ∈ gaps) (hactive : l ∈ c.active)
    (hfree : σ.store.recordIn? item l = none) :
    Treated c σ.store.faults text item l result.isOk none (σ'.store.recordIn? item l) := by
  cases h with
  | nothing => cases hl
  | failed _ e _ hwhy =>
      rw [Session.note, hfree]
      exact .hindered none hactive hwhy nofun
  | filled _ _ hallowed =>
      rw [Session.note, Store.recordIn?_append, hfree, Option.none_or]
      have hlanguages : l ∈ (gaps.map (Draft.copy · text)).map (·.language) := by
        simpa [Draft.copy] using hl
      obtain ⟨draft, hdraft, hlanguage, id, _, hfind⟩ :=
        Store.find?_enrol_eq_some item c.actor σ.store.clock σ.store.nextId hlanguages
      obtain ⟨l', _, rfl⟩ := List.mem_map.mp hdraft
      obtain rfl : l' = l := hlanguage
      rw [hfind]
      exact .added id _ hactive (by simp [Blocked, hallowed])

theorem distinct_among (hs : σ.store.Sound) :
    Distinct σ.store (Copies.among (σ.store.recordsOf item) c.base) := by
  constructor
  · intro r hr
    exact (Store.mem_recordsOf.mp (Copies.mem_among.mp hr).1).1
  · exact (hs.nodup_ids_recordsOf item).sublist (List.filter_sublist.map _)

theorem item_of_mem_among (hr : r ∈ Copies.among (σ.store.recordsOf item) c.base) :
    r.item = item :=
  (Store.mem_recordsOf.mp (Copies.mem_among.mp hr).1).2

theorem Visit.elsewhere (h : Visit c item σ outcome σ') (hs : σ.store.Sound)
    (hi : i ≠ item ∨ σ.store.recordIn? item c.base = none) :
    σ'.store.recordIn? i l = σ.store.recordIn? i l := by
  cases h with
  | unread => rfl
  | baseless => rfl
  | tended hbase hsweep hfill =>
      have hne : i ≠ item := hi.resolve_right (by simp [hbase])
      rw [hfill.elsewhere fun h => absurd h.symm hne]
      apply hsweep.elsewhere hs (distinct_among hs)
      intro r hr hitem
      exact absurd (hitem.symm.trans (item_of_mem_among hr)) hne

theorem Visit.treats (h : Visit c item σ outcome σ') (hs : σ.store.Sound)
    (hbase : σ.store.recordIn? item c.base = some rb) :
    Treated c σ.store.faults rb.text item l (Clean outcome) (σ.store.recordIn? item l)
      (σ'.store.recordIn? item l) := by
  cases h with
  | unread e hwhy =>
      by_cases hdue : Due c rb.text l (σ.store.recordIn? item l)
      · exact .hindered _ hdue (Or.inl hwhy) not_false
      · exact .kept _ hdue
  | baseless hnone =>
      rw [hnone] at hbase
      cases hbase
  | @tended σ₁ _ rb' tally result hbase' hsweep hfill =>
      obtain rfl : rb' = rb := Option.some_inj.mp (hbase'.symm.trans hbase)
      have hswept := hsweep.frame hs
      have hclean : Clean (result.map (.reconciled tally)) → tally.failed = 0 ∧ result.isOk := by
        cases result with
        | error e => exact False.elim
        | ok n => exact fun h => ⟨h, rfl⟩
      cases hplace : σ.store.recordIn? item l with
      | none =>
          have hfree : σ₁.store.recordIn? item l = none :=
            (hsweep.recordIn?_eq_none_iff l).mpr hplace
          by_cases hactive : l ∈ c.active
          · have htreated := hfill.treats (mem_gaps_iff.mpr ⟨hactive, hplace⟩) hactive hfree
            rw [hswept.faults] at htreated
            exact htreated.mono fun h => (hclean h).2
          · rw [hfill.elsewhere fun _ hl => hactive (mem_gaps_iff.mp hl).1, hfree]
            exact .kept none hactive
      | some r =>
          have hout : l ∉ Copies.missing ((σ.store.recordsOf item).map (·.language)) c.active := by
            intro hl
            rw [(mem_gaps_iff.mp hl).2] at hplace
            cases hplace
          rw [hfill.elsewhere fun _ => hout]
          obtain ⟨hr, rfl, rfl⟩ := Store.mem_of_recordIn? hplace
          by_cases hcopy : r.IsCopy c.base
          · have hamong : r ∈ Copies.among (σ.store.recordsOf r.item) c.base :=
              Copies.mem_among.mpr ⟨Store.mem_recordsOf.mpr ⟨hr, rfl⟩, hcopy⟩
            refine (hsweep.treats hs (distinct_among hs) ?_ hamong).mono fun h => (hclean h).1
            exact fun r hr => (Copies.mem_among.mp hr).2
          · rw [hsweep.elsewhere hs (distinct_among hs), read, Session.note, hplace]
            · exact .kept _ fun hdue => hcopy hdue.1
            · intro r' hr' hitem hlanguage
              have heq := hs.eq_of_key ((distinct_among hs).mem r' hr') hr hitem hlanguage
              exact hcopy (heq ▸ (Copies.mem_among.mp hr').2)

theorem Round.faultless (h : Round c items pass σ pass' σ') (hpass' : pass'.report.Faultless) :
    pass.report.Faultless := by
  induction h with
  | nil => exact hpass'
  | cons _ _ ih => exact faultless_of_enter (ih hpass')

theorem Round.aborted (h : Round c items pass σ pass' σ') :
    pass'.report.aborted = pass.report.aborted := by
  induction h with
  | nil => rfl
  | @cons item rest pass _ _ _ _ outcome _ _ ih =>
      rw [ih]
      match outcome with
      | .ok (.reconciled _ _) => rfl
      | .ok .noBase => rfl
      | .error _ => rfl

theorem Round.elsewhere (h : Round c items pass σ pass' σ') (hs : σ.store.Sound)
    (hitems : ∀ item ∈ items, σ.store.items.contains item = true)
    (hi : i ∉ items ∨ σ.store.recordIn? i c.base = none) :
    σ'.store.recordIn? i l = σ.store.recordIn? i l := by
  induction h generalizing l with
  | nil => rfl
  | @cons item rest _ _ σ _ _ _ hvisit _ ih =>
      have hframe := hvisit.frame hs (hitems _ List.mem_cons_self)
      have hvisited (l : LanguageId) := hvisit.elsewhere (i := i) (l := l) hs <| by
        by_cases heq : i = item
        · subst heq
          exact Or.inr (hi.resolve_left fun h => h List.mem_cons_self)
        · exact Or.inl heq
      rw [ih hframe.sound, hvisited]
      · intro item hitem
        rw [hframe.items]
        exact hitems item (List.mem_cons_of_mem _ hitem)
      · rw [hvisited]
        exact hi.imp_left fun h hmem => h (List.mem_cons_of_mem _ hmem)

theorem Round.treats (h : Round c items pass σ pass' σ') (hs : σ.store.Sound)
    (hitems : ∀ item ∈ items, σ.store.items.contains item = true) (hnodup : items.Nodup)
    (hi : i ∈ items) (hbase : σ.store.recordIn? i c.base = some rb) :
    Treated c σ.store.faults rb.text i l pass'.report.Faultless (σ.store.recordIn? i l)
      (σ'.store.recordIn? i l) := by
  induction h with
  | nil => cases hi
  | @cons item rest _ _ σ _ _ _ hvisit hrest ih =>
      obtain ⟨hitem, hnodup⟩ := List.nodup_cons.mp hnodup
      have hframe := hvisit.frame hs (hitems _ List.mem_cons_self)
      have hitems' : ∀ other ∈ rest, _ := fun other hother =>
        hframe.items ▸ hitems other (List.mem_cons_of_mem item hother)
      by_cases heq : i = item
      · subst heq
        rw [hrest.elsewhere hframe.sound hitems' (Or.inl hitem)]
        exact (hvisit.treats hs hbase).mono fun h => clean_of_faultless_enter (hrest.faultless h)
      · -- The first visit leaves the places of the other items alone.
        have hvisited (l : LanguageId) := hvisit.elsewhere (l := l) hs (Or.inl heq)
        rw [← hvisited, ← hframe.faults]
        refine ih hframe.sound hitems' hnodup ((List.mem_cons.mp hi).resolve_left heq) ?_
        rw [hvisited, hbase]

theorem Round.treats_all (h : Round c σ.store.liveItems pass σ pass' σ') (hs : σ.store.Sound) :
    Treats c pass'.report.Faultless σ.store σ'.store := by
  have hitems : ∀ item ∈ σ.store.liveItems, σ.store.items.contains item = true := fun _ =>
    contains_of_mem_liveItems
  refine ⟨h.frame hs hitems, ?_, ?_⟩
  · intro item text hbase l
    obtain ⟨hlive, rb, hrb, rfl⟩ := Store.baseText?_eq_some_iff.mp hbase
    exact h.treats hs hitems σ.store.nodup_liveItems (Store.mem_liveItems.mpr hlive) hrb
  · intro item hbase l
    refine h.elsewhere hs hitems ?_
    simpa [Store.baseText?, Store.mem_liveItems, or_iff_not_imp_left] using hbase

/-- A pass that was aborted changed nothing; any other one treated every place. -/
theorem Scan.effect {d : Directory} {refuse : Refusals} {type : String} {actor : Actor}
    (h : Scan d refuse type actor σ pass σ') (hs : σ.store.Sound) :
    (pass.report.aborted.isSome = true ∧ σ'.store = σ.store ∧
        (refuse.Bites ∨ d.base = none ∨ σ.store.faults.listing = true)) ∨
      ∃ base, d.base = some base ∧ σ.store.faults.listing = false ∧
        pass.report.aborted = none ∧
        Treats ⟨refuse, base.id, others d base.id, actor⟩ pass.report.Faultless σ.store
          σ'.store := by
  cases h with
  | aborted e hlooked hwhy => exact Or.inl ⟨rfl, hlooked.store, hwhy⟩
  | scanned hbase hlisting hround =>
      have hsurveyed : (surveyed d σ).store.Sound := hs
      change Round _ (surveyed d σ).store.liveItems _ _ _ _ at hround
      have htreats := Round.treats_all hround hsurveyed
      exact Or.inr ⟨_, hbase, hlisting, hround.aborted, htreats⟩

theorem Treated.isSome (h : Treated c faults text item l clean o o') (ho : o.isSome = true) :
    o'.isSome = true := by
  cases h with
  | overwritten => rfl
  | added => cases ho
  | kept => exact ho
  | hindered => exact ho

/-- The base record is never a copy, so that the base text stays. -/
theorem Treats.baseText?_eq {s t : Store} (h : Treats c clean s t) (item : ItemId) :
    t.baseText? c.base item = s.baseText? c.base item := by
  have hlive : t.live item = s.live item := by
    rw [Store.live, Store.live, h.frame.items]
  cases hbase : s.baseText? c.base item with
  | none =>
      rw [← hbase, Store.baseText?, Store.baseText?, hlive, h.unbased item hbase]
  | some text =>
      obtain ⟨hs, rb, hrb, rfl⟩ := Store.baseText?_eq_some_iff.mp hbase
      obtain ⟨_, _, hlanguage⟩ := Store.mem_of_recordIn? hrb
      have hplace := h.based item rb.text hbase c.base
      rw [hrb] at hplace
      refine Store.baseText?_eq_some_iff.mpr ⟨hlive.trans hs, rb, ?_, rfl⟩
      have hcopy : ¬ rb.IsCopy c.base := fun hcopy => hcopy.2 hlanguage
      generalize t.recordIn? item c.base = after at hplace
      cases hplace with
      | overwritten _ _ hdue => exact absurd hdue.1 hcopy
      | kept => rfl
      | hindered => rfl

end

/-- A copy that can be written and does not hold this base text of its item. -/
def Outdated (s : Store) (base : LanguageId) (text : Text) (r : Record) : Prop :=
  s.baseText? base r.item = some text ∧ r.IsCopy base ∧ r.text ≠ text ∧
    r.language ∉ s.faults.overwritesIn

/-- The item has this base text, and a copy of it can be added where there is no record. -/
def Lacking (d : Directory) (s : Store) (base : LanguageId) (text : Text) (item : ItemId)
    (language : LanguageId) : Prop :=
  s.baseText? base item = some text ∧ language ∈ d.active.map (·.id) ∧
    s.recordIn? item language = none ∧ s.faults.copyInserts = false

/-- Exactly the outdated copies are overwritten, and exactly the lacking ones are added. -/
structure Reconciled (d : Directory) (base : LanguageId) (actor : Actor) (s t : Store) :
    Prop where
  frame : Frame s t
  changed : ∀ r ∈ s.records, r ∉ t.records ↔ ∃ text, Outdated s base text r
  overwritten : ∀ r ∈ s.records, ∀ text, Outdated s base text r →
    ∃ now, r.rewritten text true actor now ∈ t.records
  added : ∀ text item language, Lacking d s base text item language →
    ∃ id now, (∀ r ∈ s.records, r.id ≠ id) ∧
      ∀ r, r ∈ t.records ∧ r.item = item ∧ r.language = language ↔
        r = (Draft.copy language text).record item actor now id
  fresh : ∀ r ∈ t.records, (∀ r₀ ∈ s.records, r₀.id ≠ r.id) →
    ∃ text, Lacking d s base text r.item r.language

/-- No item with a base text has a copy of another text or lacks one. -/
structure Settled (d : Directory) (base : LanguageId) (t : Store) : Prop where
  copied : ∀ r ∈ t.records, r.IsCopy base → ∀ text, t.baseText? base r.item = some text →
    r.text = text
  covered : ∀ item text, t.baseText? base item = some text → ∀ l ∈ d.active,
    ∃ r ∈ t.records, r.item = item ∧ r.language = l.id

section

variable {d : Directory} {base : LanguageId} {actor : Actor} {s t : Store} {r : Record}
  {clean : Prop} {item : ItemId} {l : LanguageId} {text : Text}

theorem mem_others : l ∈ others d base ↔ l ∈ d.active.map (·.id) ∧ l ≠ base := by
  simp [others]

theorem Treats.of_record (h : Treats ⟨.never, base, others d base, actor⟩ clean s t)
    (hs : s.Sound) (hr : r ∈ s.records) :
    (∃ text now, Outdated s base text r ∧
        t.recordIn? r.item r.language = some (r.rewritten text true actor now)) ∨
      ((∀ text, ¬ Outdated s base text r) ∧ t.recordIn? r.item r.language = some r) := by
  have hplace := hs.recordIn?_of_mem hr
  cases hbase : s.baseText? base r.item with
  | none =>
      refine Or.inr ⟨fun text hout => ?_, (h.unbased _ hbase _).trans hplace⟩
      rw [Outdated, hbase] at hout
      cases hout.1
  | some text =>
      have htreated := h.based _ _ hbase r.language
      rw [hplace] at htreated
      have htext {text' : Text} (hout : Outdated s base text' r) : text' = text :=
        Option.some_inj.mp (hout.1.symm.trans hbase)
      generalize t.recordIn? r.item r.language = after at htreated
      cases htreated with
      | overwritten _ now hdue hfree =>
          exact Or.inl ⟨text, now, ⟨hbase, hdue.1, hdue.2, hfree⟩, rfl⟩
      | kept _ hdue =>
          refine Or.inr ⟨fun text' hout => hdue ⟨hout.2.1, ?_⟩, rfl⟩
          rw [← htext hout]
          exact hout.2.2.1
      | hindered _ hdue hwhy =>
          have hblocked := hwhy.resolve_left Refusals.not_bites_never
          exact Or.inr ⟨fun text' hout => hout.2.2.2 hblocked, rfl⟩

theorem Treats.of_gap (h : Treats ⟨.never, base, others d base, actor⟩ clean s t)
    (hgap : s.recordIn? item l = none) :
    (∃ text id now, Lacking d s base text item l ∧
        t.recordIn? item l = some ((Draft.copy l text).record item actor now id)) ∨
      ((∀ text, ¬ Lacking d s base text item l) ∧ t.recordIn? item l = none) := by
  cases hbase : s.baseText? base item with
  | none =>
      refine Or.inr ⟨fun text hlack => ?_, (h.unbased _ hbase _).trans hgap⟩
      rw [Lacking, hbase] at hlack
      cases hlack.1
  | some text =>
      obtain ⟨_, rb, hrb, _⟩ := Store.baseText?_eq_some_iff.mp hbase
      have hne : l ≠ base := by
        rintro rfl
        rw [hgap] at hrb
        cases hrb
      have htreated := h.based _ _ hbase l
      rw [hgap] at htreated
      generalize t.recordIn? item l = after at htreated
      cases htreated with
      | added id now hdue hfree =>
          have hactive := (mem_others.mp hdue).1
          exact Or.inl ⟨text, id, now, ⟨hbase, hactive, hgap, by simpa [Blocked] using hfree⟩, rfl⟩
      | kept _ hdue =>
          exact Or.inr ⟨fun text hlack => hdue (mem_others.mpr ⟨hlack.2.1, hne⟩), rfl⟩
      | hindered _ _ hwhy =>
          have hblocked := hwhy.resolve_left Refusals.not_bites_never
          refine Or.inr ⟨fun text hlack => ?_, rfl⟩
          rw [Blocked, hlack.2.2.2] at hblocked
          cases hblocked

theorem Treats.reconciled (h : Treats ⟨.never, base, others d base, actor⟩ clean s t)
    (hs : s.Sound) : Reconciled d base actor s t where
  frame := h.frame
  changed r hr := by
    rcases h.of_record hs hr with ⟨text, now, hout, hafter⟩ | ⟨hin, hafter⟩
    · refine iff_of_true (fun hr' => ?_) ⟨text, hout⟩
      rw [h.frame.sound.recordIn?_of_mem hr', Option.some_inj] at hafter
      exact hout.2.2.1 (congrArg Record.text hafter)
    · refine iff_of_false (not_not_intro (Store.mem_of_recordIn? hafter).1) ?_
      exact fun ⟨text, hout⟩ => hin text hout
  overwritten r hr text hout := by
    rcases h.of_record hs hr with ⟨text', now, hout', hafter⟩ | ⟨hin, _⟩
    · obtain rfl : text' = text := Option.some_inj.mp (hout'.1.symm.trans hout.1)
      exact ⟨now, (Store.mem_of_recordIn? hafter).1⟩
    · exact absurd hout (hin text)
  added text item language hlack := by
    rcases h.of_gap hlack.2.2.1 with ⟨text', id, now, hlack', hafter⟩ | ⟨hin, _⟩
    · obtain rfl : text' = text := Option.some_inj.mp (hlack'.1.symm.trans hlack.1)
      refine ⟨id, now, fun r hr hid => ?_, fun r => ?_⟩
      · -- A record with the id of the new one would be in its place.
        obtain ⟨after, hafter', hplace⟩ : ∃ after ∈ t.records, after.place = r.place := by
          rcases h.of_record hs hr with ⟨text, now, _, h⟩ | ⟨_, h⟩
          · exact ⟨_, (Store.mem_of_recordIn? h).1, rfl⟩
          · exact ⟨r, (Store.mem_of_recordIn? h).1, rfl⟩
        obtain ⟨hmem, hitem, hlanguage⟩ := Store.mem_of_recordIn? hafter
        have heq := h.frame.sound.eq_of_id hafter' hmem ((congrArg Prod.fst hplace).trans hid)
        rw [heq] at hplace
        have hnone := Store.recordIn?_eq_none_iff.mp hlack.2.2.1 r hr
        exact hnone (congrArg (·.2.1) hplace).symm (congrArg (·.2.2) hplace).symm
      · rw [← h.frame.sound.recordIn?_eq_some_iff, hafter, Option.some_inj]
        exact eq_comm
    · exact absurd hlack (hin text)
  fresh r hr hnew := by
    cases hbefore : s.recordIn? r.item r.language with
    | some r₀ =>
        obtain ⟨hr₀, hitem, hlanguage⟩ := Store.mem_of_recordIn? hbefore
        have hafter := h.frame.sound.recordIn?_of_mem hr
        rcases h.of_record hs hr₀ with ⟨text, now, _, hsome⟩ | ⟨_, hsome⟩
        all_goals
          rw [hitem, hlanguage, hafter, Option.some_inj] at hsome
          exact absurd (congrArg Record.id hsome).symm (hnew r₀ hr₀)
    | none =>
        rcases h.of_gap hbefore with ⟨text, _, _, hlack, _⟩ | ⟨_, hafter⟩
        · exact ⟨text, hlack⟩
        · rw [h.frame.sound.recordIn?_of_mem hr] at hafter
          cases hafter

theorem Treats.settled {refuse : Refusals}
    (h : Treats ⟨refuse, base, others d base, actor⟩ clean s t) (hclean : clean) :
    Settled d base t where
  copied r hr hcopy text hbase := by
    rw [h.baseText?_eq] at hbase
    have hafter := h.frame.sound.recordIn?_of_mem hr
    have htreated := h.based _ _ hbase r.language
    generalize s.recordIn? r.item r.language = before at htreated
    generalize t.recordIn? r.item r.language = after at hafter htreated
    cases htreated with
    | overwritten => rw [← Option.some_inj.mp hafter, Record.rewritten]
    | added => rw [← Option.some_inj.mp hafter, Draft.record, Draft.copy]
    | kept _ hdue =>
        rw [hafter] at hdue
        exact of_not_not fun htext => hdue ⟨hcopy, htext⟩
    | hindered _ _ _ hdirty => exact absurd hclean hdirty
  covered item text hbase l hl := by
    suffices hsome : (t.recordIn? item l.id).isSome = true by
      obtain ⟨r, hr⟩ := Option.isSome_iff_exists.mp hsome
      exact ⟨r, Store.mem_of_recordIn? hr⟩
    by_cases heq : l.id = base
    · obtain ⟨_, rb, hrb, _⟩ := Store.baseText?_eq_some_iff.mp hbase
      rw [heq, hrb]
      rfl
    · rw [h.baseText?_eq] at hbase
      have hdue : l.id ∈ others d base := mem_others.mpr ⟨List.mem_map_of_mem hl, heq⟩
      have htreated := h.based _ _ hbase l.id
      cases hbefore : s.recordIn? item l.id with
      | some r => exact htreated.isSome (by rw [hbefore]; rfl)
      | none =>
          rw [hbefore] at htreated
          generalize t.recordIn? item l.id = after at htreated
          cases htreated with
          | added => rfl
          | kept _ hnot => exact absurd hdue hnot
          | hindered _ _ _ hdirty => exact absurd hclean hdirty

end

/-- What a pass that runs alone does, and what its report certifies if it is clean. -/
theorem run_exact (d : Directory) (type : String) (actor : Actor) {s : Store} (hs : s.Sound) :
    let out := (run type actor).run (Store.answer d) s
    (d.base = none ∨ s.faults.listing = true →
        out.1.report.aborted.isSome = true ∧ out.2 = s) ∧
      ∀ base, d.base = some base → s.faults.listing = false →
        out.1.report.aborted = none ∧ Reconciled d base.id actor s out.2 ∧
          (out.1.report.isClean = true → Settled d base.id out.2) := by
  obtain ⟨hpass, hstore⟩ := Session.run_never d (run type actor) (.start s)
  have hstart : (Session.start s).store.Sound := hs
  have hscan := scan_run d .never type actor hstart
  dsimp only at hscan
  rw [hpass] at hscan
  have heffect := hscan.effect hs
  rw [hstore] at heffect
  dsimp only
  rcases heffect with ⟨haborted, hsame, hwhy⟩ | ⟨base, hbase, hlisting, hdone, htreats⟩
  · refine ⟨fun _ => ⟨haborted, hsame⟩, fun base hbase hlisting => ?_⟩
    rcases hwhy with hbites | hnone | htrue
    · exact absurd hbites Refusals.not_bites_never
    · rw [hbase] at hnone
      cases hnone
    · change s.faults.listing = true at htrue
      rw [hlisting] at htrue
      cases htrue
  · refine ⟨fun hwhy => ?_, fun base' hbase' _ => ?_⟩
    · change s.faults.listing = false at hlisting
      simp [hbase, hlisting] at hwhy
    · obtain rfl : base = base' := Option.some_inj.mp (hbase.symm.trans hbase')
      exact ⟨hdone, htreats.reconciled hs, fun hclean => htreats.settled (isClean_iff.mp hclean).2⟩

end Polyglot.Reconciliation

namespace Polyglot.Trilingual

def directory : Directory :=
  ⟨[⟨1, "en", "English", true, false⟩, ⟨2, "fr", "French", true, false⟩,
    ⟨3, "de", "German", true, false⟩], "en"⟩

def title (text : String) : Text := .ofList [("title", text)]

/-- A page that had its English title and the French copy of it before German was known. -/
def copied : Store :=
  (((Store.named "page").addItem 7).answer directory
    (.insert 7 [.pinned 1 (title "Hello"), .copy 2 (title "Hello")] "ann")).2

def outdated : Store := (copied.answer directory (.write 1 (title "Welcome") false "ann")).2

theorem reachable_outdated : outdated.Reachable := by
  apply Store.Reachable.answered
  apply Store.Reachable.answered
  exact .addItem 7 (.named "page")

end Polyglot.Trilingual

namespace Polyglot.Reconciliation

open Trilingual in
theorem outdated_page_settles :
    directory.base = some ⟨1, "en", "English", true, false⟩ ∧ outdated.faults.listing = false ∧
      let out := (run "page" "sync").run (Store.answer directory) outdated
      out.1.report.aborted = none ∧ Reconciled directory 1 "sync" outdated out.2 ∧
        out.1.report.isClean = true ∧ Settled directory 1 out.2 := by
  have hbase : directory.base = some ⟨1, "en", "English", true, false⟩ := by decide
  have hlisting : outdated.faults.listing = false := by decide
  have hclean : ((run "page" "sync").run (Store.answer directory) outdated).1.report.isClean =
      true := by
    cbv
  obtain ⟨hdone, hreconciled, hsettled⟩ :=
    (run_exact directory "page" "sync" reachable_outdated.sound).2 _ hbase hlisting
  exact ⟨hbase, hlisting, hdone, hreconciled, hclean, hsettled hclean⟩

end Polyglot.Reconciliation
