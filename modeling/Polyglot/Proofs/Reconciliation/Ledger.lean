import Polyglot.Proofs.Reconciliation.Effect

namespace Polyglot

namespace Told

/-- The record that this call overwrote. -/
def written? : Told → Option RecordId
  | ⟨.overwriteCopy id _ _, .ok true⟩ => some id
  | _ => none

/-- The record that this call was to overwrite when it failed. -/
def refused? : Told → Option RecordId
  | ⟨.overwriteCopy id _ _, .error _⟩ => some id
  | _ => none

def unread (item : ItemId) : Told → Bool
  | ⟨.records i, .error _⟩ => i = item
  | _ => false

/-- The missing copies of the item could not be added. -/
def abandons (item : ItemId) : Told → Bool
  | ⟨.insert i _ _, .error _⟩ => i = item
  | _ => false

def baseless (base : LanguageId) (item : ItemId) : Told → Bool
  | ⟨.records i, .ok rs⟩ => i = item && rs.all (·.language ≠ base)
  | _ => false

/-- The item that a call is about, if `own` tells the items of the records. -/
def item? (own : RecordId → Option ItemId) (x : Told) : Option ItemId :=
  match x.question with
  | .records i => some i
  | .insert i _ _ => some i
  | .overwriteCopy id _ _ => own id
  | _ => none

variable {own : RecordId → Option ItemId} {x : Told} {i : ItemId} {base : LanguageId}
  {id : RecordId}

theorem item?_of_written? (h : x.written? = some id) : x.item? own = own id := by
  unfold written? at h
  split at h
  · cases h
    rfl
  · cases h

theorem item?_of_refused? (h : x.refused? = some id) : x.item? own = own id := by
  unfold refused? at h
  split at h
  · cases h
    rfl
  · cases h

theorem item?_of_unread (h : x.unread i = true) : x.item? own = some i := by
  unfold unread at h
  split at h
  · rw [← of_decide_eq_true h]
    rfl
  · cases h

theorem item?_of_abandons (h : x.abandons i = true) : x.item? own = some i := by
  unfold abandons at h
  split at h
  · rw [← of_decide_eq_true h]
    rfl
  · cases h

theorem item?_of_baseless (h : x.baseless base i = true) : x.item? own = some i := by
  unfold baseless at h
  split at h
  · rw [← of_decide_eq_true (Bool.and_eq_true_iff.mp h).1]
    rfl
  · cases h

end Told

namespace Reconciliation

inductive Fate where
  | completed
  | noBase
  | failed
deriving DecidableEq

def fate (base : LanguageId) (calls : List Told) (item : ItemId) : Fate :=
  if calls.any fun x => x.unread item || x.abandons item then .failed
  else if calls.any (·.baseless base item) then .noBase
  else .completed

/-- The item of the record is not one whose missing copies could not be added. -/
def kept (own : RecordId → Option ItemId) (calls : List Told) (id : RecordId) : Bool :=
  (own id).all fun i => !calls.any (·.abandons i)

def countKept (pick : Told → Option RecordId) (own : RecordId → Option ItemId)
    (calls : List Told) : Nat :=
  (calls.filterMap pick).countP (kept own calls)

def tallyOf : Except Error ItemOutcome → Tally
  | .ok (.reconciled tally _) => tally
  | _ => .zero

def createdBy : Except Error ItemOutcome → Nat
  | .ok (.reconciled _ created) => created
  | _ => 0

def fateOf : Except Error ItemOutcome → Fate
  | .ok (.reconciled _ _) => .completed
  | .ok .noBase => .noBase
  | .error _ => .failed

theorem enter_eq (p : Pass) (o : Except Error ItemOutcome) :
    p.enter o =
      { report :=
          { p.report with
            itemsScanned := p.report.itemsScanned + 1
            synced := p.report.synced + (tallyOf o).synced
            unchanged := p.report.unchanged + (tallyOf o).unchanged
            skippedPinned := p.report.skippedPinned + (tallyOf o).skippedPinned
            failed := p.report.failed + (tallyOf o).failed
            created := p.report.created + createdBy o
            skippedNoBase := p.report.skippedNoBase + if fateOf o = .noBase then 1 else 0
            itemFailures := p.report.itemFailures + if fateOf o = .failed then 1 else 0 }
        metrics := p.metrics.countTally (tallyOf o) } := by
  match o with
  | .ok (.reconciled _ _) => rfl
  | .ok .noBase => rfl
  | .error _ => rfl

section

variable {own : RecordId → Option ItemId} {c : Course} {base : LanguageId} {text : Text}
  {rs : List Record} {σ σ' : Session} {tally : Tally} {item i : ItemId} {gaps : List LanguageId}
  {result : Except Error Nat} {outcome : Except Error ItemOutcome} {items : List ItemId}
  {pass pass' : Pass} {calls earlier : List Told} {pick : Told → Option RecordId}

theorem any_eq_false {p : Told → Bool} (hp : ∀ x, p x = true → x.item? own = some i)
    (h : ∀ x ∈ calls, x.item? own ≠ some i) : calls.any p = false := by
  apply List.any_eq_false.mpr
  intro x hx hpx
  exact h x hx (hp x hpx)

theorem fails_about (x : Told) (h : (x.unread i || x.abandons i) = true) :
    x.item? own = some i := by
  rcases Bool.or_eq_true_iff.mp h with h | h
  · exact Told.item?_of_unread h
  · exact Told.item?_of_abandons h

theorem fate_append_left (h : ∀ x ∈ earlier, x.item? own ≠ some i) :
    fate base (calls ++ earlier) i = fate base calls i := by
  have hfails := any_eq_false fails_about h
  have hbase := any_eq_false (p := Told.baseless base i) (fun _ => Told.item?_of_baseless) h
  simp only [fate, List.any_append, hfails, hbase, Bool.or_false]

theorem fate_append_right (h : ∀ x ∈ calls, x.item? own ≠ some i) :
    fate base (calls ++ earlier) i = fate base earlier i := by
  have hfails := any_eq_false fails_about h
  have hbase := any_eq_false (p := Told.baseless base i) (fun _ => Told.item?_of_baseless) h
  simp only [fate, List.any_append, hfails, hbase, Bool.false_or]

/-- Calls about other items do not change what is kept. -/
theorem countKept_append (pick : Told → Option RecordId)
    (hpick : ∀ x id, pick x = some id → x.item? own = own id)
    (h : ∀ x ∈ calls, ∀ y ∈ earlier, ∀ i, x.item? own = some i → y.item? own ≠ some i) :
    countKept pick own (calls ++ earlier) =
      countKept pick own calls + countKept pick own earlier := by
  rw [countKept, List.filterMap_append, List.countP_append]
  congr 1
  · apply List.countP_congr
    intro id hid
    obtain ⟨x, hx, hpicked⟩ := List.mem_filterMap.mp hid
    cases hown : own id with
    | none => simp [kept, hown]
    | some i =>
        have habout : x.item? own = some i := (hpick x id hpicked).trans hown
        have hother := any_eq_false (fun _ => Told.item?_of_abandons) fun y hy =>
          h x hx y hy i habout
        simp [kept, hown, List.any_append, hother]
  · apply List.countP_congr
    intro id hid
    obtain ⟨y, hy, hpicked⟩ := List.mem_filterMap.mp hid
    cases hown : own id with
    | none => simp [kept, hown]
    | some i =>
        have habout : y.item? own = some i := (hpick y id hpicked).trans hown
        have hother := any_eq_false (fun _ => Told.item?_of_abandons) fun x hx hxi =>
          h x hx y hy i hxi habout
        simp [kept, hown, List.any_append, hother]

theorem countKept_of_not_abandons (h : ∀ i, calls.any (·.abandons i) = false) :
    countKept pick own calls = (calls.filterMap pick).length := by
  rw [countKept, List.countP_eq_length]
  intro id _
  simp [kept, h]

theorem countKept_of_abandons (pick : Told → Option RecordId)
    (hpick : ∀ x id, pick x = some id → x.item? own = own id)
    (habout : ∀ x ∈ calls, x.item? own = some item)
    (h : calls.any (·.abandons item) = true) : countKept pick own calls = 0 := by
  rw [countKept, List.countP_eq_zero]
  intro id hid
  obtain ⟨x, hx, hpicked⟩ := List.mem_filterMap.mp hid
  have hown : own id = some item := (hpick x id hpicked).symm.trans (habout x hx)
  simp [kept, hown, h]

/-- The calls of a sweep. -/
structure Swept (rs : List Record) (calls : List Told) (tally : Tally) : Prop where
  about : ∀ x ∈ calls, ∃ r ∈ rs, ∃ text actor reply, x = ⟨.overwriteCopy r.id text actor, reply⟩
  synced : (calls.filterMap Told.written?).length = tally.synced
  failed : (calls.filterMap Told.refused?).length = tally.failed

theorem Swept.mono {r : Record} (h : Swept rs calls tally) : Swept (r :: rs) calls tally where
  about x hx := by
    obtain ⟨r', hr', hcall⟩ := h.about x hx
    exact ⟨r', List.mem_cons_of_mem r hr', hcall⟩
  synced := h.synced
  failed := h.failed

theorem Sweep.swept (h : Sweep c text rs σ tally σ') :
    ∃ calls, σ'.calls = calls ++ σ.calls ∧ Swept rs calls tally := by
  induction h with
  | nil σ => exact ⟨[], rfl, List.forall_mem_nil _, rfl, rfl⟩
  | equal _ _ ih =>
      obtain ⟨calls, hcalls, hswept⟩ := ih
      refine ⟨calls, hcalls, hswept.mono.about, ?_, ?_⟩
      · simpa using hswept.synced
      · simpa using hswept.failed
  | @written r _ σ _ _ _ _ _ ih =>
      obtain ⟨calls, hcalls, hswept⟩ := ih
      refine ⟨calls ++ [⟨.overwriteCopy r.id text c.actor, .ok true⟩], ?_, ?_, ?_, ?_⟩
      · rw [hcalls, Session.note, List.append_assoc, List.singleton_append]
      · intro x hx
        rcases List.mem_append.mp hx with hx | hx
        · exact hswept.mono.about x hx
        · exact ⟨r, List.mem_cons_self, _, _, _, List.mem_singleton.mp hx⟩
      · simp [Told.written?, hswept.synced, Nat.add_comm]
      · simp [Told.refused?, hswept.failed]
  | @failed r _ σ _ _ e _ _ _ ih =>
      obtain ⟨calls, hcalls, hswept⟩ := ih
      refine ⟨calls ++ [⟨.overwriteCopy r.id text c.actor, .error e⟩], ?_, ?_, ?_, ?_⟩
      · rw [hcalls, Session.note, List.append_assoc, List.singleton_append]
      · intro x hx
        rcases List.mem_append.mp hx with hx | hx
        · exact hswept.mono.about x hx
        · exact ⟨r, List.mem_cons_self, _, _, _, List.mem_singleton.mp hx⟩
      · simp [Told.written?, hswept.synced]
      · simp [Told.refused?, hswept.failed, Nat.add_comm]

/-- The calls of the visit of an item bear the outcome out. -/
structure Booked (own : RecordId → Option ItemId) (base : LanguageId) (item : ItemId)
    (calls : List Told) (outcome : Except Error ItemOutcome) : Prop where
  about : ∀ x ∈ calls, x.item? own = some item
  synced : countKept Told.written? own calls = (tallyOf outcome).synced
  failed : countKept Told.refused? own calls = (tallyOf outcome).failed
  fate : fate base calls item = fateOf outcome

/-- The calls of an item whose records were read and swept, before the last one. -/
theorem Booked.of_swept {baseRecord : Record} (hswept : Swept rs calls tally)
    (hown : ∀ r ∈ rs, own r.id = some item) {records : List Record}
    (hbase : baseRecord ∈ records ∧ baseRecord.language = base) (created : Nat) :
    Booked own base item (calls ++ [⟨.records item, .ok records⟩])
      (.ok (.reconciled tally created)) := by
  have hquiet {p : Told → Bool} (last : Told)
      (hp : ∀ id text actor reply, p ⟨.overwriteCopy id text actor, reply⟩ = false) :
      (calls ++ [last]).any p = p last := by
    have hcalls : calls.any p = false := by
      apply List.any_eq_false.mpr
      intro x hx
      obtain ⟨r, _, text, actor, reply, rfl⟩ := hswept.about x hx
      simp [hp]
    rw [List.any_append, hcalls, Bool.false_or, List.any_cons, List.any_nil, Bool.or_false]
  have habandons (i : ItemId) :
      (calls ++ [(⟨.records item, .ok records⟩ : Told)]).any (·.abandons i) = false :=
    hquiet _ fun _ _ _ _ => rfl
  refine ⟨?_, ?_, ?_, ?_⟩
  · intro x hx
    rcases List.mem_append.mp hx with hx | hx
    · obtain ⟨r, hr, text, actor, reply, rfl⟩ := hswept.about x hx
      exact hown r hr
    · rw [List.mem_singleton.mp hx]
      rfl
  · rw [countKept_of_not_abandons habandons]
    simp [Told.written?, tallyOf, hswept.synced]
  · rw [countKept_of_not_abandons habandons]
    simp [Told.refused?, tallyOf, hswept.failed]
  · have hfound : records.all (·.language ≠ base) = false := by
      apply List.all_eq_false.mpr
      exact ⟨baseRecord, hbase.1, by simp [hbase.2]⟩
    have hread : Told.baseless base item ⟨.records item, .ok records⟩ = false := by
      simp only [Told.baseless, hfound, Bool.and_false]
    rw [Reconciliation.fate, hquiet _ fun _ _ _ _ => rfl, hquiet _ fun _ _ _ _ => rfl, hread]
    rfl

theorem Booked.filled (h : Booked own base item calls outcome) (drafts : List Draft)
    (actor : Actor) :
    Booked own base item (⟨.insert item drafts actor, .ok ()⟩ :: calls) outcome where
  about := List.forall_mem_cons.mpr ⟨rfl, h.about⟩
  synced := h.synced
  failed := h.failed
  fate := h.fate

theorem Booked.gaveUp (h : Booked own base item calls outcome) (drafts : List Draft)
    (actor : Actor) (e : Error) :
    Booked own base item (⟨.insert item drafts actor, .error e⟩ :: calls) (.error e) := by
  have habout : ∀ x ∈ (⟨.insert item drafts actor, .error e⟩ :: calls : List Told),
      x.item? own = some item := List.forall_mem_cons.mpr ⟨rfl, h.about⟩
  have hgone : (⟨.insert item drafts actor, .error e⟩ :: calls : List Told).any
      (·.abandons item) = true := by
    simp [Told.abandons]
  refine ⟨habout, ?_, ?_, ?_⟩
  · exact countKept_of_abandons _ (fun _ _ => Told.item?_of_written?) habout hgone
  · exact countKept_of_abandons _ (fun _ _ => Told.item?_of_refused?) habout hgone
  · simp [Reconciliation.fate, Told.abandons, fateOf]

theorem Visit.booked (h : Visit c item σ outcome σ') (hs : σ.store.Sound)
    (hown : ∀ r ∈ σ.store.records, r.item = item → own r.id = some item) :
    ∃ calls, σ'.calls = calls ++ σ.calls ∧ Booked own c.base item calls outcome := by
  cases h with
  | unread e hwhy =>
      refine ⟨[⟨.records item, .error e⟩], rfl, ?_, rfl, rfl, ?_⟩
      · exact List.forall_mem_cons.mpr ⟨rfl, List.forall_mem_nil _⟩
      · simp [Reconciliation.fate, Told.unread, fateOf]
  | baseless hbase =>
      refine ⟨[⟨.records item, .ok (σ.store.recordsOf item)⟩], rfl, ?_, rfl, rfl, ?_⟩
      · exact List.forall_mem_cons.mpr ⟨rfl, List.forall_mem_nil _⟩
      · have hall : ∀ r ∈ σ.store.recordsOf item, r.language ≠ c.base := by
          rw [← hs.find?_recordsOf_eq, List.find?_eq_none] at hbase
          simpa using hbase
        simpa [Reconciliation.fate, Told.unread, Told.abandons, Told.baseless, fateOf] using hall
  | @tended _ _ rb _ _ hbase hsweep hfill =>
      obtain ⟨hr, hitem, hlanguage⟩ := Store.mem_of_recordIn? hbase
      obtain ⟨calls, hcalls, hswept⟩ := hsweep.swept
      have hamong : ∀ r ∈ Copies.among (σ.store.recordsOf item) c.base, own r.id = some item := by
        intro r hr
        exact hown r ((distinct_among hs).mem r hr) (item_of_mem_among hr)
      have hbooked := Booked.of_swept hswept hamong
        ⟨Store.mem_recordsOf.mpr ⟨hr, hitem⟩, hlanguage⟩
      have hread : (read σ item).calls =
          [(⟨.records item, .ok (σ.store.recordsOf item)⟩ : Told)] ++ σ.calls := rfl
      rw [hread, ← List.append_assoc] at hcalls
      generalize Copies.missing _ c.active = gaps at hfill
      cases hfill with
      | nothing => exact ⟨_, hcalls, hbooked 0⟩
      | filled =>
          refine ⟨_, ?_, (hbooked _).filled (gaps.map (Draft.copy · rb.text)) c.actor⟩
          exact congrArg (List.cons _) hcalls
      | failed _ e =>
          refine ⟨_, ?_, (hbooked 0).gaveUp (gaps.map (Draft.copy · rb.text)) c.actor e⟩
          exact congrArg (List.cons _) hcalls

/-- The calls of a round bear the report out, as far as an item's counts are not lost. -/
structure Books (own : RecordId → Option ItemId) (base : LanguageId) (items : List ItemId)
    (calls : List Told) (before after : Report) : Prop where
  about : ∀ x ∈ calls, ∃ item ∈ items, x.item? own = some item
  synced : after.synced = before.synced + countKept Told.written? own calls
  failed : after.failed = before.failed + countKept Told.refused? own calls
  noBase : after.skippedNoBase =
    before.skippedNoBase + items.countP (fate base calls · = .noBase)
  failures : after.itemFailures =
    before.itemFailures + items.countP (fate base calls · = .failed)

theorem Books.cons {earlier calls : List Told} {after : Report} (hitem : item ∉ items)
    (hfirst : Booked own base item earlier outcome)
    (hrest : Books own base items calls (pass.enter outcome).report after) :
    Books own base (item :: items) (calls ++ earlier) pass.report after := by
  -- No call of the rest is about the first item, and the other way round.
  have hlater : ∀ x ∈ calls, x.item? own ≠ some item := by
    intro x hx hxi
    obtain ⟨i, hi, habout⟩ := hrest.about x hx
    exact hitem (Option.some_inj.mp (habout.symm.trans hxi) ▸ hi)
  have hearlier {i : ItemId} (hi : i ∈ items) : ∀ x ∈ earlier, x.item? own ≠ some i := by
    intro x hx hxi
    exact hitem (Option.some_inj.mp ((hfirst.about x hx).symm.trans hxi) ▸ hi)
  have hapart : ∀ x ∈ calls, ∀ y ∈ earlier, ∀ i, x.item? own = some i → y.item? own ≠ some i := by
    intro x hx y hy i hxi hyi
    exact hlater x hx (hxi.trans (hyi.symm.trans (hfirst.about y hy)))
  have hfate : fate base (calls ++ earlier) item = fateOf outcome := by
    rw [fate_append_right hlater, hfirst.fate]
  have hcount (f : Fate) :
      items.countP (fate base (calls ++ earlier) · = f) = items.countP (fate base calls · = f) := by
    apply List.countP_congr
    intro i hi
    rw [fate_append_left (hearlier hi)]
  have hentered := enter_eq pass outcome
  refine ⟨?_, ?_, ?_, ?_, ?_⟩
  · intro x hx
    rcases List.mem_append.mp hx with hx | hx
    · obtain ⟨i, hi, habout⟩ := hrest.about x hx
      exact ⟨i, List.mem_cons_of_mem item hi, habout⟩
    · exact ⟨item, List.mem_cons_self, hfirst.about x hx⟩
  · rw [countKept_append Told.written? (fun _ _ => Told.item?_of_written?) hapart, hfirst.synced,
      hrest.synced, hentered]
    dsimp only
    omega
  · rw [countKept_append Told.refused? (fun _ _ => Told.item?_of_refused?) hapart, hfirst.failed,
      hrest.failed, hentered]
    dsimp only
    omega
  · rw [List.countP_cons, hcount, hfate, hrest.noBase, hentered]
    simp only [decide_eq_true_eq]
    omega
  · rw [List.countP_cons, hcount, hfate, hrest.failures, hentered]
    simp only [decide_eq_true_eq]
    omega

theorem Round.books (h : Round c items pass σ pass' σ') (hs : σ.store.Sound)
    (hitems : ∀ item ∈ items, σ.store.items.contains item = true) (hnodup : items.Nodup)
    (hown : ∀ r ∈ σ.store.records, r.item ∈ items → own r.id = some r.item) :
    ∃ calls, σ'.calls = calls ++ σ.calls ∧
      Books own c.base items calls pass.report pass'.report := by
  induction h with
  | nil => exact ⟨[], rfl, List.forall_mem_nil _, rfl, rfl, rfl, rfl⟩
  | @cons item rest pass pass' σ σ₁ σ' outcome hvisit hrest ih =>
      obtain ⟨hitem, hnodup⟩ := List.nodup_cons.mp hnodup
      have hframe := hvisit.frame hs (hitems item List.mem_cons_self)
      obtain ⟨earlier, hearlier, hbooked⟩ := hvisit.booked hs fun r hr hr' =>
        hr' ▸ hown r hr (hr' ▸ List.mem_cons_self)
      have hown' : ∀ r ∈ σ₁.store.records, r.item ∈ rest → own r.id = some r.item := by
        intro r hr hr'
        have hne : r.item ≠ item := fun heq => hitem (heq ▸ hr')
        have hplace := hframe.sound.recordIn?_of_mem hr
        rw [hvisit.elsewhere hs (Or.inl hne)] at hplace
        exact hown r (Store.mem_of_recordIn? hplace).1 (List.mem_cons_of_mem item hr')
      have hitems' : ∀ other ∈ rest, σ₁.store.items.contains other = true := by
        intro other hother
        rw [hframe.items]
        exact hitems other (List.mem_cons_of_mem item hother)
      obtain ⟨calls, hcalls, hbooks⟩ := ih hframe.sound hitems' hnodup hown'
      refine ⟨calls ++ earlier, ?_, hbooks.cons hitem hbooked⟩
      rw [hcalls, hearlier, List.append_assoc]

theorem Visit.created (h : Visit c item σ outcome σ') :
    σ'.store.records.length = σ.store.records.length + createdBy outcome := by
  cases h with
  | unread => rfl
  | baseless => rfl
  | tended _ hsweep hfill =>
      have hplaces := congrArg List.length hsweep.places
      simp only [List.length_map] at hplaces
      generalize Copies.missing _ c.active = gaps at hfill
      cases hfill with
      | nothing => exact hplaces
      | failed => exact hplaces
      | filled =>
          simp [Session.note, Store.append, Store.length_enrol, hplaces, createdBy, Except.map, read]

/-- The counts of a round that are exact whatever fails. -/
structure Counts (items : List ItemId) (before after : Pass) (s t : Store) : Prop where
  scanned : after.report.itemsScanned = before.report.itemsScanned + items.length
  created : t.records.length + before.report.created = s.records.length + after.report.created
  recordsSynced : after.metrics.recordsSynced + before.report.synced =
    before.metrics.recordsSynced + after.report.synced
  recordFailures : after.metrics.recordFailures + before.report.failed =
    before.metrics.recordFailures + after.report.failed

theorem Round.counts (h : Round c items pass σ pass' σ') :
    Counts items pass pass' σ.store σ'.store := by
  induction h with
  | nil => exact ⟨rfl, rfl, rfl, rfl⟩
  | @cons item rest pass pass' σ σ₁ σ' outcome hvisit _ ih =>
      have hcreated := hvisit.created
      obtain ⟨hscanned, hnew, hsynced, hfailed⟩ := ih
      rw [enter_eq] at hscanned hnew hsynced hfailed
      simp only [Metrics.countTally] at hscanned hnew hsynced hfailed
      refine ⟨?_, ?_, ?_, ?_⟩
      · rw [List.length_cons]
        omega
      · omega
      · omega
      · omega

end

def written (calls : List Told) : List RecordId := calls.filterMap Told.written?

def refused (calls : List Told) : List RecordId := calls.filterMap Told.refused?

/-- The report and the counters of a pass say what its calls did. -/
structure ExactLedger (base : LanguageId) (s : Store) (pass : Pass) (σ : Session) : Prop where
  synced : pass.report.synced = (written σ.calls).length
  failed : pass.report.failed = (refused σ.calls).length
  created : s.records.length + pass.report.created = σ.store.records.length
  listed : ⟨.items, .ok s.liveItems⟩ ∈ σ.calls
  scanned : pass.report.itemsScanned = s.liveItems.length
  noBase : pass.report.skippedNoBase = s.liveItems.countP (fate base σ.calls · = .noBase)
  failures : pass.report.itemFailures = s.liveItems.countP (fate base σ.calls · = .failed)
  partition : pass.report.itemsScanned = s.liveItems.countP (fate base σ.calls · = .completed) +
    pass.report.skippedNoBase + pass.report.itemFailures
  recordsSynced : pass.metrics.recordsSynced = pass.report.synced
  recordFailures : pass.metrics.recordFailures = pass.report.failed

def ownerIn (s : Store) (id : RecordId) : Option ItemId := (s.record? id).map (·.item)

section

variable {s : Store} {calls : List Told} {ids : List RecordId}

theorem kept_iff (hs : s.Sound) :
    (∀ id ∈ ids, kept (ownerIn s) calls id = true) ↔
      ∀ r ∈ s.records, calls.any (·.abandons r.item) = true → r.id ∉ ids := by
  constructor
  · intro h r hr hgone hid
    have hkept := h r.id hid
    simp [kept, ownerIn, hs.record?_eq hr, hgone] at hkept
  · intro h id hid
    cases hrecord : s.record? id with
    | none => simp [kept, ownerIn, hrecord]
    | some r =>
        have hr : r ∈ s.records := List.mem_of_find?_eq_some hrecord
        obtain rfl : r.id = id := by simpa using List.find?_some hrecord
        have hgone := fun hgone => h r hr hgone hid
        simpa [kept, ownerIn, hrecord] using hgone

theorem countP_fates (base : LanguageId) (calls : List Told) (items : List ItemId) :
    items.length = items.countP (fate base calls · = .completed) +
      items.countP (fate base calls · = .noBase) + items.countP (fate base calls · = .failed) := by
  induction items with
  | nil => rfl
  | cons item rest ih =>
      simp only [List.length_cons, List.countP_cons, decide_eq_true_eq]
      cases fate base calls item <;> simp <;> omega

end

theorem surveyed_about {d : Directory} {s : Store} {own : RecordId → Option ItemId} :
    ∀ x ∈ (surveyed d (.start s)).calls, ∀ i, x.item? own ≠ some i := by
  simp [surveyed, Session.note, Session.start, Told.item?]

/-- What a report counts by the calls of the whole pass. -/
structure Balanced (s : Store) (base : LanguageId) (report : Report) (calls : List Told) : Prop where
  synced : report.synced = countKept Told.written? (ownerIn s) calls
  failed : report.failed = countKept Told.refused? (ownerIn s) calls
  noBase : report.skippedNoBase = s.liveItems.countP (fate base calls · = .noBase)
  failures : report.itemFailures = s.liveItems.countP (fate base calls · = .failed)
  listed : ⟨.items, .ok s.liveItems⟩ ∈ calls

theorem Round.balanced {d : Directory} {c : Course} {type : String} {s : Store} {pass : Pass}
    {σ : Session} (h : Round c s.liveItems (started type) (surveyed d (.start s)) pass σ)
    (hs : s.Sound) : Balanced s c.base pass.report σ.calls := by
  have hitems : ∀ item ∈ s.liveItems, s.items.contains item = true := fun _ =>
    contains_of_mem_liveItems
  have hown : ∀ r ∈ s.records, r.item ∈ s.liveItems → ownerIn s r.id = some r.item := by
    intro r hr _
    rw [ownerIn, hs.record?_eq hr, Option.map_some]
  obtain ⟨calls, hcalls, hbooks⟩ := h.books hs hitems s.nodup_liveItems hown
  set earlier := (surveyed d (.start s)).calls
  have habout : ∀ x ∈ earlier, ∀ i, x.item? (ownerIn s) ≠ some i := surveyed_about
  have hfate (f : Fate) : s.liveItems.countP (fate c.base σ.calls · = f) =
      s.liveItems.countP (fate c.base calls · = f) := by
    apply List.countP_congr
    intro i _
    rw [hcalls, fate_append_left fun x hx => habout x hx i]
  have hkept (pick : Told → Option RecordId)
      (hpick : ∀ x id, pick x = some id → x.item? (ownerIn s) = ownerIn s id)
      (hnone : earlier.filterMap pick = []) :
      countKept pick (ownerIn s) σ.calls = countKept pick (ownerIn s) calls := by
    rw [hcalls, countKept_append pick hpick fun _ _ y hy i _ => habout y hy i]
    simp [countKept, hnone]
  refine ⟨?_, ?_, ?_, ?_, ?_⟩
  · rw [hkept Told.written? (fun _ _ => Told.item?_of_written?) rfl, hbooks.synced]
    exact Nat.zero_add _
  · rw [hkept Told.refused? (fun _ _ => Told.item?_of_refused?) rfl, hbooks.failed]
    exact Nat.zero_add _
  · rw [hfate, hbooks.noBase]
    exact Nat.zero_add _
  · rw [hfate, hbooks.failures]
    exact Nat.zero_add _
  · rw [hcalls]
    exact List.mem_append_right calls List.mem_cons_self

/-- The ledger is exact if nothing that happened is left out of the counts. -/
theorem Scan.ledger {d : Directory} {refuse : Refusals} {type : String} {actor : Actor} {s : Store}
    {pass : Pass} {σ : Session} (h : Scan d refuse type actor (.start s) pass σ) (hs : s.Sound)
    (hdone : pass.report.aborted = none) {base : Language} (hbase : d.base = some base) :
    ExactLedger base.id s pass σ ↔
      (∀ id ∈ written σ.calls, kept (ownerIn s) σ.calls id = true) ∧
        ∀ id ∈ refused σ.calls, kept (ownerIn s) σ.calls id = true := by
  cases h with
  | aborted => cases hdone
  | @scanned _ _ base' hbase' _ hround =>
      obtain rfl : base' = base := Option.some_inj.mp (hbase'.symm.trans hbase)
      have hbalanced : Balanced s base'.id pass.report σ.calls := hround.balanced hs
      constructor
      · intro h
        exact ⟨List.countP_eq_length.mp (hbalanced.synced.symm.trans h.synced),
          List.countP_eq_length.mp (hbalanced.failed.symm.trans h.failed)⟩
      · rintro ⟨hwritten, hrefused⟩
        obtain ⟨hscanned, hcreated, hsynced, hfailed⟩ := hround.counts
        replace hscanned : pass.report.itemsScanned = s.liveItems.length :=
          hscanned.trans (Nat.zero_add _)
        have hpartition := countP_fates base'.id σ.calls s.liveItems
        have hnoBase := hbalanced.noBase
        have hfailures := hbalanced.failures
        refine ⟨?_, ?_, hcreated.symm, hbalanced.listed, hscanned, hnoBase, hfailures, ?_, ?_, ?_⟩
        · exact hbalanced.synced.trans (List.countP_eq_length.mpr hwritten)
        · exact hbalanced.failed.trans (List.countP_eq_length.mpr hrefused)
        · omega
        · exact hsynced.trans (Nat.zero_add _)
        · exact hfailed.trans (Nat.zero_add _)

/-- Whatever fails, the ledger of a pass is exact if and only if no copy of an item whose missing
copies could not be added was written or failed. -/
theorem ledger_exact_iff (d : Directory) (refuse : Refusals) (type : String) (actor : Actor)
    {s : Store} (hs : s.Sound) {base : Language} (hbase : d.base = some base) :
    let out := (run type actor).run (Session.answer d refuse) (.start s)
    out.1.report.aborted = none →
      (ExactLedger base.id s out.1 out.2 ↔
        ∀ r ∈ s.records, out.2.calls.any (·.abandons r.item) = true →
          r.id ∉ written out.2.calls ∧ r.id ∉ refused out.2.calls) := by
  intro out hdone
  have hstart : (Session.start s).store.Sound := hs
  have hscan := scan_run d refuse type actor hstart
  rw [hscan.ledger hs hdone hbase, kept_iff hs, kept_iff hs]
  constructor
  · rintro ⟨hwritten, hrefused⟩ r hr hgone
    exact ⟨hwritten r hr hgone, hrefused r hr hgone⟩
  · intro h
    exact ⟨fun r hr hgone => (h r hr hgone).1, fun r hr hgone => (h r hr hgone).2⟩

end Reconciliation

namespace Trilingual

def readOnly : Refusals
  | _, .overwriteCopy id _ _ => some (.storage (.write id))
  | _, _ => none

def full : Store := { outdated with faults := { outdated.faults with copyInserts := true } }

def passOverReadOnly : Reconciliation.Pass × Session :=
  (Reconciliation.run "page" "sync").run (Session.answer directory readOnly) (.start outdated)

def passOverFull : Reconciliation.Pass × Session :=
  (Reconciliation.run "page" "sync").run (Session.answer directory .never) (.start full)

end Trilingual

namespace Reconciliation

open Trilingual in
theorem ledger_exact_of_readOnly :
    outdated.Sound ∧ directory.base = some ⟨1, "en", "English", true, false⟩ ∧
      passOverReadOnly.1.report.aborted = none ∧ refused passOverReadOnly.2.calls = [2] ∧
      passOverReadOnly.1.report.created = 1 ∧
      ExactLedger 1 outdated passOverReadOnly.1 passOverReadOnly.2 := by
  have hbase : directory.base = some ⟨1, "en", "English", true, false⟩ := by decide
  have hdone : passOverReadOnly.1.report.aborted = none := by cbv
  have hrefused : refused passOverReadOnly.2.calls = [2] := by cbv
  have hcreated : passOverReadOnly.1.report.created = 1 := by cbv
  have hkept : passOverReadOnly.2.calls.any (·.abandons 7) = false := by cbv
  have hitem : ∀ r ∈ outdated.records, r.item = 7 := by decide
  refine ⟨reachable_outdated.sound, hbase, hdone, hrefused, hcreated, ?_⟩
  apply (ledger_exact_iff directory readOnly "page" "sync" reachable_outdated.sound hbase hdone).mpr
  intro r hr hgone
  rw [hitem r hr] at hgone
  exact absurd (hkept.symm.trans hgone) Bool.false_ne_true

open Trilingual in
/-- The French copy is overwritten, and then the German one cannot be added: nothing is counted. -/
theorem ledger_loses_overwrite :
    full.Sound ∧ directory.base = some ⟨1, "en", "English", true, false⟩ ∧
      passOverFull.1.report.aborted = none ∧ written passOverFull.2.calls = [2] ∧
      passOverFull.1.report.synced = 0 ∧ passOverFull.1.metrics.recordsSynced = 0 ∧
      ¬ ExactLedger 1 full passOverFull.1 passOverFull.2 := by
  have hbase : directory.base = some ⟨1, "en", "English", true, false⟩ := by decide
  have hdone : passOverFull.1.report.aborted = none := by cbv
  have hwritten : written passOverFull.2.calls = [2] := by cbv
  have hsynced : passOverFull.1.report.synced = 0 := by cbv
  have hmetrics : passOverFull.1.metrics.recordsSynced = 0 := by cbv
  refine ⟨reachable_outdated.sound.setFaults _, hbase, hdone, hwritten, hsynced, hmetrics, ?_⟩
  intro h
  have hlength := h.synced
  rw [hsynced, hwritten] at hlength
  cases hlength

end Reconciliation

end Polyglot
