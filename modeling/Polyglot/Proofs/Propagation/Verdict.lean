import Polyglot.Flow.Propagation
import Polyglot.Proofs.Reconciliation.Healing

namespace Polyglot

namespace Reconciliation

variable {c : Course} {text : Text} {rs : List Record} {σ σ' : Session} {tally : Tally}
  {calls : List Told} {s : Store} {r r' : Record}

/-- A record after a sweep over the list, in which the writes to some records failed. -/
def Brought (c : Course) (text : Text) (rs : List Record) (failed : List RecordId)
    (r r' : Record) : Prop :=
  if r ∈ rs ∧ r.text ≠ text ∧ r.id ∉ failed then
    ∃ now, r' = r.rewritten text true c.actor now
  else r' = r

theorem Brought.of_iff {rs' : List Record} {failed failed' : List RecordId}
    (h : Brought c text rs failed r r')
    (hiff : (r ∈ rs ∧ r.text ≠ text ∧ r.id ∉ failed) ↔
      (r ∈ rs' ∧ r.text ≠ text ∧ r.id ∉ failed')) :
    Brought c text rs' failed' r r' := by
  rw [Brought] at h ⊢
  simpa only [hiff] using h

/-- A sweep that goes on after a call: the failure of that call shows, and what else fails comes
later. -/
theorem Sweep.later {reply : Except Error Bool}
    (h : Sweep c text rs ⟨s, ⟨.overwriteCopy r.id text c.actor, reply⟩ :: σ.calls⟩ tally σ')
    (hid : r.id ∉ rs.map (·.id)) (hcalls : σ'.calls = calls ++ σ.calls) :
    ∃ later, σ'.calls = later ++ ⟨.overwriteCopy r.id text c.actor, reply⟩ :: σ.calls ∧
      (r.id ∈ refused calls ↔ ∃ e, reply = .error e) ∧
      ∀ id ≠ r.id, (id ∈ refused calls ↔ id ∈ refused later) := by
  obtain ⟨later, hlater, hswept⟩ := h.swept
  have hsplit : calls = later ++ [⟨.overwriteCopy r.id text c.actor, reply⟩] := by
    have hall : calls ++ σ.calls =
        later ++ [⟨.overwriteCopy r.id text c.actor, reply⟩] ++ σ.calls := by
      rw [← hcalls, hlater, List.append_assoc]
      rfl
    exact List.append_cancel_right hall
  have hfresh : r.id ∉ refused later := by
    intro hmem
    obtain ⟨x, hx, hrefused⟩ := List.mem_filterMap.mp hmem
    obtain ⟨r₀, hr₀, _, _, reply', rfl⟩ := hswept.about x hx
    cases reply' with
    | ok => cases hrefused
    | error => exact hid (Option.some_inj.mp hrefused ▸ List.mem_map_of_mem hr₀)
  refine ⟨later, hlater, ?_, fun id hne => ?_⟩
  · rw [hsplit, refused, List.filterMap_append, List.mem_append, ← refused, or_iff_right hfresh]
    cases reply <;> simp [Told.refused?]
  · rw [hsplit, refused, List.filterMap_append, List.mem_append, ← refused, or_iff_left]
    cases reply <;> simp [Told.refused?, hne]

theorem Sweep.brought (h : Sweep c text rs σ tally σ') (hs : σ.store.Sound)
    (hrs : Distinct σ.store rs) (hcalls : σ'.calls = calls ++ σ.calls) :
    List.Forall₂ (Brought c text rs (refused calls)) σ.store.records σ'.store.records := by
  induction h generalizing calls with
  | nil σ => exact List.forall₂_same.mpr fun r _ => by simp [Brought]
  | @equal r rest _ _ _ htext _ ih =>
      refine (ih hs hrs.tail hcalls).imp fun r₀ r' h => h.of_iff ?_
      rw [List.mem_cons, or_and_right, or_iff_right]
      rintro ⟨rfl, hne, -⟩
      exact hne htext
  | @written r rest σ _ _ htext _ hrest ih =>
      obtain ⟨later, hlater, hown, hothers⟩ := hrest.later (List.nodup_cons.mp hrs.ids).1 hcalls
      have hbrought := ih (hs.put r.id text true c.actor) (hrs.put _ _ _) hlater
      rw [Session.note, Store.put, List.forall₂_map_left_iff] at hbrought
      refine ((List.forall₂_and_left _ _).mpr ⟨fun r₀ hr₀ => hr₀, hbrought⟩).imp ?_
      rintro r₀ r' ⟨hr₀, h⟩
      by_cases hid : r₀.id = r.id
      · obtain rfl : r₀ = r := hs.eq_of_id hr₀ (hrs.mem r List.mem_cons_self) hid
        rw [if_pos rfl, Brought, if_neg fun h => h.2.1 rfl] at h
        rw [Brought, if_pos ⟨List.mem_cons_self, htext, by simp [hown]⟩]
        exact ⟨_, h⟩
      · have hne : r₀ ≠ r := fun heq => hid (congrArg Record.id heq)
        rw [if_neg hid] at h
        exact h.of_iff (by simp [hne, hothers _ hid])
  | @failed r rest σ _ _ e _ _ hrest ih =>
      obtain ⟨later, hlater, hown, hothers⟩ := hrest.later (List.nodup_cons.mp hrs.ids).1 hcalls
      have hbrought := ih hs hrs.tail hlater
      refine ((List.forall₂_and_left _ _).mpr ⟨fun r₀ hr₀ => hr₀, hbrought⟩).imp ?_
      rintro r₀ r' ⟨hr₀, h⟩
      by_cases hid : r₀.id = r.id
      · obtain rfl : r₀ = r := hs.eq_of_id hr₀ (hrs.mem r List.mem_cons_self) hid
        refine h.of_iff (iff_of_false (fun h => hrs.id_ne h.1 rfl) fun h => h.2.2 ?_)
        exact hown.mpr ⟨e, rfl⟩
      · have hne : r₀ ≠ r := fun heq => hid (congrArg Record.id heq)
        exact h.of_iff (by simp [hne, hothers _ hid])

def entry (text : Text) (failed : List RecordId) (r : Record) : Tally :=
  if r.text = text then ⟨0, 1, 0, 0⟩
  else if r.id ∈ failed then ⟨0, 0, 0, 1⟩
  else ⟨1, 0, 0, 0⟩

theorem map_entry_congr {failed failed' : List RecordId} (hid : r.id ∉ rs.map (·.id))
    (h : ∀ id ≠ r.id, (id ∈ failed ↔ id ∈ failed')) :
    rs.map (entry text failed) = rs.map (entry text failed') := by
  refine List.map_congr_left fun r₀ hr₀ => ?_
  have hne : r₀.id ≠ r.id := fun heq => hid (heq ▸ List.mem_map_of_mem hr₀)
  simp only [entry, h _ hne]

theorem Sweep.tally_eq (h : Sweep c text rs σ tally σ') (hids : (rs.map (·.id)).Nodup)
    (hcalls : σ'.calls = calls ++ σ.calls) :
    tally = (rs.map (entry text (refused calls))).foldr (· + ·) .zero := by
  induction h generalizing calls with
  | nil σ => rfl
  | equal htext _ ih =>
      rw [ih (List.nodup_cons.mp hids).2 hcalls, List.map_cons, List.foldr_cons, entry,
        if_pos htext]
  | @written r rest _ _ _ htext _ hrest ih =>
      obtain ⟨hid, hids⟩ := List.nodup_cons.mp hids
      obtain ⟨later, hlater, hown, hothers⟩ := hrest.later hid hcalls
      rw [ih hids hlater, List.map_cons, List.foldr_cons, map_entry_congr hid hothers, entry,
        if_neg htext, if_neg (by simp [hown])]
  | @failed r rest _ _ _ e htext _ hrest ih =>
      obtain ⟨hid, hids⟩ := List.nodup_cons.mp hids
      obtain ⟨later, hlater, hown, hothers⟩ := hrest.later hid hcalls
      rw [ih hids hlater, List.map_cons, List.foldr_cons, map_entry_congr hid hothers, entry,
        if_neg htext, if_pos (hown.mpr ⟨e, rfl⟩)]

theorem Sweep.mem_refused (h : Sweep c text rs σ tally σ') (hids : (rs.map (·.id)).Nodup)
    (hcalls : σ'.calls = calls ++ σ.calls) (hr : r ∈ rs) (htext : r.text ≠ text) :
    (r.id ∈ refused calls →
        c.refuse.Bites ∨ r.language ∈ σ.store.faults.overwritesIn) ∧
      (r.language ∈ σ.store.faults.overwritesIn → r.id ∈ refused calls) := by
  induction h generalizing calls with
  | nil σ => cases hr
  | equal hequal _ ih =>
      obtain rfl | hr := List.mem_cons.mp hr
      · exact absurd hequal htext
      · exact ih (List.nodup_cons.mp hids).2 hcalls hr
  | @written r₀ rest _ _ _ _ hfree hrest ih =>
      obtain ⟨hid, hids⟩ := List.nodup_cons.mp hids
      obtain ⟨later, hlater, hown, hothers⟩ := hrest.later hid hcalls
      obtain rfl | hr := List.mem_cons.mp hr
      · exact ⟨fun hfailed => by simp [hown] at hfailed, fun hfault => absurd hfault hfree⟩
      · have hne : r.id ≠ r₀.id := fun heq => hid (List.mem_map.mpr ⟨r, hr, heq⟩)
        rw [hothers _ hne]
        exact ih hids hlater hr
  | @failed r₀ rest _ _ _ e _ hwhy hrest ih =>
      obtain ⟨hid, hids⟩ := List.nodup_cons.mp hids
      obtain ⟨later, hlater, hown, hothers⟩ := hrest.later hid hcalls
      obtain rfl | hr := List.mem_cons.mp hr
      · exact ⟨fun _ => hwhy, fun _ => hown.mpr ⟨e, rfl⟩⟩
      · have hne : r.id ≠ r₀.id := fun heq => hid (List.mem_map.mpr ⟨r, hr, heq⟩)
        rw [hothers _ hne]
        exact ih hids hlater hr

theorem Sweep.rest (h : Sweep c text rs σ tally σ') :
    σ'.store = { σ.store with records := σ'.store.records, clock := σ'.store.clock } := by
  induction h with
  | nil => rfl
  | equal _ _ ih => exact ih
  | written _ _ _ ih => exact ih
  | failed _ _ _ _ ih => exact ih

end Reconciliation

namespace Propagation

open Reconciliation

variable {d : Directory} {refuse : Refusals} {event : Event} {s : Store}

/-- What an event is checked for, in this order. -/
inductive Check where
  | item
  | base
  | records
deriving DecidableEq

namespace Check

def question (event : Event) : Check → Query
  | .item => .hasItem event.item
  | .base => .language .base
  | .records => .records event.item

/-- The calls before a check, where the event passed all earlier ones; the newest stands first. -/
def earlier (d : Directory) (s : Store) (event : Event) : Check → List Told
  | .item => []
  | .base => [⟨.hasItem event.item, .ok (s.live event.item)⟩]
  | .records => [⟨.language .base, .ok d.base⟩, ⟨.hasItem event.item, .ok (s.live event.item)⟩]

/-- What speaks against the event if the question is answered. -/
def verdict (d : Directory) (s : Store) (event : Event) : Check → Option DropReason
  | .item => if s.live event.item then none else some .itemGone
  | .base =>
      match d.base with
      | none => some .baseUnresolved
      | some l => if l.id = event.language then none else some .baseChanged
  | .records => none

def objection (d : Directory) (refuse : Refusals) (s : Store) (event : Event) (c : Check) :
    Option DropReason :=
  match refuse (c.earlier d s event) (c.question event) with
  | some e => some (.lookup e)
  | none => c.verdict d s event

end Check

def firstObjection (d : Directory) (refuse : Refusals) (s : Store) (event : Event) :
    Option DropReason :=
  [Check.item, .base, .records].findSome? (·.objection d refuse s event)

/-- The session in which an event has passed its checks. -/
def passed (d : Directory) (s : Store) (event : Event) : Session :=
  Reconciliation.read ⟨s, Check.records.earlier d s event⟩ event.item

theorem check_run (d : Directory) (refuse : Refusals) (s : Store) (event : Event) :
    let out := (check event).run (Session.answer d refuse) (.start s)
    match firstObjection d refuse s event with
    | some reason => out.1 = .error reason ∧ out.2.store = s
    | none => out = (.ok (s.recordsOf event.item), passed d s event) := by
  simp only [check, Flow.run_hasItem, Flow.run_baseLanguage, Flow.run_records, Program.run_bind,
    Program.run_query, firstObjection, List.findSome?_cons, List.findSome?_nil, Check.objection,
    Check.question, Check.earlier, Check.verdict, Session.answer, Session.start]
  cases refuse [] (.hasItem event.item) with
  | some e => exact ⟨rfl, rfl⟩
  | none =>
      simp only [Store.answer, Session.note]
      cases hlive : s.live event.item with
      | false => exact ⟨rfl, rfl⟩
      | true =>
          simp only [if_true, Program.run_bind, Program.run_query, Session.answer]
          cases refuse [⟨.hasItem event.item, .ok true⟩] (.language .base) with
          | some e => exact ⟨rfl, rfl⟩
          | none =>
              simp only [Store.answer, Directory.answer, Session.note]
              cases hbase : d.base with
              | none => exact ⟨rfl, rfl⟩
              | some base =>
                  simp only [ite_not]
                  by_cases hsame : base.id = event.language
                  · simp only [if_pos hsame, Program.run_bind, Program.run_query, Session.answer]
                    cases refuse
                        [⟨.language .base, .ok (some base)⟩, ⟨.hasItem event.item, .ok true⟩]
                        (.records event.item) with
                    | some e => exact ⟨rfl, rfl⟩
                    | none =>
                        simp [passed, Reconciliation.read, Check.earlier, Session.note,
                          Store.answer, hlive, hbase]
                  · simp only [if_neg hsame]
                    exact ⟨rfl, rfl⟩

def Behind (event : Event) (r : Record) : Prop :=
  r.item = event.item ∧ r.IsCopy event.language ∧ r.text ≠ event.text

instance (event : Event) (r : Record) : Decidable (Behind event r) :=
  inferInstanceAs (Decidable (r.item = event.item ∧ r.IsCopy event.language ∧ r.text ≠ event.text))

/-- What an event makes of a record if the writes to some records fail. -/
def Settled (event : Event) (failed : List RecordId) (r r' : Record) : Prop :=
  if Behind event r ∧ r.id ∉ failed then
    ∃ now, r' = r.rewritten event.text true event.actor now
  else r' = r

/-- What there is after an event that was applied. -/
structure Applied (refuse : Refusals) (event : Event) (s : Store) (tally : Tally) (σ : Session) :
    Prop where
  records : List.Forall₂ (Settled event (refused σ.calls)) s.records σ.store.records
  rest : σ.store = { s with records := σ.store.records, clock := σ.store.clock }
  tally : tally = ((Copies.among (s.recordsOf event.item) event.language).map
    (entry event.text (refused σ.calls))).foldr (· + ·) .zero
  why : ∀ r ∈ s.records, Behind event r → r.id ∈ refused σ.calls →
    refuse.Bites ∨ r.language ∈ s.faults.overwritesIn
  faulty : ∀ r ∈ s.records, Behind event r → r.language ∈ s.faults.overwritesIn →
    r.id ∈ refused σ.calls

theorem Applied.of_sweep {tally : Tally} {σ : Session} (hs : s.Sound)
    (h : Sweep ⟨refuse, event.language, [], event.actor⟩ event.text
      (Copies.among (s.recordsOf event.item) event.language) (passed d s event) tally σ) :
    Applied refuse event s tally σ := by
  obtain ⟨calls, hcalls, _⟩ := h.swept
  have hrefused : refused σ.calls = refused calls := by
    rw [hcalls, refused, List.filterMap_append]
    exact List.append_nil _
  have hdistinct : Distinct s (Copies.among (s.recordsOf event.item) event.language) :=
    distinct_among (σ := passed d s event) (c := ⟨refuse, event.language, [], event.actor⟩) hs
  have hamong {r : Record} (hr : r ∈ s.records) :
      r ∈ Copies.among (s.recordsOf event.item) event.language ∧ r.text ≠ event.text ↔
        Behind event r := by
    rw [Copies.mem_among, Store.mem_recordsOf, Behind, Record.IsCopy]
    tauto
  refine ⟨?_, h.rest, ?_, ?_, ?_⟩
  · have hbrought := h.brought hs hdistinct hcalls
    refine ((List.forall₂_and_left _ _).mpr ⟨fun r hr => hr, hbrought⟩).imp ?_
    rintro r r' ⟨hr, hr'⟩
    have hiff : (r ∈ Copies.among (s.recordsOf event.item) event.language ∧ r.text ≠ event.text ∧
        r.id ∉ refused calls) ↔ Behind event r ∧ r.id ∉ refused calls := by
      rw [← hamong hr, and_assoc]
    rw [Settled, hrefused]
    simpa only [Brought, hiff] using hr'
  · rw [hrefused]
    exact h.tally_eq hdistinct.ids hcalls
  · intro r hr hbehind hmem
    obtain ⟨hr, htext⟩ := (hamong hr).mpr hbehind
    exact (h.mem_refused hdistinct.ids hcalls hr htext).1 (hrefused ▸ hmem)
  · intro r hr hbehind hfault
    obtain ⟨hr, htext⟩ := (hamong hr).mpr hbehind
    exact hrefused ▸ (h.mem_refused hdistinct.ids hcalls hr htext).2 hfault

/-- An event is dropped for the first objection to it, and then nothing is written. An event that
nothing speaks against is applied. -/
theorem applied_or_dropped (d : Directory) (refuse : Refusals) (event : Event) (hs : s.Sound) :
    let out := (handle event).run (Session.answer d refuse) (.start s)
    (∀ reason, out.1 = .dropped reason ↔ firstObjection d refuse s event = some reason) ∧
      ((∃ reason, out.1 = .dropped reason) → out.2.store = s) ∧
      (firstObjection d refuse s event = none →
        ∃ tally, out.1 = .applied tally ∧ Applied refuse event s tally out.2) := by
  have hcheck := check_run d refuse s event
  simp only [handle, Program.run_bind]
  cases hobjection : firstObjection d refuse s event with
  | some reason =>
      simp only [hobjection] at hcheck
      rw [hcheck.1]
      exact ⟨fun reason' => by simp, fun _ => hcheck.2, nofun⟩
  | none =>
      simp only [hobjection] at hcheck
      simp only [hcheck, Program.run_bind]
      have hsweep := converge_run d ⟨refuse, event.language, [], event.actor⟩ event.item event.text
        (σ := ⟨s, Check.records.earlier d s event⟩) hs
      refine ⟨fun reason => by simp, ?_, fun _ => ⟨_, rfl, .of_sweep hs hsweep⟩⟩
      rintro ⟨_, heq⟩
      cases heq

end Propagation

namespace Trilingual

def complete : Store := (copied.answer directory (.insert 7 [.copy 3 (title "Hello")] "ann")).2

theorem reachable_complete : complete.Reachable := by
  apply Store.Reachable.answered
  apply Store.Reachable.answered
  exact .addItem 7 (.named "page")

def germanLocked : Refusals
  | _, .overwriteCopy 3 _ _ => some (.storage (.write 3))
  | _, _ => none

def welcome : Event := ⟨"page", 7, 1, title "Welcome", "bea"⟩

def welcomed : Propagation.Outcome × Session :=
  (Propagation.handle welcome).run (Session.answer directory germanLocked) (.start complete)

end Trilingual

namespace Propagation

open Trilingual in
theorem welcome_applied_in_french :
    complete.Sound ∧ firstObjection directory germanLocked complete welcome = none ∧
      (∃ tally, welcomed.1 = .applied tally ∧
        Applied germanLocked welcome complete tally welcomed.2) ∧
      welcomed.1 = .applied ⟨1, 0, 0, 1⟩ ∧
      welcomed.2.store.records.map (fun r => (r.text, r.updatedBy)) =
        [(title "Hello", "ann"), (title "Welcome", "bea"), (title "Hello", "ann")] := by
  have hnone : firstObjection directory germanLocked complete welcome = none := by cbv
  have htally : welcomed.1 = .applied ⟨1, 0, 0, 1⟩ := by cbv
  have hrecords : welcomed.2.store.records.map (fun r => (r.text, r.updatedBy)) =
      [(title "Hello", "ann"), (title "Welcome", "bea"), (title "Hello", "ann")] := by
    cbv
  have hsound := reachable_complete.sound
  have happlied := (applied_or_dropped directory germanLocked welcome hsound).2.2 hnone
  exact ⟨hsound, hnone, happlied, htally, hrecords⟩

end Propagation

end Polyglot
