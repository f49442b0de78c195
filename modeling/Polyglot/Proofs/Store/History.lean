import Polyglot.Proofs.Store.Place

namespace Polyglot

namespace Store

inductive Operation where
  | addItem (item : ItemId)
  | softDelete (item : ItemId)
  | delete (item : ItemId)
  | setFaults (faults : Faults)
  /-- Look-ups are answered from the directory as it is at the time. -/
  | call (d : Directory) (q : Query)

@[reducible] def Operation.Answer : Operation → Type
  | .call _ q => q.Answer
  | _ => Unit

def perform (s : Store) : (o : Operation) → Except Error o.Answer × Store
  | .addItem item => (.ok (), s.addItem item)
  | .softDelete item => (.ok (), s.softDelete item)
  | .delete item => (.ok (), s.delete item)
  | .setFaults faults => (.ok (), { s with faults })
  | .call d q => s.answer d q

def after (s : Store) : List Operation → Store
  | [] => s
  | o :: rest => (s.perform o).2.after rest

/-- The ids that are in use in `t` and were not in `s`. -/
def issued (s t : Store) : List RecordId :=
  (t.records.map (·.id)).filter fun id => id ∉ s.records.map (·.id)

/-- The ids that a history brings into use, in its order. -/
def issuedIn (s : Store) : List Operation → List RecordId
  | [] => []
  | o :: rest => s.issued (s.perform o).2 ++ (s.perform o).2.issuedIn rest

variable {s t : Store}

theorem after_append (s : Store) (past rest : List Operation) :
    s.after (past ++ rest) = (s.after past).after rest := by
  induction past generalizing s with
  | nil => rfl
  | cons o past ih => exact ih (s.perform o).2

theorem run_eq_after {α : Type} (d : Directory) (f : Flow α) (s : Store) :
    ∃ calls : List Query, (f.run (answer d) s).2 = s.after (calls.map (.call d)) := by
  induction f generalizing s with
  | done a => exact ⟨[], rfl⟩
  | ask q next ih =>
      obtain ⟨calls, hcalls⟩ := ih (s.answer d q).1 (s.answer d q).2
      exact ⟨q :: calls, hcalls⟩

theorem Sound.perform (hs : s.Sound) (o : Operation) : (s.perform o).2.Sound := by
  cases o with
  | addItem item => exact hs.addItem item
  | softDelete item => exact hs.softDelete item
  | delete item => exact hs.delete item
  | setFaults faults => exact hs.setFaults faults
  | call d q => exact hs.becomes (becomes_answer d q)

theorem Sound.after (hs : s.Sound) (history : List Operation) : (s.after history).Sound := by
  induction history generalizing s with
  | nil => exact hs
  | cons o rest ih => exact ih (hs.perform o)

theorem later_perform (s : Store) (o : Operation) : s.Later (s.perform o).2 := by
  cases o with
  | addItem item => exact .of_mem (Int.le_refl _) fun _ hr => hr
  | softDelete item =>
      refine .of_mem (Int.le_of_eq (nextId_softDelete s item).symm) fun r hr => ?_
      rwa [← records_softDelete s item]
  | delete item => exact .of_mem (Int.le_refl _) fun _ hr => List.mem_of_mem_filter hr
  | setFaults faults => exact .of_mem (Int.le_refl _) fun _ hr => hr
  | call d q => exact (becomes_answer d q).later

theorem Later.trans {u : Store} (h : s.Later t) (h' : t.Later u) : s.Later u where
  nextId := Int.le_trans h.nextId h'.nextId
  identity r hr hlt := by
    obtain ⟨r₁, hr₁, hid₁, hitem₁, hlanguage₁⟩ :=
      h'.identity r hr (Int.lt_of_lt_of_le hlt h.nextId)
    obtain ⟨r₀, hr₀, hid₀, hitem₀, hlanguage₀⟩ := h.identity r₁ hr₁ (hid₁ ▸ hlt)
    exact ⟨r₀, hr₀, hid₀.trans hid₁, hitem₀.trans hitem₁, hlanguage₀.trans hlanguage₁⟩

theorem later_after (s : Store) (history : List Operation) : s.Later (s.after history) := by
  induction history generalizing s with
  | nil => exact .refl s
  | cons o rest ih => exact (later_perform s o).trans (ih _)

theorem mem_issued {id : RecordId} :
    id ∈ s.issued t ↔ (∃ r ∈ t.records, r.id = id) ∧ ∀ r ∈ s.records, r.id ≠ id := by
  simp [issued]

theorem Later.le_of_mem_issued (h : s.Later t) {id : RecordId} (hid : id ∈ s.issued t) :
    s.nextId ≤ id := by
  obtain ⟨⟨r, hr, rfl⟩, hnew⟩ := mem_issued.mp hid
  by_contra hlt
  obtain ⟨r₀, hr₀, hid₀, -⟩ := h.identity r hr (Int.not_le.mp hlt)
  exact hnew r₀ hr₀ hid₀

theorem le_of_mem_issuedIn {history : List Operation} {id : RecordId}
    (hid : id ∈ s.issuedIn history) : s.nextId ≤ id := by
  induction history generalizing s with
  | nil => simp [issuedIn] at hid
  | cons o rest ih =>
      have hlater := later_perform s o
      rcases List.mem_append.mp hid with hid | hid
      · exact hlater.le_of_mem_issued hid
      · exact Int.le_trans hlater.nextId (ih hid)

/-- An id comes into use at most once: each step gives out ids from the next one on, and all of
them lie below the next one after it. -/
theorem Sound.nodup_issuedIn (hs : s.Sound) (history : List Operation) :
    (s.issuedIn history).Nodup := by
  induction history generalizing s with
  | nil => exact List.nodup_nil
  | cons o rest ih =>
      have hstep := hs.perform o
      refine List.Nodup.append (hstep.ids_nodup.filter _) (ih hstep) ?_
      intro id hid hrest
      obtain ⟨⟨r, hr, rfl⟩, -⟩ := mem_issued.mp hid
      exact Int.not_le.mpr (hstep.ids r hr).2 (le_of_mem_issuedIn hrest)

theorem mem_issuedIn_or {history : List Operation} {r : Record}
    (hr : r ∈ (s.after history).records) :
    r.id ∈ s.issuedIn history ∨ ∃ r₀ ∈ s.records, r₀.id = r.id := by
  induction history generalizing s with
  | nil => exact Or.inr ⟨r, hr, rfl⟩
  | cons o rest ih =>
      rcases ih hr with hrest | ⟨r₁, hr₁, hid⟩
      · exact Or.inl (List.mem_append_right _ hrest)
      · by_cases hold : ∃ r₀ ∈ s.records, r₀.id = r.id
        · exact Or.inr hold
        · push Not at hold
          exact Or.inl (List.mem_append_left _ (mem_issued.mpr ⟨⟨r₁, hr₁, hid⟩, hold⟩))

theorem perm_recordsOf (s : Store) (item : ItemId) :
    (s.recordsOf item).Perm (s.records.filter (·.item = item)) :=
  List.mergeSort_perm _ _

theorem settle_eq (s : Store) (result : Except Error Store) :
    (∃ t, result = .ok t ∧ s.settle result = (.ok (), t)) ∨
      ∃ e, result = .error e ∧ s.settle result = (.error e, s) := by
  cases result with
  | ok t => exact Or.inl ⟨t, rfl, rfl⟩
  | error e => exact Or.inr ⟨e, rfl, rfl⟩

theorem answer_insert_eq (d : Directory) (s : Store) (item : ItemId) (drafts : List Draft)
    (actor : Actor) :
    s.answer d (.insert item drafts actor) = (.ok (), s.append item drafts actor) ∨
      ∃ e, s.answer d (.insert item drafts actor) = (.error e, s) := by
  rcases settle_eq s (s.insert item drafts actor) with ⟨t, ht, hsettle⟩ | ⟨e, -, hsettle⟩
  · refine Or.inl ?_
    rw [answer, hsettle]
    rw [insert] at ht
    split_ifs at ht
    split at ht
    · cases ht
    · cases ht
      rfl
  · exact Or.inr ⟨e, hsettle⟩

theorem perform_of_error {o : Operation} {e : Error} (h : (s.perform o).1 = .error e) :
    (s.perform o).2 = s := by
  have hsettled (result : Except Error Store) (hresult : (s.settle result).1 = .error e) :
      (s.settle result).2 = s := by
    rcases settle_eq s result with ⟨t, -, hsettle⟩ | ⟨_, -, hsettle⟩
    · rw [hsettle] at hresult
      cases hresult
    · rw [hsettle]
  cases o with
  | addItem => cases h
  | softDelete => cases h
  | delete => cases h
  | setFaults => cases h
  | call d q =>
      cases q with
      | insert item drafts actor => exact hsettled _ h
      | write id text follows actor => exact hsettled _ h
      | overwriteCopy id text actor =>
          simp only [perform, answer] at h ⊢
          split at h
          · cases h
          · rfl
      | language | items | hasItem | records => rfl

theorem append_eq_mapIdx (s : Store) (item : ItemId) (drafts : List Draft) (actor : Actor) :
    s.append item drafts actor =
      { s with
        records := s.records ++ drafts.mapIdx fun k draft =>
          { id := s.nextId + k, item, language := draft.language, text := draft.text
            follows := draft.follows, createdBy := actor, updatedBy := actor
            createdAt := s.clock, updatedAt := s.clock }
        nextId := s.nextId + drafts.length
        clock := s.clock + 1 } := by
  rw [append, enrol_eq_mapIdx]
  rfl

/-- Whatever a new store has been through, it is sound, it has given no id out twice, and what it
was known by at any time before still stands. It reads an item in the order of languages. What
fails changes nothing, so that a batch lands whole or not at all: as one record for each draft, in
order, with ids counted up from the next one. -/
theorem kept_in_every_history (name : String) (history : List Operation) :
    let s := (named name).after history
    s.Sound ∧
      ((named name).issuedIn history).Nodup ∧
      (∀ r ∈ s.records, r.id ∈ (named name).issuedIn history) ∧
      (∀ past rest, history = past ++ rest → ((named name).after past).Later s) ∧
      (∀ d item, ∃ found, s.answer d (.records item) = (.ok found, s) ∧
        found.Perm (s.records.filter (·.item = item)) ∧
        found.Pairwise fun r r' => r.language < r'.language) ∧
      (∀ o e, (s.perform o).1 = .error e → (s.perform o).2 = s) ∧
      ∀ d item drafts actor,
        s.answer d (.insert item drafts actor) =
            (.ok (), { s with
              records := s.records ++ drafts.mapIdx fun k draft =>
                { id := s.nextId + k, item, language := draft.language, text := draft.text
                  follows := draft.follows, createdBy := actor, updatedBy := actor
                  createdAt := s.clock, updatedAt := s.clock }
              nextId := s.nextId + drafts.length
              clock := s.clock + 1 }) ∨
          ∃ e, s.answer d (.insert item drafts actor) = (.error e, s) := by
  intro s
  have hsound : s.Sound := (sound_named name).after history
  refine ⟨hsound, (sound_named name).nodup_issuedIn history, ?_, ?_, ?_, ?_, ?_⟩
  · intro r hr
    rcases mem_issuedIn_or hr with hissued | ⟨r₀, hr₀, -⟩
    · exact hissued
    · cases hr₀
  · rintro past rest rfl
    show ((named name).after past).Later ((named name).after (past ++ rest))
    rw [after_append]
    exact later_after _ rest
  · intro d item
    exact ⟨s.recordsOf item, rfl, s.perm_recordsOf item, hsound.sorted_recordsOf item⟩
  · intro o e herror
    exact perform_of_error herror
  · intro d item drafts actor
    rw [← append_eq_mapIdx]
    exact answer_insert_eq d s item drafts actor

/-- An item is deleted with its records and comes back. Its old ids do not, and a batch that
clashes with itself takes none. -/
example :
    let d := Directory.withBase "en"
    let batch := [Draft.pinned 1 .empty, .copy 2 .empty]
    let history : List Operation :=
      [.addItem 7, .call d (.insert 7 batch "ann"), .delete 7, .addItem 7,
        .call d (.insert 7 [.copy 3 .empty, .copy 3 .empty] "ann"),
        .call d (.insert 7 batch "ben")]
    (named "page").issuedIn history = [1, 2, 3, 4] ∧
      ((named "page").after history).records.map (·.id) = [3, 4] := by
  decide

end Store

end Polyglot
