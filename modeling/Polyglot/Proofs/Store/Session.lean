import Polyglot.Proofs.Program.Grounded
import Polyglot.Proofs.Store.Place

/-!
A store some of whose calls are refused, with a note of every call. Which calls are refused is up to
a rule that knows the calls before; a refused call changes nothing.
-/

namespace Polyglot

abbrev Told := Answered Query Query.Reply

/-- The refusal of a question after the calls before it, the newest of which stands first. -/
abbrev Refusals := List Told → Query → Option Error

def Refusals.never : Refusals := fun _ _ => none

/-- The rule refuses something sometime. -/
def Refusals.Bites (refuse : Refusals) : Prop := ∃ calls q, refuse calls q ≠ none

theorem Refusals.bites {refuse : Refusals} {calls : List Told} {q : Query} {e : Error}
    (h : refuse calls q = some e) : refuse.Bites :=
  ⟨calls, q, by simp [h]⟩

theorem Refusals.not_bites_never : ¬ never.Bites := fun ⟨_, _, h⟩ => h rfl

def Query.writes : Query → Bool
  | .insert .. => true
  | .overwriteCopy .. => true
  | .write .. => true
  | _ => false

theorem Store.answer_of_not_writes (d : Directory) (s : Store) {q : Query}
    (hq : q.writes = false) : (s.answer d q).2 = s := by
  cases q with
  | insert => cases hq
  | overwriteCopy => cases hq
  | write => cases hq
  | _ => rfl

structure Session where
  store : Store
  /-- The newest call stands first. -/
  calls : List Told

namespace Session

def start (s : Store) : Session := ⟨s, []⟩

def note (σ : Session) (q : Query) (reply : q.Reply) (t : Store) : Session :=
  ⟨t, ⟨q, reply⟩ :: σ.calls⟩

def answer (d : Directory) (refuse : Refusals) (q : Query) (σ : Session) : q.Reply × Session :=
  match refuse σ.calls q with
  | some e => (.error e, σ.note q (.error e) σ.store)
  | none => ((σ.store.answer d q).1, σ.note q (σ.store.answer d q).1 (σ.store.answer d q).2)

variable {α : Type} {d : Directory} {σ : Session}

theorem run_never (d : Directory) (f : Flow α) (σ : Session) :
    (f.run (answer d .never) σ).1 = (f.run (Store.answer d) σ.store).1 ∧
      (f.run (answer d .never) σ).2.store = (f.run (Store.answer d) σ.store).2 := by
  induction f generalizing σ with
  | done a => exact ⟨rfl, rfl⟩
  | ask q next ih => exact ih _ _

/-- What holds of every session without refusals holds of the store alone. -/
theorem of_never {P : α → Store → Prop} (f : Flow α) (s : Store)
    (h : ∀ a σ, f.run (answer d .never) (.start s) = (a, σ) → P a σ.store) :
    P (f.run (Store.answer d) s).1 (f.run (Store.answer d) s).2 := by
  obtain ⟨hresult, hstore⟩ := run_never d f (.start s)
  have hsession := h _ _ rfl
  rwa [hresult, hstore] at hsession

/-- What comes after a question that the store answers without a change, unless it is refused. -/
theorem run_demand (refuse : Refusals) {q : Query} (hq : q.writes = false) {a : q.Answer}
    (h : (σ.store.answer d q).1 = .ok a) (f : q.Answer → Attempt α) :
    (∃ e, refuse.Bites ∧ (Flow.demand q >>= f).run.run (answer d refuse) σ =
        (.error e, σ.note q (.error e) σ.store)) ∨
      (Flow.demand q >>= f).run.run (answer d refuse) σ =
        (f a).run.run (answer d refuse) (σ.note q (.ok a) σ.store) := by
  rw [Flow.run_demand_bind, Program.run_ask, answer]
  cases hrefuse : refuse σ.calls q with
  | none =>
      rw [h, Store.answer_of_not_writes d σ.store hq, Flow.onward_ok]
      exact Or.inr rfl
  | some e => exact Or.inl ⟨e, Refusals.bites hrefuse, rfl⟩

theorem run_demand_error (refuse : Refusals) {q : Query} (hq : q.writes = false) {e : Error}
    (h : (σ.store.answer d q).1 = .error e) (f : q.Answer → Attempt α) :
    ∃ e', (Flow.demand q >>= f).run.run (answer d refuse) σ =
      (.error e', σ.note q (.error e') σ.store) := by
  rw [Flow.run_demand_bind, Program.run_ask, answer]
  cases refuse σ.calls q with
  | some e' => exact ⟨e', rfl⟩
  | none =>
      refine ⟨e, ?_⟩
      rw [h, Store.answer_of_not_writes d σ.store hq, Flow.onward_error]
      rfl

/-- From one session to the other the store was only looked at. -/
structure Looked (σ σ' : Session) : Prop where
  store : σ'.store = σ.store
  calls : ∀ x ∈ σ'.calls, x ∈ σ.calls ∨ x.question.writes = false

theorem Looked.refl (σ : Session) : Looked σ σ := ⟨rfl, fun _ hx => Or.inl hx⟩

theorem Looked.trans {σ₁ σ' : Session} (h : Looked σ σ₁) (h' : Looked σ₁ σ') : Looked σ σ' where
  store := h'.store.trans h.store
  calls x hx := by
    rcases h'.calls x hx with hx | hlooks
    · exact h.calls x hx
    · exact Or.inr hlooks

theorem Looked.note {σ' : Session} {q : Query} (h : Looked σ σ') (hq : q.writes = false)
    (reply : q.Reply) : Looked σ (σ'.note q reply σ'.store) where
  store := h.store
  calls x hx := by
    rcases List.mem_cons.mp hx with rfl | hx
    · exact Or.inr hq
    · exact h.calls x hx

theorem answer_overwriteCopy (d : Directory) (refuse : Refusals) (hs : σ.store.Sound) {r : Record}
    (hr : r ∈ σ.store.records) (hfollows : r.follows = true) (text : Text) (actor : Actor) :
    (r.language ∉ σ.store.faults.overwritesIn ∧
        answer d refuse (.overwriteCopy r.id text actor) σ =
          (.ok true, σ.note (.overwriteCopy r.id text actor) (.ok true)
            (σ.store.put r.id text true actor))) ∨
      ∃ e, (refuse.Bites ∨ r.language ∈ σ.store.faults.overwritesIn) ∧
        answer d refuse (.overwriteCopy r.id text actor) σ =
          (.error e, σ.note (.overwriteCopy r.id text actor) (.error e) σ.store) := by
  rw [answer]
  cases hrefuse : refuse σ.calls (.overwriteCopy r.id text actor) with
  | some e => exact Or.inr ⟨e, Or.inl (Refusals.bites hrefuse), rfl⟩
  | none =>
      by_cases hfault : r.language ∈ σ.store.faults.overwritesIn
      · refine Or.inr ⟨.storage (.write r.id), Or.inr hfault, ?_⟩
        simp [Store.answer, Store.overwriteCopy, hs.record?_eq hr, hfault]
      · refine Or.inl ⟨hfault, ?_⟩
        simp [Store.answer, Store.overwriteCopy, hs.record?_eq hr, hfault, hfollows]

theorem answer_insert (d : Directory) (refuse : Refusals) {item : ItemId} {drafts : List Draft}
    (actor : Actor) (hitem : σ.store.items.contains item = true)
    (hfree : firstRepeat (σ.store.languagesOf item) (drafts.map (·.language)) = none) :
    ((σ.store.faults.copyInserts && drafts.any (·.follows)) = false ∧
        answer d refuse (.insert item drafts actor) σ =
          (.ok (), σ.note (.insert item drafts actor) (.ok ())
            (σ.store.append item drafts actor))) ∨
      ∃ e, (refuse.Bites ∨ (σ.store.faults.copyInserts && drafts.any (·.follows)) = true) ∧
        answer d refuse (.insert item drafts actor) σ =
          (.error e, σ.note (.insert item drafts actor) (.error e) σ.store) := by
  rw [answer]
  cases hrefuse : refuse σ.calls (.insert item drafts actor) with
  | some e => exact Or.inr ⟨e, Or.inl (Refusals.bites hrefuse), rfl⟩
  | none =>
      cases hfault : σ.store.faults.copyInserts && drafts.any (·.follows) with
      | true =>
          refine Or.inr ⟨.storage (.insert σ.store.name), Or.inr rfl, ?_⟩
          simp only [Store.answer, Store.insert, hfault, if_true, Store.settle]
      | false =>
          refine Or.inl ⟨rfl, ?_⟩
          simp [Store.answer, Store.insert, hfault, hitem, hfree, Store.settle]

end Session

end Polyglot
