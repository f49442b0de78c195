import Mathlib.Data.List.Basic
import Polyglot.Proofs.Creation.Endings
import Polyglot.Proofs.Program.Transcript

namespace Polyglot

namespace Copies

/-- The languages in which no record is listed, each once, in the order of first occurrences. -/
structure Gaps (records : List Record) (languages gaps : List LanguageId) : Prop where
  mem : ∀ l, l ∈ gaps ↔ l ∈ languages ∧ ∀ r ∈ records, r.language ≠ l
  once : gaps.Nodup
  inOrder : gaps.Pairwise fun a b => languages.idxOf a < languages.idxOf b

def Covered (records : List Record) (languages : List LanguageId) : Prop :=
  ∀ l ∈ languages, ∃ r ∈ records, r.language = l

section

variable {records : List Record} {languages : List LanguageId} {id : LanguageId}

theorem covered_iff :
    Covered records languages ↔ missing (records.map (·.language)) languages = [] := by
  simp [Covered, missing_eq_nil_iff]

theorem pairwise_idxOf_cons {ls : List LanguageId} (hne : ∀ l ∈ ls, id ≠ l)
    (h : ls.Pairwise fun a b => languages.idxOf a < languages.idxOf b) :
    ls.Pairwise fun a b => (id :: languages).idxOf a < (id :: languages).idxOf b := by
  refine h.imp_of_mem fun ha hb hlt => ?_
  rw [List.idxOf_cons_ne languages (hne _ ha), List.idxOf_cons_ne languages (hne _ hb)]
  exact Nat.succ_lt_succ hlt

theorem pairwise_idxOf_missing (taken languages : List LanguageId) :
    (missing taken languages).Pairwise fun a b => languages.idxOf a < languages.idxOf b := by
  induction languages generalizing taken with
  | nil => exact .nil
  | cons id rest ih =>
      rw [missing]
      split
      · rename_i hid
        refine pairwise_idxOf_cons (fun l hl heq => ?_) (ih taken)
        exact (mem_missing_iff.mp hl).2 (heq ▸ hid)
      · -- The element joins those that are taken, so it does not come again behind itself.
        have hne : ∀ l ∈ missing (id :: taken) rest, id ≠ l := fun l hl heq =>
          (mem_missing_iff.mp hl).2 (heq ▸ List.mem_cons_self)
        refine List.pairwise_cons.mpr ⟨fun l hl => ?_, pairwise_idxOf_cons hne (ih (id :: taken))⟩
        rw [List.idxOf_cons_self, List.idxOf_cons_ne rest (hne l hl)]
        exact Nat.succ_pos _

theorem gaps_missing (records : List Record) (languages : List LanguageId) :
    Gaps records languages (missing (records.map (·.language)) languages) where
  mem l := by
    rw [mem_missing_iff]
    simp
  once := (missing_spec _ languages).1
  inOrder := pairwise_idxOf_missing _ languages

theorem fillGaps_of_covered {σ : Type} (answer : (q : Query) → σ → q.Reply × σ)
    (h : Covered records languages) (item : ItemId) (text : Text) (actor : Actor) (s : σ) :
    let filling := (fillGaps item records languages text actor).run
    filling.transcript answer s = [] ∧ filling.run answer s = (.ok 0, s) := by
  rw [run_fillGaps_of_full (covered_iff.mp h)]
  exact ⟨rfl, rfl⟩

theorem fillGaps_of_not_covered {σ : Type} (answer : (q : Query) → σ → q.Reply × σ)
    (h : ¬ Covered records languages) (item : ItemId) (text : Text) (actor : Actor) (s : σ) :
    let filling := (fillGaps item records languages text actor).run
    let drafts := (missing (records.map (·.language)) languages).map (Draft.copy · text)
    let (reply, t) := answer (.insert item drafts actor) s
    filling.transcript answer s = [⟨.insert item drafts actor, reply⟩] ∧
      filling.run answer s = (reply.map fun _ => drafts.length, t) := by
  rw [run_fillGaps_of_gap (mt covered_iff.mpr h)]
  refine ⟨rfl, ?_⟩
  rw [Program.run_ask, Program.run_done, List.length_map]

/-- What an item has gained leaves none of the gaps open. -/
theorem covered_of_gains {s t : Store} {item : ItemId} {text : Text} {actor : Actor}
    (h : s.Gains item ((missing ((s.recordsOf item).map (·.language)) languages).map
      (Draft.copy · text)) actor t) :
    Covered (t.recordsOf item) languages := by
  intro l hl
  rcases mem_missing ((s.recordsOf item).map (·.language)) hl with htaken | hmissing
  · obtain ⟨r, hr, hlanguage⟩ := List.mem_map.mp htaken
    obtain ⟨hr, hitem⟩ := Store.mem_recordsOf.mp hr
    exact ⟨r, Store.mem_recordsOf.mpr ⟨h.kept hr, hitem⟩, hlanguage⟩
  · obtain ⟨now, id, -, hr⟩ := h.exists_record (List.mem_map_of_mem hmissing)
    exact ⟨_, Store.mem_recordsOf.mpr ⟨hr, rfl⟩, rfl⟩

end

/-- Whatever the store, the filling of gaps makes no call and answers zero where every language has
a record in the list. Otherwise it makes one call, which is to insert a copy of the text in each
language that has none, in the order of their first occurrences, and it answers how many these are,
or why they were not inserted. A store that has the item, and is not made to refuse copies, takes
them if the list is what it holds of the item, and the same filling makes no call after that. -/
theorem gaps_filled_at_once (item : ItemId) (languages : List LanguageId) (text : Text)
    (actor : Actor) :
    (∀ (σ : Type) (answer : (q : Query) → σ → q.Reply × σ) (records : List Record) (s : σ),
      let filling := (fillGaps item records languages text actor).run
      (Covered records languages →
        filling.transcript answer s = [] ∧ filling.run answer s = (.ok 0, s)) ∧
      (¬ Covered records languages → ∃ gaps, Gaps records languages gaps ∧
        let drafts := gaps.map (Draft.copy · text)
        let (reply, t) := answer (.insert item drafts actor) s
        filling.transcript answer s = [⟨.insert item drafts actor, reply⟩] ∧
          filling.run answer s = (reply.map fun _ => drafts.length, t))) ∧
    ∀ (d : Directory) (s : Store), s.faults.copyInserts = false → s.items.contains item = true →
      let out := (fillGaps item (s.recordsOf item) languages text actor).run.run (Store.answer d) s
      let again := (fillGaps item (out.2.recordsOf item) languages text actor).run
      (∃ gaps, Gaps (s.recordsOf item) languages gaps ∧ out.1 = .ok gaps.length ∧
        s.Gains item (gaps.map (Draft.copy · text)) actor out.2) ∧
      again.transcript (Store.answer d) out.2 = [] ∧
        again.run (Store.answer d) out.2 = (.ok 0, out.2) := by
  refine ⟨fun σ answer records s => ⟨fun h => ?_, fun h => ?_⟩, fun d s hfault hitem => ?_⟩
  · exact fillGaps_of_covered answer h item text actor s
  · exact ⟨_, gaps_missing records languages, fillGaps_of_not_covered answer h item text actor s⟩
  · rcases fillGaps_alone d hitem languages text actor with ⟨-, hbroken, -⟩ | ⟨-, t, hout, hgains⟩
    · cases hfault.symm.trans hbroken
    · dsimp only
      rw [hout]
      refine ⟨⟨_, gaps_missing (s.recordsOf item) languages, rfl, hgains⟩, ?_⟩
      exact fillGaps_of_covered (Store.answer d) (covered_of_gains hgains) item text actor t

open Trilingual in
theorem outdated_page_filled :
    outdated.faults.copyInserts = false ∧ outdated.items.contains 7 = true ∧
      let languages := [4, 2, 3, 4]
      let out := (fillGaps 7 (outdated.recordsOf 7) languages (title "Welcome") "sync").run.run
        (Store.answer directory) outdated
      out.1 = .ok 2 ∧ out.2.languagesOf 7 = [1, 2, 4, 3] ∧
        (fillGaps 7 (out.2.recordsOf 7) languages (title "Welcome") "sync").run.transcript
          (Store.answer directory) out.2 = [] := by
  have hfault : outdated.faults.copyInserts = false := by decide
  have hitem : outdated.items.contains 7 = true := by decide
  obtain ⟨-, hagain, -⟩ := (gaps_filled_at_once 7 [4, 2, 3, 4] (title "Welcome") "sync").2 directory
    outdated hfault hitem
  exact ⟨hfault, hitem, by cbv, by cbv, hagain⟩

end Copies

end Polyglot
