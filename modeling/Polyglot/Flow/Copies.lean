import Polyglot.Flow.Query
import Polyglot.Repeat
import Polyglot.Tally

/-!
Bringing copies to the base text, and adding the copies that are missing. Every background flow
is made of these two. A write that fails is counted and the pass goes on.
-/

namespace Polyglot

/-- The count for the answer to one overwriting call. -/
def Tally.ofReply : Except Error Bool → Tally
  | .ok true => ⟨1, 0, 0, 0⟩
  | .ok false => ⟨0, 0, 1, 0⟩
  | .error _ => ⟨0, 0, 0, 1⟩

namespace Copies

/-- The records that a flow may overwrite: those that follow, outside the base language. -/
def among (records : List Record) (base : LanguageId) : List Record :=
  records.filter fun r => r.follows && r.language ≠ base

theorem mem_among {rs : List Record} {base : LanguageId} {r : Record} :
    r ∈ among rs base ↔ r ∈ rs ∧ r.follows = true ∧ r.language ≠ base := by
  simp [among]

def overwrite (text : Text) (actor : Actor) (r : Record) : Flow Tally :=
  if r.text = text then pure ⟨0, 1, 0, 0⟩
  else do return Tally.ofReply (← (Flow.overwriteCopy r.id text actor).run)

def overwriteAll (text : Text) (actor : Actor) : List Record → Flow Tally
  | [] => pure .zero
  | r :: rest => do
      let first ← overwrite text actor r
      let others ← overwriteAll text actor rest
      return first + others

def converge (records : List Record) (base : LanguageId) (text : Text) (actor : Actor) :
    Flow Tally :=
  overwriteAll text actor (among records base)

/-- The first occurrences of the ids that are not in `taken`. -/
def missing (taken : List LanguageId) : List LanguageId → List LanguageId
  | [] => []
  | id :: rest =>
      if id ∈ taken then missing taken rest else id :: missing (id :: taken) rest

theorem missing_spec (taken languages : List LanguageId) :
    (missing taken languages).Nodup ∧ ∀ l ∈ missing taken languages, l ∉ taken := by
  induction languages generalizing taken with
  | nil => simp [missing]
  | cons id rest ih =>
      rw [missing]
      split
      · exact ih taken
      · rename_i hid
        obtain ⟨hnodup, hout⟩ := ih (id :: taken)
        refine ⟨List.nodup_cons.mpr ⟨fun h => hout id h List.mem_cons_self, hnodup⟩, ?_⟩
        rintro l hl hmem
        rcases List.mem_cons.mp hl with rfl | hl
        · exact hid hmem
        · exact hout l hl (List.mem_cons_of_mem id hmem)

theorem mem_missing (taken : List LanguageId) {languages : List LanguageId} {language : LanguageId}
    (h : language ∈ languages) : language ∈ taken ∨ language ∈ missing taken languages := by
  induction languages generalizing taken with
  | nil => cases h
  | cons id rest ih =>
      rw [missing]
      split
      · rename_i hid
        rcases List.mem_cons.mp h with rfl | h
        · exact Or.inl hid
        · exact ih taken h
      · rcases List.mem_cons.mp h with rfl | h
        · exact Or.inr List.mem_cons_self
        · rcases ih (id :: taken) h with htaken | hmissing
          · rcases List.mem_cons.mp htaken with rfl | htaken
            · exact Or.inr List.mem_cons_self
            · exact Or.inl htaken
          · exact Or.inr (List.mem_cons_of_mem id hmissing)

theorem subset_of_missing (taken : List LanguageId) {languages : List LanguageId}
    {language : LanguageId} (h : language ∈ missing taken languages) : language ∈ languages := by
  induction languages generalizing taken with
  | nil => cases h
  | cons id rest ih =>
      rw [missing] at h
      split at h
      · exact List.mem_cons_of_mem id (ih taken h)
      · rcases List.mem_cons.mp h with rfl | h
        · exact List.mem_cons_self
        · exact List.mem_cons_of_mem id (ih (id :: taken) h)

theorem mem_missing_iff {taken languages : List LanguageId} {language : LanguageId} :
    language ∈ missing taken languages ↔ language ∈ languages ∧ language ∉ taken := by
  constructor
  · intro h
    exact ⟨subset_of_missing taken h, (missing_spec taken languages).2 language h⟩
  · rintro ⟨h, hfree⟩
    exact (mem_missing taken h).resolve_left hfree

theorem missing_eq_nil_iff {taken languages : List LanguageId} :
    missing taken languages = [] ↔ ∀ l ∈ languages, l ∈ taken := by
  simp [List.eq_nil_iff_forall_not_mem, mem_missing_iff]

theorem firstRepeat_missing {seen taken : List LanguageId} (h : ∀ l ∈ seen, l ∈ taken)
    (languages : List LanguageId) (text : Text) :
    firstRepeat seen (((missing taken languages).map (Draft.copy · text)).map (·.language)) =
      none := by
  obtain ⟨hnodup, hfree⟩ := missing_spec taken languages
  rw [List.map_map, show (Draft.language ∘ (Draft.copy · text)) = id from rfl, List.map_id]
  exact firstRepeat_eq_none_iff.mpr ⟨hnodup, fun l hl hseen => hfree l hl (h l hseen)⟩

theorem any_follows_copies {languages : List LanguageId} (h : languages ≠ []) (text : Text) :
    (languages.map (Draft.copy · text)).any (·.follows) = true := by
  cases languages with
  | nil => contradiction
  | cons => rfl

/-- Adds copies of `text` in those of `languages` in which no record is listed, as one batch.
The answer is how many were added. -/
def fillGaps (item : ItemId) (records : List Record) (languages : List LanguageId) (text : Text)
    (actor : Actor) : Attempt Nat :=
  match missing (records.map (·.language)) languages with
  | [] => pure 0
  | gap :: gaps => do
      Flow.insert item ((gap :: gaps).map (Draft.copy · text)) actor
      return (gap :: gaps).length

section

variable {records : List Record} {languages : List LanguageId}

theorem run_fillGaps_of_full (h : missing (records.map (·.language)) languages = [])
    (item : ItemId) (text : Text) (actor : Actor) :
    (fillGaps item records languages text actor).run = .done (.ok 0) := by
  rw [fillGaps, h]
  rfl

theorem run_fillGaps_of_gap (h : missing (records.map (·.language)) languages ≠ [])
    (item : ItemId) (text : Text) (actor : Actor) :
    let gaps := missing (records.map (·.language)) languages
    (fillGaps item records languages text actor).run =
      .ask (.insert item (gaps.map (Draft.copy · text)) actor) fun reply =>
        .done (reply.map fun _ => gaps.length) := by
  rw [fillGaps]
  split
  · contradiction
  · rename_i gap gaps hmissing
    rw [hmissing, Flow.run_insert_bind]
    dsimp only
    congr 1
    funext reply
    cases reply <;> rfl

end

end Copies

end Polyglot
