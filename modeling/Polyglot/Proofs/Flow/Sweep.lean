import Polyglot.Flow.Copies
import Polyglot.Proofs.Program.Transcript
import Polyglot.Proofs.Store.Session

namespace Polyglot

namespace Tally

@[simp] theorem unchanged_add (a b : Tally) : (a + b).unchanged = a.unchanged + b.unchanged := rfl

@[simp] theorem skippedPinned_add (a b : Tally) :
    (a + b).skippedPinned = a.skippedPinned + b.skippedPinned := rfl

theorem total_add (a b : Tally) : (a + b).total = a.total + b.total := by
  simp only [total, synced_add, unchanged_add, skippedPinned_add, failed_add]
  omega

theorem total_ofReply (reply : Except Error Bool) : (ofReply reply).total = 1 := by
  rcases reply with e | _ | _ <;> rfl

end Tally

namespace Told

def overwrote : Told → Bool
  | ⟨.overwriteCopy .., .ok true⟩ => true
  | _ => false

/-- A record was no copy any more and was left as it was. -/
def leftAlone : Told → Bool
  | ⟨.overwriteCopy .., .ok false⟩ => true
  | _ => false

def misfired : Told → Bool
  | ⟨.overwriteCopy .., .error _⟩ => true
  | _ => false

end Told

namespace Copies

/-- The record follows the base text, and is not itself in the base language. -/
def isCopy (base : LanguageId) (r : Record) : Bool := r.follows && r.language ≠ base

/-- The calls of a sweep over the copies in a list of records, and the counts that come of it. -/
structure Accounted (base : LanguageId) (text : Text) (actor : Actor) (records : List Record)
    (calls : List Told) (tally : Tally) : Prop where
  writes : calls.map (·.question) = (records.filter fun r => isCopy base r && r.text ≠ text).map
    fun r => .overwriteCopy r.id text actor
  synced : tally.synced = calls.countP (·.overwrote)
  skippedPinned : tally.skippedPinned = calls.countP (·.leftAlone)
  failed : tally.failed = calls.countP (·.misfired)
  unchanged : tally.unchanged = records.countP fun r => isCopy base r && r.text = text
  total : tally.total = records.countP (isCopy base)

variable {base : LanguageId} {text : Text} {actor : Actor} {records : List Record} {r : Record}
  {calls : List Told} {tally : Tally}

namespace Accounted

theorem nil : Accounted base text actor [] [] .zero := ⟨rfl, rfl, rfl, rfl, rfl, rfl⟩

theorem pass (h : Accounted base text actor records calls tally) (hr : isCopy base r = false) :
    Accounted base text actor (r :: records) calls tally := by
  constructor
  case writes => simpa [hr] using h.writes
  case synced => exact h.synced
  case skippedPinned => exact h.skippedPinned
  case failed => exact h.failed
  case unchanged => simpa [hr] using h.unchanged
  case total => simpa [hr] using h.total

theorem equal (h : Accounted base text actor records calls tally) (hr : isCopy base r = true)
    (htext : r.text = text) :
    Accounted base text actor (r :: records) calls (⟨0, 1, 0, 0⟩ + tally) := by
  constructor
  case writes => simpa [htext] using h.writes
  case synced => simpa using h.synced
  case skippedPinned => simpa using h.skippedPinned
  case failed => simpa using h.failed
  case unchanged => simp [hr, htext, h.unchanged, Nat.add_comm]
  case total =>
    rw [Tally.total_add, List.countP_cons_of_pos hr, h.total, Nat.add_comm]
    rfl

theorem write (h : Accounted base text actor records calls tally) (hr : isCopy base r = true)
    (htext : r.text ≠ text) (reply : Except Error Bool) :
    Accounted base text actor (r :: records) (⟨.overwriteCopy r.id text actor, reply⟩ :: calls)
      (Tally.ofReply reply + tally) := by
  constructor
  case writes => simpa [hr, htext] using h.writes
  case synced =>
    rw [Tally.synced_add, h.synced, List.countP_cons, Nat.add_comm]
    rcases reply with e | _ | _ <;> rfl
  case skippedPinned =>
    rw [Tally.skippedPinned_add, h.skippedPinned, List.countP_cons, Nat.add_comm]
    rcases reply with e | _ | _ <;> rfl
  case failed =>
    rw [Tally.failed_add, h.failed, List.countP_cons, Nat.add_comm]
    rcases reply with e | _ | _ <;> rfl
  case unchanged =>
    have hnone : (Tally.ofReply reply).unchanged = 0 := by rcases reply with e | _ | _ <;> rfl
    rw [Tally.unchanged_add, hnone, Nat.zero_add, h.unchanged, List.countP_cons_of_neg]
    simp [htext]
  case total =>
    rw [Tally.total_add, Tally.total_ofReply, List.countP_cons_of_pos hr, h.total, Nat.add_comm]

end Accounted

theorem among_eq_filter (records : List Record) (base : LanguageId) :
    among records base = records.filter (isCopy base) := rfl

theorem converge_cons_of_copy (hr : isCopy base r = true) :
    converge (r :: records) base text actor = do
      let first ← overwrite text actor r
      let others ← converge records base text actor
      return first + others := by
  rw [converge, among_eq_filter, List.filter_cons_of_pos hr]
  rfl

theorem converge_cons_of_not_copy (hr : isCopy base r = false) :
    converge (r :: records) base text actor = converge records base text actor := by
  rw [converge, among_eq_filter, List.filter_cons_of_neg (Bool.eq_false_iff.mp hr)]
  rfl

/-- Against any store, which may answer each write as it likes and whose records may be others by
now than those in the list, a sweep accounts for every copy in the list. -/
theorem converge_accounts {σ : Type} (answer : (q : Query) → σ → q.Reply × σ)
    (records : List Record) (base : LanguageId) (text : Text) (actor : Actor) (s : σ) :
    Accounted base text actor records
      ((converge records base text actor).transcript answer s)
      ((converge records base text actor).run answer s).1 := by
  -- The rest of the sweep starts from whatever state the first write left, so that is generalized.
  induction records generalizing s with
  | nil => exact .nil
  | cons r rest ih =>
      cases hr : isCopy base r with
      | false =>
          rw [converge_cons_of_not_copy hr]
          exact (ih s).pass hr
      | true =>
          rw [converge_cons_of_copy hr, overwrite]
          split
          · rename_i htext
            simpa using (ih s).equal hr htext
          · rename_i htext
            simpa using (ih _).write hr htext _

end Copies

end Polyglot
