namespace Polyglot

structure Tally where
  synced : Nat
  unchanged : Nat
  /-- Pinned between the reading and the write. -/
  skippedPinned : Nat
  failed : Nat
deriving DecidableEq

namespace Tally

def zero : Tally := ⟨0, 0, 0, 0⟩

def add (a b : Tally) : Tally :=
  ⟨a.synced + b.synced, a.unchanged + b.unchanged, a.skippedPinned + b.skippedPinned,
    a.failed + b.failed⟩

instance : Add Tally := ⟨add⟩

@[simp] theorem synced_add (a b : Tally) : (a + b).synced = a.synced + b.synced := rfl

@[simp] theorem failed_add (a b : Tally) : (a + b).failed = a.failed + b.failed := rfl

def total (t : Tally) : Nat := t.synced + t.unchanged + t.skippedPinned + t.failed

/-- The counts as words of 64 bits: one past the top of its word starts at zero again. -/
def wrap (t : Tally) : Tally :=
  ⟨t.synced % UInt64.size, t.unchanged % UInt64.size, t.skippedPinned % UInt64.size,
    t.failed % UInt64.size⟩

/-- The sums of a list from its front, one per element, each in words of 64 bits. -/
def runningSums (tallies : List Tally) : List Tally :=
  (tallies.foldl (fun (sums, sum) t => (sums ++ [(sum + t).wrap], (sum + t).wrap)) ([], zero)).1

end Tally

end Polyglot
