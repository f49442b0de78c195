/-!
Finite maps kept in the order of their keys. Two maps with the same look-ups are equal, so
equality of maps is equality of contents, whatever the order of insertion.
-/

namespace Polyglot

structure SortedMap (κ ν : Type) [LT κ] where
  entries : List (κ × ν)
  sorted : entries.Pairwise fun a b => a.1 < b.1

namespace SortedMap

section Basic

variable {κ ν : Type} [LT κ]

theorem entries_injective {m n : SortedMap κ ν} (h : m.entries = n.entries) : m = n := by
  cases m; cases n; cases h; rfl

instance [DecidableEq κ] [DecidableEq ν] : DecidableEq (SortedMap κ ν) := fun m n =>
  decidable_of_iff (m.entries = n.entries) ⟨entries_injective, fun h => h ▸ rfl⟩

def empty : SortedMap κ ν := ⟨[], .nil⟩

instance : Inhabited (SortedMap κ ν) := ⟨empty⟩

def isEmpty (m : SortedMap κ ν) : Bool := m.entries.isEmpty

def keys (m : SortedMap κ ν) : List κ := m.entries.map (·.1)

def values (m : SortedMap κ ν) : List ν := m.entries.map (·.2)

def get? [BEq κ] (m : SortedMap κ ν) (k : κ) : Option ν := m.entries.lookup k

def contains [BEq κ] (m : SortedMap κ ν) (k : κ) : Bool := (m.get? k).isSome

def erase [BEq κ] (m : SortedMap κ ν) (k : κ) : SortedMap κ ν :=
  ⟨m.entries.filter fun e => !(e.1 == k), m.sorted.filter _⟩

end Basic

section Insert

variable {κ ν : Type} [LT κ] [DecidableLT κ]

/-- Places an entry before the first greater key, in the place of an equal one. -/
def insertEntry (k : κ) (v : ν) : List (κ × ν) → List (κ × ν)
  | [] => [(k, v)]
  | e :: rest =>
      if k < e.1 then (k, v) :: e :: rest
      else if e.1 < k then e :: insertEntry k v rest
      else (k, v) :: rest

theorem mem_insertEntry {k : κ} {v : ν} {l : List (κ × ν)} {e : κ × ν}
    (h : e ∈ insertEntry k v l) : e = (k, v) ∨ e ∈ l := by
  induction l with
  | nil => simpa [insertEntry] using h
  | cons d rest ih =>
      unfold insertEntry at h
      split at h
      · simpa using h
      · split at h
        · rcases List.mem_cons.mp h with rfl | h
          · simp
          · rcases ih h with rfl | h <;> simp [*]
        · rcases List.mem_cons.mp h with rfl | h <;> simp [*]

variable [LE κ] [Std.IsLinearOrder κ] [Std.LawfulOrderLT κ]

theorem sorted_insertEntry (k : κ) (v : ν) {l : List (κ × ν)}
    (h : l.Pairwise fun a b => a.1 < b.1) :
    (insertEntry k v l).Pairwise fun a b => a.1 < b.1 := by
  induction l with
  | nil => simp [insertEntry]
  | cons d rest ih =>
      obtain ⟨hd, hrest⟩ := List.pairwise_cons.mp h
      unfold insertEntry
      split
      · rename_i hlt
        refine List.pairwise_cons.mpr ⟨fun e he => ?_, h⟩
        rcases List.mem_cons.mp he with rfl | he
        · exact hlt
        · exact Std.lt_trans hlt (hd e he)
      · rename_i hnlt
        split
        · rename_i hgt
          refine List.pairwise_cons.mpr ⟨fun e he => ?_, ih hrest⟩
          rcases mem_insertEntry he with rfl | he
          · exact hgt
          · exact hd e he
        · rename_i hngt
          have heq : k = d.1 := by
            rcases Std.lt_trichotomy k d.1 with h | h | h
            · exact absurd h hnlt
            · exact h
            · exact absurd h hngt
          exact List.pairwise_cons.mpr ⟨fun e he => heq ▸ hd e he, hrest⟩

def insert (m : SortedMap κ ν) (k : κ) (v : ν) : SortedMap κ ν :=
  ⟨insertEntry k v m.entries, sorted_insertEntry k v m.sorted⟩

/-- The map of a list of pairs; of two pairs with one key the later counts. -/
def ofList (pairs : List (κ × ν)) : SortedMap κ ν :=
  pairs.foldl (fun m e => m.insert e.1 e.2) empty

end Insert

theorem lookup_cons_eq {κ ν : Type} [DecidableEq κ] (j : κ) (e : κ × ν) (l : List (κ × ν)) :
    (e :: l).lookup j = if j = e.1 then some e.2 else l.lookup j := by
  obtain ⟨k, v⟩ := e
  have hcons : ((k, v) :: l).lookup j =
      match j == k with
      | true => some v
      | false => l.lookup j := rfl
  rw [hcons]
  by_cases h : j = k
  · simp [h]
  · simp [beq_eq_false_iff_ne.mpr h, h]

theorem lookup_filter_ne {κ ν : Type} [DecidableEq κ] (k j : κ) (l : List (κ × ν)) :
    (l.filter fun e => !(e.1 == k)).lookup j = if j = k then none else l.lookup j := by
  induction l with
  | nil => simp
  | cons d rest ih =>
      by_cases hd : d.1 = k
      · rw [List.filter_cons_of_neg (by simp [hd]), ih, lookup_cons_eq, hd]
        split <;> rfl
      · rw [List.filter_cons_of_pos (by simp [hd]), lookup_cons_eq, lookup_cons_eq, ih]
        by_cases hj : j = d.1
        · subst hj
          simp [hd]
        · simp [hj]

@[simp] theorem get?_erase {κ ν : Type} [LT κ] [DecidableEq κ] (m : SortedMap κ ν) (k j : κ) :
    (m.erase k).get? j = if j = k then none else m.get? j :=
  lookup_filter_ne k j m.entries

@[simp] theorem get?_empty {κ ν : Type} [LT κ] [BEq κ] (j : κ) :
    (empty : SortedMap κ ν).get? j = none := rfl

section Lookup

variable {κ ν : Type} [LT κ] [DecidableLT κ] [DecidableEq κ] [LE κ] [Std.IsLinearOrder κ]
  [Std.LawfulOrderLT κ]

theorem lookup_insertEntry (k j : κ) (v : ν) (l : List (κ × ν)) :
    (insertEntry k v l).lookup j = if j = k then some v else l.lookup j := by
  induction l with
  | nil => simp [insertEntry, lookup_cons_eq]
  | cons d rest ih =>
      unfold insertEntry
      split
      · simp [lookup_cons_eq]
      · rename_i hnlt
        split
        · rename_i hgt
          by_cases hd : j = d.1
          · subst hd
            have : d.1 ≠ k := fun h => Std.lt_irrefl (h ▸ hgt : k < k)
            simp [lookup_cons_eq, this]
          · simp [lookup_cons_eq, hd, ih]
        · rename_i hngt
          have heq : k = d.1 := by
            rcases Std.lt_trichotomy k d.1 with h | h | h
            · exact absurd h hnlt
            · exact h
            · exact absurd h hngt
          by_cases h : j = d.1 <;> simp [lookup_cons_eq, heq, h]

@[simp] theorem get?_insert (m : SortedMap κ ν) (k j : κ) (v : ν) :
    (m.insert k v).get? j = if j = k then some v else m.get? j :=
  lookup_insertEntry k j v m.entries

end Lookup

theorem nodup_keys {κ ν : Type} [LT κ] [LE κ] [Std.LawfulOrderLT κ] (m : SortedMap κ ν) :
    m.keys.Nodup := by
  refine List.Pairwise.map Prod.fst (fun e e' hlt heq => ?_) m.sorted
  rw [heq] at hlt
  exact Std.lt_irrefl hlt

section Members

variable {κ ν : Type} [LT κ] [DecidableEq κ] [LE κ] [Std.LawfulOrderLT κ]

theorem lookup_eq_some_iff {l : List (κ × ν)} (h : l.Pairwise fun a b => a.1 < b.1) {k : κ}
    {v : ν} : l.lookup k = some v ↔ (k, v) ∈ l := by
  induction l with
  | nil => simp
  | cons e rest ih =>
      obtain ⟨hfirst, hrest⟩ := List.pairwise_cons.mp h
      rw [lookup_cons_eq, List.mem_cons]
      by_cases hk : k = e.1
      · have hout : (k, v) ∉ rest := by
          intro hmem
          have hlt := hfirst (k, v) hmem
          rw [← hk] at hlt
          exact Std.lt_irrefl hlt
        rw [if_pos hk, Option.some_inj, or_iff_left hout, Prod.ext_iff]
        simp [hk, eq_comm]
      · rw [if_neg hk, ih hrest]
        refine (or_iff_right fun heq => hk ?_).symm
        rw [← heq]

theorem get?_eq_some_iff (m : SortedMap κ ν) {k : κ} {v : ν} :
    m.get? k = some v ↔ (k, v) ∈ m.entries :=
  lookup_eq_some_iff m.sorted

theorem mem_keys {m : SortedMap κ ν} {k : κ} : k ∈ m.keys ↔ (m.get? k).isSome = true := by
  simp [keys, Option.isSome_iff_exists, get?_eq_some_iff]

theorem ext_get? {m n : SortedMap κ ν} (h : ∀ k, m.get? k = n.get? k) : m = n := by
  have hnodup (m : SortedMap κ ν) : m.entries.Nodup := by
    refine List.Pairwise.imp (fun hlt heq => ?_) m.sorted
    rw [heq] at hlt
    exact Std.lt_irrefl hlt
  have hmem (e : κ × ν) : e ∈ m.entries ↔ e ∈ n.entries := by
    rw [← get?_eq_some_iff, ← get?_eq_some_iff, h]
  have hperm := (List.perm_ext_iff_of_nodup (hnodup m) (hnodup n)).mpr hmem
  refine entries_injective (hperm.eq_of_pairwise ?_ m.sorted n.sorted)
  intro a b _ _ hab hba
  exact absurd hba (Std.not_gt_of_lt hab)

theorem map_values {α : Type} (m : SortedMap κ ν) {f : ν → α} {g : κ → α}
    (h : ∀ k v, m.get? k = some v → f v = g k) : m.values.map f = m.keys.map g := by
  rw [values, keys, List.map_map, List.map_map]
  exact List.map_congr_left fun e he => h e.1 e.2 (m.get?_eq_some_iff.mpr he)

end Members

end SortedMap

end Polyglot
