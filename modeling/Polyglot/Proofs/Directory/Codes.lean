import Polyglot.Proofs.Engine.Agreement

/-!
Which language a code means. The directory keeps its languages in the order of their ids, but two of
them may have one code, since a language is replaced only by one with its id. Each look-up then takes
the first language that it does not pass over, and they pass over different ones: switching none,
the look-up by code those that are deleted, and the base language those that are not available.
-/

namespace Polyglot

namespace Directory

inductive Change where
  | upsert (l : Language)
  | setActive (code : String) (active : Bool)
  | setBaseCode (code : String)
deriving DecidableEq

def Change.apply : Change → Directory → Directory
  | .upsert l, d => d.upsert l
  | .setActive code active, d => (d.setActive code active).2
  | .setBaseCode code, d => d.setBaseCode code

def after (baseCode : String) (changes : List Change) : Directory :=
  changes.foldl (fun d c => c.apply d) (.withBase baseCode)

def Ordered (languages : List Language) : Prop := languages.Pairwise (·.id < ·.id)

section Order

variable {languages : List Language} {l m : Language} {d : Directory}

theorem mem_place : m ∈ place l languages ↔ m = l ∨ m ∈ languages := by
  induction languages with
  | nil => simp [place]
  | cons other rest ih =>
      rw [place]
      split
      · exact List.mem_cons
      · rw [List.mem_cons, ih, List.mem_cons, or_left_comm]

theorem ordered_place (h : Ordered languages) (hfree : ∀ m ∈ languages, m.id ≠ l.id) :
    Ordered (place l languages) := by
  induction languages with
  | nil => exact List.pairwise_singleton _ _
  | cons other rest ih =>
      obtain ⟨hother, hrest⟩ := List.pairwise_cons.mp h
      rw [place]
      split
      · rename_i hlt
        refine List.pairwise_cons.mpr ⟨fun m hm => ?_, h⟩
        rcases List.mem_cons.mp hm with rfl | hm
        · exact hlt
        · exact hlt.trans (hother m hm)
      · rename_i hge
        have hlt : other.id < l.id :=
          lt_of_le_of_ne (not_lt.mp hge) (hfree other List.mem_cons_self)
        refine List.pairwise_cons.mpr ⟨fun m hm => ?_, ih hrest fun m hm =>
          hfree m (List.mem_cons_of_mem other hm)⟩
        rcases mem_place.mp hm with rfl | hm
        · exact hlt
        · exact hother m hm

theorem map_id_switch (code : String) (active : Bool) (languages : List Language) :
    (switch code active languages).map (·.id) = languages.map (·.id) := by
  induction languages with
  | nil => rfl
  | cons l rest ih =>
      rw [switch]
      split
      · rfl
      · rw [List.map_cons, ih, List.map_cons]

theorem ordered_iff : Ordered languages ↔ (languages.map (·.id)).Pairwise (· < ·) :=
  List.pairwise_map.symm

theorem Change.ordered (h : Ordered d.languages) (c : Change) : Ordered (c.apply d).languages := by
  cases c with
  | upsert l =>
      refine ordered_place (h.filter _) fun m hm => ?_
      simpa using (List.mem_filter.mp hm).2
  | setActive code active =>
      rw [apply, Directory.setActive]
      split
      · rw [ordered_iff, map_id_switch, ← ordered_iff]
        exact h
      · exact h
  | setBaseCode code => exact h

theorem ordered_after (baseCode : String) (changes : List Change) :
    Ordered (after baseCode changes).languages := by
  have hfold : ∀ d : Directory, Ordered d.languages →
      Ordered (changes.foldl (fun d c => c.apply d) d).languages := by
    induction changes with
    | nil => exact fun d h => h
    | cons c rest ih => exact fun d h => ih (c.apply d) (c.ordered h)
  exact hfold _ .nil

theorem Ordered.find?_eq_some_iff (h : Ordered languages) {p : Language → Bool} :
    languages.find? p = some l ↔
      l ∈ languages ∧ p l = true ∧ ∀ m ∈ languages, p m = true → l.id ≤ m.id := by
  induction languages with
  | nil => simp
  | cons other rest ih =>
      obtain ⟨hother, hrest⟩ := List.pairwise_cons.mp h
      rw [List.forall_mem_cons, List.mem_cons]
      cases hp : p other with
      | false =>
          rw [List.find?_cons_of_neg (by simp [hp]), ih hrest]
          constructor
          · rintro ⟨hl, hpl, hleast⟩
            exact ⟨Or.inr hl, hpl, nofun, hleast⟩
          · rintro ⟨rfl | hl, hpl, -, hleast⟩
            · rw [hp] at hpl
              cases hpl
            · exact ⟨hl, hpl, hleast⟩
      | true =>
          rw [List.find?_cons_of_pos hp, Option.some_inj]
          constructor
          · rintro rfl
            exact ⟨Or.inl rfl, hp, fun _ => le_rfl, fun m hm _ => (hother m hm).le⟩
          · rintro ⟨rfl | hl, -, hleast, -⟩
            · rfl
            · exact absurd (hleast rfl) (not_le.mpr (hother l hl))

end Order

section Lookup

variable {d : Directory} {code : String} {active : Bool} {l : Language}

theorem byCode_eq_some_iff (h : Ordered d.languages) :
    d.byCode code = some l ↔ l ∈ d.languages ∧ l.code = code ∧ l.deleted = false ∧
      ∀ m ∈ d.languages, m.code = code → m.deleted = false → l.id ≤ m.id := by
  rw [byCode, h.find?_eq_some_iff]
  simp [and_assoc]

theorem base_eq_some_iff (h : Ordered d.languages) :
    d.base = some l ↔ l ∈ d.languages ∧ l.code = d.baseCode ∧ l.available = true ∧
      ∀ m ∈ d.languages, m.code = d.baseCode → m.available = true → l.id ≤ m.id := by
  rw [base, h.find?_eq_some_iff]
  simp [and_assoc]

theorem not_deleted_of_available (h : l.available = true) : l.deleted = false := by
  rw [Language.available, Bool.and_eq_true, Bool.not_eq_true'] at h
  exact h.2

theorem setActive_snd (hknown : (d.setActive code active).1 = true) :
    (d.setActive code active).2 = { d with languages := switch code active d.languages } := by
  rw [setActive] at hknown ⊢
  split
  · rfl
  · rename_i hunknown
    rw [if_neg hunknown] at hknown
    cases hknown

theorem find?_switch (code : String) (active : Bool) (languages : List Language) :
    (switch code active languages).find? (fun l => l.code = code && !l.deleted) =
      (languages.find? (·.code = code)).bind fun first =>
        if first.deleted then languages.find? fun l => l.code = code && !l.deleted
        else some { first with active } := by
  induction languages with
  | nil => rfl
  | cons l rest ih =>
      by_cases hcode : l.code = code
      · have hfirst : (l :: rest).find? (·.code = code) = some l :=
          List.find?_cons_of_pos (by simpa using hcode)
        rw [switch, if_pos hcode, hfirst, Option.bind_some]
        cases hdeleted : l.deleted <;> simp [hcode, hdeleted]
      · rw [switch, if_neg hcode, List.find?_cons_of_neg (by simp [hcode]), ih,
          List.find?_cons_of_neg (by simp [hcode]), List.find?_cons_of_neg (by simp [hcode])]

/-- A language that is found after its code was switched is as it was switched to be if no other
language of that code comes before it, or if it was so anyway. -/
theorem active_switched_iff (h : Ordered d.languages) (hknown : (d.setActive code active).1 = true)
    (hfound : (d.setActive code active).2.byCode code = some l) :
    l.active = active ↔ (∀ m ∈ d.languages, m.code = code → l.id ≤ m.id) ∨
      ∃ old, d.byCode code = some old ∧ old.active = active := by
  rw [setActive_snd hknown, byCode, find?_switch] at hfound
  obtain ⟨first, hfirst, hl⟩ := Option.bind_eq_some_iff.mp hfound
  split at hl
  case isTrue hdeleted =>
    -- The switch went to a deleted language, so the look-up finds what it found before.
    have hold : d.byCode code = some l := hl
    obtain ⟨hmem, hcode, hkept, -⟩ := (byCode_eq_some_iff h).mp hold
    rw [hold, or_iff_right]
    · simp
    · intro hleast
      have hsame : d.languages.find? (·.code = code) = some l :=
        h.find?_eq_some_iff.mpr ⟨hmem, decide_eq_true hcode, fun m hm hmcode =>
          hleast m hm (of_decide_eq_true hmcode)⟩
      obtain rfl := Option.some_inj.mp (hfirst.symm.trans hsame)
      rw [hdeleted] at hkept
      cases hkept
  case isFalse =>
    obtain ⟨-, -, hleast⟩ := h.find?_eq_some_iff.mp hfirst
    obtain rfl := Option.some_inj.mp hl
    exact iff_of_true rfl (Or.inl fun m hm hcode => hleast m hm (decide_eq_true hcode))

theorem byCode_base_iff (h : Ordered d.languages) (hbase : d.base = some l) :
    d.byCode d.baseCode = some l ↔
      ∀ m ∈ d.languages, m.code = d.baseCode → m.id < l.id → m.deleted = true := by
  obtain ⟨hmem, hcode, havailable, -⟩ := (base_eq_some_iff h).mp hbase
  rw [byCode_eq_some_iff h]
  constructor
  · rintro ⟨-, -, -, hleast⟩ m hm hmcode hlt
    by_contra hkept
    exact absurd (hleast m hm hmcode (Bool.eq_false_iff.mpr hkept)) (not_le.mpr hlt)
  · intro hearlier
    refine ⟨hmem, hcode, not_deleted_of_available havailable, fun m hm hmcode hkept => ?_⟩
    by_contra hlt
    rw [hearlier m hm hmcode (not_le.mp hlt)] at hkept
    cases hkept

theorem exists_of_mem_switch {languages : List Language} (hl : l ∈ switch code active languages) :
    ∃ old ∈ languages, old.id = l.id ∧ old.code = l.code := by
  induction languages with
  | nil => cases hl
  | cons first rest ih =>
      rw [switch] at hl
      split at hl
      · rcases List.mem_cons.mp hl with rfl | hl
        · exact ⟨first, List.mem_cons_self, rfl, rfl⟩
        · exact ⟨l, List.mem_cons_of_mem first hl, rfl, rfl⟩
      · rcases List.mem_cons.mp hl with rfl | hl
        · exact ⟨l, List.mem_cons_self, rfl, rfl⟩
        · obtain ⟨old, hold, hsame⟩ := ih hl
          exact ⟨old, List.mem_cons_of_mem first hold, hsame⟩

/-- The look-ups agree as long as no two languages have one code. -/
theorem agree_of_codes_nodup (h : Ordered d.languages) (hcodes : (d.languages.map (·.code)).Nodup) :
    (∀ code active l, (d.setActive code active).1 = true →
      (d.setActive code active).2.byCode code = some l → l.active = active) ∧
    ∀ l, d.base = some l → d.byCode d.baseCode = some l := by
  have hunique : ∀ l ∈ d.languages, ∀ m ∈ d.languages, l.code = m.code → l = m :=
    fun l hl m hm => List.inj_on_of_nodup_map hcodes hl hm
  constructor
  · intro code active l hknown hfound
    refine (active_switched_iff h hknown hfound).mpr (Or.inl fun m hm hmcode => ?_)
    have hcode : l.code = code := by
      have := List.find?_some hfound
      simp only [Bool.and_eq_true, decide_eq_true_eq] at this
      exact this.1
    have hswitched : l ∈ switch code active d.languages := by
      rw [setActive_snd hknown] at hfound
      exact List.mem_of_find?_eq_some hfound
    obtain ⟨old, hold, hid, holdCode⟩ := exists_of_mem_switch hswitched
    obtain rfl := hunique old hold m hm (holdCode.trans (hcode.trans hmcode.symm))
    exact hid.ge
  · intro l hbase
    obtain ⟨hmem, hcode, -, -⟩ := (base_eq_some_iff h).mp hbase
    refine (byCode_base_iff h hbase).mpr fun m hm hmcode hlt => ?_
    obtain rfl := hunique l hmem m hm (hcode.trans hmcode.symm)
    exact absurd hlt (lt_irrefl _)

end Lookup

end Directory

namespace Engine

variable {w : World} {code : String} {language base : Language}

theorem backfill_inactive (e : Engine) (hcode : w.directory.byCode code = some language)
    (hidle : language.available = false) :
    ((e.backfill code).run World.answer w).1.1.aborted = some .languageInactive := by
  have hlookup : World.answer (.directory (.byCode code)) w =
      (.ok (w.directory.byCode code), w) := rfl
  rw [backfill, Program.run_bind, Backfill.run, Program.run_bind, Backfill.resolve,
    Program.run_bind, Program.run_query, hlookup, hcode]
  simp [hidle]

/-- With the base available, a backfill of its code is turned away exactly if an earlier language of
that code is kept, for that one is then found, and it is not available. -/
theorem backfill_base_inactive_iff (h : Directory.Ordered w.directory.languages)
    (hbase : w.directory.base = some base) (e : Engine) :
    ((e.backfill w.directory.baseCode).run World.answer w).1.1.aborted = some .languageInactive ↔
      ∃ m ∈ w.directory.languages, m.code = w.directory.baseCode ∧ m.id < base.id ∧
        m.deleted = false := by
  obtain ⟨hmem, hbaseCode, havailable, hfirst⟩ := (Directory.base_eq_some_iff h).mp hbase
  by_cases hsame : w.directory.byCode w.directory.baseCode = some base
  · refine iff_of_false ?_ ?_
    · rw [backfill_not_aborted hsame havailable hbase]
      exact nofun
    · rintro ⟨m, hm, hmcode, hlt, hkept⟩
      rw [(Directory.byCode_base_iff h hbase).mp hsame m hm hmcode hlt] at hkept
      cases hkept
  · obtain ⟨m, hm, hmcode, hlt, hkept⟩ : ∃ m ∈ w.directory.languages,
        m.code = w.directory.baseCode ∧ m.id < base.id ∧ m.deleted = false := by
      by_contra hnone
      refine hsame ((Directory.byCode_base_iff h hbase).mpr fun m hm hmcode hlt => ?_)
      by_contra hkept
      exact hnone ⟨m, hm, hmcode, hlt, Bool.eq_false_iff.mpr hkept⟩
    obtain ⟨found, hfound⟩ : ∃ found, w.directory.byCode w.directory.baseCode = some found := by
      refine Option.isSome_iff_exists.mp (List.find?_isSome.mpr ⟨m, hm, ?_⟩)
      simp [hmcode, hkept]
    -- What the code means comes before the base language, so the base look-up passed over it.
    obtain ⟨hfoundMem, hfoundCode, -, hleast⟩ := (Directory.byCode_eq_some_iff h).mp hfound
    refine iff_of_true (backfill_inactive e hfound ?_) ⟨m, hm, hmcode, hlt, hkept⟩
    by_contra hidle
    exact absurd (hfirst found hfoundMem hfoundCode (Bool.eq_true_of_not_eq_false hidle))
      (not_le.mpr ((hleast m hm hmcode hkept).trans_lt hlt))

end Engine

namespace Directory

/-- When the look-ups of a directory agree on what a code means. -/
structure Lookups (d : Directory) : Prop where
  ordered : Ordered d.languages
  switched : ∀ code active l, (d.setActive code active).1 = true →
    (d.setActive code active).2.byCode code = some l →
    (l.active = active ↔ (∀ m ∈ d.languages, m.code = code → l.id ≤ m.id) ∨
      ∃ old, d.byCode code = some old ∧ old.active = active)
  base : ∀ l, d.base = some l → (d.byCode d.baseCode = some l ↔
    ∀ m ∈ d.languages, m.code = d.baseCode → m.id < l.id → m.deleted = true)
  backfilled : ∀ (e : Engine) (w : World) (l : Language), w.directory = d → d.base = some l →
    (((e.backfill d.baseCode).run World.answer w).1.1.aborted = some .languageInactive ↔
      ∃ m ∈ d.languages, m.code = d.baseCode ∧ m.id < l.id ∧ m.deleted = false)

theorem lookups_after (baseCode : String) (changes : List Change) :
    (after baseCode changes).Lookups where
  ordered := ordered_after baseCode changes
  switched _ _ _ hknown hfound := active_switched_iff (ordered_after baseCode changes) hknown hfound
  base _ hbase := byCode_base_iff (ordered_after baseCode changes) hbase
  backfilled e w _ hdirectory hbase := by
    have h := ordered_after baseCode changes
    rw [← hdirectory] at h hbase ⊢
    exact Engine.backfill_base_inactive_iff h hbase e

/-- A deleted language takes the switch meant for the one that has its code now, and one that is
switched off hides an available one of its code. -/
theorem twin_codes_disagree :
    let english := after "ko" [.upsert ⟨1, "en", "English", true, true⟩,
      .upsert ⟨2, "en", "English again", true, false⟩]
    let korean := after "ko" [.upsert ⟨3, "ko", "Korean", false, false⟩,
      .upsert ⟨4, "ko", "Korean again", true, false⟩]
    (english.setActive "en" false).1 = true ∧
      (english.setActive "en" false).2.byCode "en" =
        some ⟨2, "en", "English again", true, false⟩ ∧
      korean.base = some ⟨4, "ko", "Korean again", true, false⟩ ∧
      korean.byCode korean.baseCode = some ⟨3, "ko", "Korean", false, false⟩ := by
  decide

end Directory

end Polyglot
