import Mathlib.Data.List.Forall2
import Polyglot.Proofs.Engine.Isolation
import Polyglot.Setup.Config
import Polyglot.Setup.Schedule

namespace Polyglot

namespace Cadence

/-- The intervals that have a cadence. -/
def Fits (minutes : Nat) : Prop :=
  0 < minutes ∧ minutes ≤ 1440 ∧ (minutes < 60 ∨ 60 ∣ minutes)

instance : DecidablePred Fits := fun _ => inferInstanceAs (Decidable (_ ∧ _ ∧ _))

theorem ofInterval_eq_ok_iff {minutes : Nat} :
    (∃ cadence, ofInterval minutes = .ok cadence) ↔ Fits minutes := by
  rw [ofInterval, Fits, Nat.dvd_iff_mod_eq_zero]
  split_ifs with hzero hhour hday hover heven
  · exact iff_of_false (by simp) (by omega)
  · exact iff_of_true ⟨_, rfl⟩ (by omega)
  · exact iff_of_true ⟨_, rfl⟩ (by omega)
  · exact iff_of_false (by simp) (by omega)
  · exact iff_of_true ⟨_, rfl⟩ (by omega)
  · exact iff_of_false (by simp) (by omega)

theorem not_fits_of_error {minutes : Nat} {err : SetupError} (h : ofInterval minutes = .error err) :
    ¬ Fits minutes := by
  intro hfits
  obtain ⟨cadence, hok⟩ := ofInterval_eq_ok_iff.mpr hfits
  rw [hok] at h
  cases h

end Cadence

namespace Registry

theorem foldlM_register {entries : List (String × Nat)} {r : Registry}
    (h : (r.names ++ entries.map (·.1)).Nodup) :
    entries.foldlM (fun r e => r.register e.1 e.2) r =
      (.ok ⟨r.entries ++ entries⟩ : Except Error Registry) := by
  induction entries generalizing r with
  | nil => rw [List.append_nil]; rfl
  | cons e rest ih =>
      have hfree : r.has e.1 ≠ true := by
        intro hhas
        have hname := has_iff_mem_names.mp hhas
        exact (List.nodup_append.mp h).2.2 _ hname _ List.mem_cons_self rfl
      have hrest : (names ⟨r.entries ++ [e]⟩ ++ rest.map (·.1)).Nodup := by
        rwa [names, List.map_append, List.append_assoc]
      rw [List.foldlM_cons, register, if_neg hfree]
      exact (ih hrest).trans (by rw [List.append_assoc]; rfl)

theorem ofEntries_of_nodup {entries : List (String × Nat)} (h : (entries.map (·.1)).Nodup) :
    ofEntries entries = .ok ⟨entries⟩ :=
  foldlM_register (r := empty) h

/-- A schedule has a job for every content type, or it fails for the first interval that has no
cadence. -/
theorem schedule_cases (entries : List (String × Nat)) :
    (∃ jobs, schedule ⟨entries⟩ = .ok jobs ∧
      List.Forall₂ (fun e job => job.1 = e.1 ∧ Cadence.ofInterval e.2 = .ok job.2) entries jobs) ∨
    ∃ before e after err, entries = before ++ e :: after ∧ (∀ e' ∈ before, Cadence.Fits e'.2) ∧
      Cadence.ofInterval e.2 = .error err ∧ schedule ⟨entries⟩ = .error err := by
  induction entries with
  | nil => exact Or.inl ⟨[], rfl, .nil⟩
  | cons e rest ih =>
      simp only [schedule, List.mapM_cons] at ih ⊢
      cases hcadence : Cadence.ofInterval e.2 with
      | error err => exact Or.inr ⟨[], e, rest, err, rfl, by simp, hcadence, rfl⟩
      | ok cadence =>
          rcases ih with ⟨jobs, hjobs, hall⟩ | ⟨before, e', after, err, rfl, hfits, herr, hfails⟩
          · rw [hjobs]
            exact Or.inl ⟨(e.1, cadence) :: jobs, rfl, .cons ⟨rfl, hcadence⟩ hall⟩
          · rw [hfails]
            have hfit : Cadence.Fits e.2 := Cadence.ofInterval_eq_ok_iff.mp ⟨cadence, hcadence⟩
            exact Or.inr ⟨e :: before, e', after, err, rfl, List.forall_mem_cons.mpr ⟨hfit, hfits⟩,
              herr, rfl⟩

end Registry

theorem SetupError.bind_eq_ok_iff {α β : Type} {x : Except SetupError α}
    {f : α → Except SetupError β} {b : β} :
    (x >>= f) = .ok b ↔ ∃ a, x = .ok a ∧ f a = .ok b := by
  cases x with
  | error err => exact iff_of_false (fun h => by cases h) (by simp)
  | ok a => exact ⟨fun h => ⟨a, rfl, h⟩, fun ⟨a', ha, h⟩ => by cases ha; exact h⟩

theorem Layout.checkAll_eq_ok_iff {layouts : List Layout} {seen : List String} :
    checkAll seen layouts = .ok () ↔ (∀ l ∈ layouts, l.validate = .ok ()) ∧
      (layouts.map (·.name)).Nodup ∧ ∀ l ∈ layouts, l.name ∉ seen := by
  induction layouts generalizing seen with
  | nil => exact iff_of_true rfl (by simp)
  | cons l rest ih =>
      rw [checkAll, SetupError.bind_eq_ok_iff, List.map_cons, List.nodup_cons,
        List.forall_mem_cons, List.forall_mem_cons]
      constructor
      · rintro ⟨_, hvalid, hrest⟩
        split_ifs at hrest with hseen
        obtain ⟨hvalids, hnodup, hfresh⟩ := ih.mp hrest
        refine ⟨⟨hvalid, hvalids⟩, ⟨fun hmem => ?_, hnodup⟩, hseen, fun other hother hmem => ?_⟩
        · obtain ⟨other, hother, hname⟩ := List.mem_map.mp hmem
          exact hfresh other hother (hname ▸ List.mem_cons_self)
        · exact hfresh other hother (List.mem_cons_of_mem _ hmem)
      · rintro ⟨⟨hvalid, hvalids⟩, ⟨hout, hnodup⟩, hseen, hfresh⟩
        refine ⟨(), hvalid, ?_⟩
        rw [if_neg hseen]
        refine ih.mpr ⟨hvalids, hnodup, fun other hother hmem => ?_⟩
        rcases List.mem_cons.mp hmem with hname | hmem
        · exact hout (hname ▸ List.mem_map_of_mem hother)
        · exact hfresh other hother hmem

theorem Layout.checkAll_of_load {read : String → Option String} {path : Option String}
    {layouts : List Layout} (h : load read path = .ok layouts) : checkAll [] layouts = .ok () := by
  have hchecked : ∀ {listed : Except SetupError (List Layout)},
      (do let ls ← listed; checkAll [] ls; return ls) = Except.ok layouts →
        checkAll [] layouts = .ok () := by
    intro listed h
    obtain ⟨ls, -, h⟩ := SetupError.bind_eq_ok_iff.mp h
    obtain ⟨_, hcheck, h⟩ := SetupError.bind_eq_ok_iff.mp h
    cases h
    exact hcheck
  simp only [load] at h
  split at h
  · exact hchecked h
  · split at h
    · exact hchecked h
    · split at h
      · exact hchecked h
      · exact hchecked h

namespace Config

variable {env read : String → Option String} {c : Config} {layouts : List Layout}

theorem interval_of_ofEnvironment (h : ofEnvironment env = .ok c) :
    1 ≤ c.interval ∧ c.interval ≤ 1440 := by
  obtain ⟨c', -, h⟩ := SetupError.bind_eq_ok_iff.mp h
  obtain ⟨_, hvalid, h⟩ := SetupError.bind_eq_ok_iff.mp h
  cases h
  rw [validate] at hvalid
  split_ifs at hvalid with hblank hrange
  exact hrange

theorem nodup_names_of_layouts (h : c.layouts read = .ok layouts) :
    (layouts.map (·.name)).Nodup :=
  (Layout.checkAll_eq_ok_iff.mp (Layout.checkAll_of_load h)).2.1

theorem map_fst_entries (c : Config) (layouts : List Layout) :
    (c.entries layouts).map (·.1) = layouts.map (·.name) := by
  rw [entries, List.map_map]
  rfl

/-- The interval of a content type fits, by what the check of the usual interval leaves open. -/
theorem fits_intervalFor_iff (h : ofEnvironment env = .ok c) (l : Layout) :
    Cadence.Fits (c.intervalFor l) ↔
      (l.interval = none → c.interval < 60 ∨ 60 ∣ c.interval) ∧
        ∀ minutes, l.interval = some minutes → Cadence.Fits minutes := by
  obtain ⟨hlow, hhigh⟩ := interval_of_ofEnvironment h
  cases hinterval : l.interval with
  | none =>
      rw [intervalFor, hinterval, Option.getD_none, Cadence.Fits]
      constructor
      · rintro ⟨-, -, heven⟩
        exact ⟨fun _ => heven, by simp⟩
      · rintro ⟨heven, -⟩
        exact ⟨hlow, hhigh, heven rfl⟩
  | some minutes => simp [intervalFor, hinterval]

theorem schedule_entries_cases (c : Config) (layouts : List Layout) :
    (∃ jobs, Registry.schedule ⟨c.entries layouts⟩ = .ok jobs ∧
      List.Forall₂ (fun l job => job.1 = l.name ∧
        Cadence.ofInterval (c.intervalFor l) = .ok job.2) layouts jobs) ∨
    ∃ before l after err, layouts = before ++ l :: after ∧
      (∀ l' ∈ before, Cadence.Fits (c.intervalFor l')) ∧
      Cadence.ofInterval (c.intervalFor l) = .error err ∧
      Registry.schedule ⟨c.entries layouts⟩ = .error err := by
  rcases Registry.schedule_cases (c.entries layouts) with
    ⟨jobs, hjobs, hall⟩ | ⟨before, e, after, err, hentries, hfits, herr, hfails⟩
  · exact Or.inl ⟨jobs, hjobs, List.forall₂_map_left_iff.mp hall⟩
  · obtain ⟨before', rest, hlayouts, rfl, hrest⟩ := List.map_eq_append_iff.mp hentries
    obtain ⟨l, after', rfl, rfl, -⟩ := List.map_eq_cons_iff.mp hrest
    refine Or.inr ⟨before', l, after', err, hlayouts, fun l' hl' => ?_, herr, hfails⟩
    exact hfits (l'.name, c.intervalFor l') (List.mem_map_of_mem hl')

/-- A configuration that loads registers its content types. It schedules them all exactly if no
content type takes a usual interval that is over an hour and uneven, and none has an interval of
its own without a cadence; otherwise the first that does stops it. -/
theorem schedule_of_loads (hc : ofEnvironment env = .ok c) (hlayouts : c.layouts read = .ok layouts) :
    ∃ r, Registry.ofEntries (c.entries layouts) = .ok r ∧
      ((∃ jobs, r.schedule = .ok jobs ∧
          List.Forall₂ (fun l job => job.1 = l.name ∧
            Cadence.ofInterval (c.intervalFor l) = .ok job.2) layouts jobs) ↔
        ∀ l ∈ layouts, (l.interval = none → c.interval < 60 ∨ 60 ∣ c.interval) ∧
          ∀ minutes, l.interval = some minutes → Cadence.Fits minutes) ∧
      ∀ err, r.schedule = .error err →
        ∃ before l after, layouts = before ++ l :: after ∧
          (∀ l' ∈ before, Cadence.Fits (c.intervalFor l')) ∧
          Cadence.ofInterval (c.intervalFor l) = .error err := by
  refine ⟨⟨c.entries layouts⟩, Registry.ofEntries_of_nodup ?_, ?_⟩
  · rw [map_fst_entries]
    exact nodup_names_of_layouts hlayouts
  simp only [← fits_intervalFor_iff hc]
  rcases schedule_entries_cases c layouts with
    ⟨jobs, hjobs, hall⟩ | ⟨before, l, after, err, hlist, hfits, herr, hfails⟩
  · rw [hjobs]
    constructor
    · refine iff_of_true ⟨jobs, rfl, hall⟩ ?_
      have hfits : List.Forall₂ (fun l _ => Cadence.Fits (c.intervalFor l) ∧ True) layouts jobs :=
        hall.imp fun l job h => ⟨Cadence.ofInterval_eq_ok_iff.mp ⟨job.2, h.2⟩, trivial⟩
      exact ((List.forall₂_and_left _ _).mp hfits).1
    · rintro err ⟨⟩
  · rw [hfails]
    constructor
    · refine iff_of_false (by rintro ⟨jobs, ⟨⟩, -⟩) fun hall => ?_
      have hmem : l ∈ layouts := hlist ▸ List.mem_append_right _ List.mem_cons_self
      exact Cadence.not_fits_of_error herr (hall l hmem)
    · rintro err' ⟨⟩
      exact ⟨before, l, after, hlist, hfits, herr⟩

end Config

namespace Deployment

def environment (interval : String) (file : Option String) : String → Option String
  | "DATABASE_URL" => some "postgres://localhost/content"
  | "RECONCILE_INTERVAL_MINUTES" => some interval
  | "CONTENT_TYPES_FILE" => file
  | _ => none

def config (interval : Nat) (file : Option String) : Config :=
  ⟨"postgres://localhost/content", "ko", interval, file, "system", none, 8080⟩

def files (own : String) : String → Option String
  | "types.json" => some ("[\x7b\"name\":\"page\",\"item_table\":\"pages\"," ++
      "\"translation_table\":\"page_translations\",\"foreign_key\":\"page_id\"," ++
      "\"text_fields\":[\"title\"],\"reconcile_interval_minutes\":" ++ own ++ "\x7d]")
  | _ => none

def pages (own : Nat) : List Layout :=
  [⟨"page", "pages", "page_translations", "page_id", ["title"], some own⟩]

end Deployment

open Deployment in
/-- An uneven usual interval is no matter where every content type has its own. -/
theorem Config.schedule_of_own_interval :
    ofEnvironment (environment "90" (some "types.json")) = .ok (config 90 (some "types.json")) ∧
      (config 90 (some "types.json")).layouts (files "720") = .ok (pages 720) ∧
      ∃ r, Registry.ofEntries ((config 90 (some "types.json")).entries (pages 720)) = .ok r ∧
        r.schedule = .ok [("page", .hours 12)] := by
  have hc : ofEnvironment (environment "90" (some "types.json")) =
      .ok (config 90 (some "types.json")) := by decide +kernel
  have hlayouts : (config 90 (some "types.json")).layouts (files "720") = .ok (pages 720) := by
    decide +kernel
  obtain ⟨r, hr, hschedule, -⟩ := schedule_of_loads hc hlayouts
  obtain ⟨jobs, hjobs, hall⟩ := hschedule.mpr (by decide)
  refine ⟨hc, hlayouts, r, hr, hjobs.trans ?_⟩
  obtain ⟨⟨name, cadence⟩, _, ⟨hname, hcadence⟩, hrest, rfl⟩ := List.forall₂_cons_left_iff.mp hall
  cases hname
  cases hcadence
  cases hrest
  rfl

open Deployment in
/-- Two ways for a configuration to load and have no schedule: the check of the usual interval
lets an hour and a half through, and nothing looks at the interval of a content type. -/
theorem Config.loads_without_schedule :
    (ofEnvironment (environment "90" none) = .ok (config 90 none) ∧
      (config 90 none).layouts (files "60") = .ok Layout.builtIn ∧
      ∃ r, Registry.ofEntries ((config 90 none).entries Layout.builtIn) = .ok r ∧
        r.schedule = .error (.unevenInterval 90)) ∧
    (ofEnvironment (environment "60" (some "types.json")) = .ok (config 60 (some "types.json")) ∧
      (config 60 (some "types.json")).layouts (files "0") = .ok (pages 0) ∧
      ∃ r, Registry.ofEntries ((config 60 (some "types.json")).entries (pages 0)) = .ok r ∧
        r.schedule = .error .noInterval) := by
  constructor
  · refine ⟨by decide +kernel, by decide +kernel, ⟨(config 90 none).entries Layout.builtIn⟩, ?_, ?_⟩
    · decide
    · decide
  · refine ⟨by decide +kernel, by decide +kernel, ⟨[("page", 0)]⟩, ?_, ?_⟩
    · decide
    · decide

end Polyglot
