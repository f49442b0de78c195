import Polyglot.Proofs.Setup.Schedule
import Polyglot.Sql.Database

namespace Polyglot

namespace Layout

variable {layouts : List Layout} {seen : List String} {read : String → Option String}
  {path text : String}

theorem checkAll_cons_of_valid {l : Layout} (h : l.validate = .ok ()) :
    checkAll seen (l :: layouts) =
      if l.name ∈ seen then .error (.repeatedType l.name)
      else checkAll (l.name :: seen) layouts := by
  rw [checkAll, h]
  rfl

/-- The first layout that is at fault says why the check fails. -/
theorem checkAll_eq_error {e : SetupError} (h : checkAll seen layouts = .error e) :
    ∃ before l after, layouts = before ++ l :: after ∧ checkAll seen before = .ok () ∧
      (l.validate = .error e ∨
        l.validate = .ok () ∧ l.name ∈ seen ++ before.map (·.name) ∧ e = .repeatedType l.name) := by
  induction layouts generalizing seen with
  | nil => cases h
  | cons l rest ih =>
      cases hvalid : l.validate with
      | error e' =>
          rw [checkAll, hvalid] at h
          cases h
          exact ⟨[], l, rest, rfl, rfl, Or.inl hvalid⟩
      | ok =>
          rw [checkAll_cons_of_valid hvalid] at h
          split_ifs at h with hseen
          · cases h
            exact ⟨[], l, rest, rfl, rfl, Or.inr ⟨hvalid, by simpa using hseen, rfl⟩⟩
          · obtain ⟨before, other, after, rfl, hbefore, hwhy⟩ := ih h
            refine ⟨l :: before, other, after, rfl, ?_, ?_⟩
            · rw [checkAll_cons_of_valid hvalid, if_neg hseen, hbefore]
            · refine hwhy.imp_right ?_
              rintro ⟨hother, hname, herror⟩
              refine ⟨hother, ?_, herror⟩
              simp only [List.mem_append, List.mem_cons, List.map_cons] at hname ⊢
              tauto

/-- What becomes of a file that lists layouts. -/
structure Loads (read : String → Option String) (path : String) (layouts : List Layout) : Prop where
  loaded : load read (some path) = .ok layouts ↔
    (∀ l ∈ layouts, l.validate = .ok ()) ∧ (layouts.map (·.name)).Nodup
  unchanged : ∀ others, load read (some path) = .ok others → others = layouts
  fault : ∀ e, load read (some path) = .error e → ∃ before l after,
    layouts = before ++ l :: after ∧ (∀ other ∈ before, other.validate = .ok ()) ∧
      (before.map (·.name)).Nodup ∧
      (l.validate = .error e ∨
        l.validate = .ok () ∧ l.name ∈ before.map (·.name) ∧ e = .repeatedType l.name)

theorem loads_of_listed (hread : read path = some text)
    (hlisted : listOfText? text = some layouts) : Loads read path layouts := by
  have hload : load read (some path) = (do checkAll [] layouts; return layouts) := by
    simp only [load, hread, hlisted]
    rfl
  have hok (others : List Layout) : load read (some path) = .ok others ↔
      checkAll [] layouts = .ok () ∧ others = layouts := by
    rw [hload, SetupError.bind_eq_ok_iff]
    constructor
    · rintro ⟨_, hcheck, heq⟩
      cases heq
      exact ⟨hcheck, rfl⟩
    · rintro ⟨hcheck, rfl⟩
      exact ⟨(), hcheck, rfl⟩
  refine ⟨?_, fun others hothers => ((hok others).mp hothers).2, fun e he => ?_⟩
  · rw [hok, and_iff_left rfl, checkAll_eq_ok_iff]
    simp
  · have hcheck : checkAll [] layouts = .error e := by
      rw [hload] at he
      cases hcheck : checkAll [] layouts with
      | error e' =>
          rw [hcheck] at he
          cases he
          rfl
      | ok =>
          rw [hcheck] at he
          cases he
    obtain ⟨before, l, after, hsplit, hbefore, hwhy⟩ := checkAll_eq_error hcheck
    obtain ⟨hvalid, hnodup, -⟩ := checkAll_eq_ok_iff.mp hbefore
    exact ⟨before, l, after, hsplit, hvalid, hnodup, hwhy⟩

end Layout

namespace Registry

/-- One call after another, each of which may be refused. -/
def afterCalls (calls : List (String × Nat)) : Registry :=
  calls.foldl (fun r c => (r.register c.1 c.2).toOption.getD r) .empty

def firstCalls (calls : List (String × Nat)) : List (String × Nat) :=
  (calls.zipIdx.filter fun c => c.1.1 ∉ (calls.take c.2).map (·.1)).map (·.1)

variable {calls : List (String × Nat)} {c : String × Nat}

theorem afterCalls_concat (calls : List (String × Nat)) (c : String × Nat) :
    afterCalls (calls ++ [c]) =
      ((afterCalls calls).register c.1 c.2).toOption.getD (afterCalls calls) := by
  rw [afterCalls, List.foldl_append]
  rfl

theorem firstCalls_concat (calls : List (String × Nat)) (c : String × Nat) :
    firstCalls (calls ++ [c]) =
      firstCalls calls ++ if c.1 ∈ calls.map (·.1) then [] else [c] := by
  have hearlier : ∀ p ∈ calls.zipIdx,
      decide (p.1.1 ∉ ((calls ++ [c]).take p.2).map (·.1)) =
        decide (p.1.1 ∉ (calls.take p.2).map (·.1)) := by
    intro p hp
    have hlt : p.2 < calls.length := by simpa using List.snd_lt_of_mem_zipIdx hp
    rw [List.take_append_of_le_length hlt.le]
  have hall : (calls ++ [c]).take (0 + calls.length) = calls := by simp
  rw [firstCalls, List.zipIdx_append, List.filter_append, List.map_append,
    List.filter_congr hearlier, ← firstCalls]
  congr 1
  rw [List.zipIdx_singleton, List.filter_singleton, hall]
  by_cases hc : c.1 ∈ calls.map (·.1) <;> simp [hc]

theorem mem_map_firstCalls {name : String} :
    name ∈ (firstCalls calls).map (·.1) ↔ name ∈ calls.map (·.1) := by
  induction calls using List.reverseRecOn with
  | nil => rfl
  | append_singleton calls c ih =>
      rw [firstCalls_concat, List.map_append, List.map_append, List.mem_append, List.mem_append, ih]
      split_ifs with hc
      · refine ⟨fun h => h.imp_right nofun, fun h => Or.inl (h.elim id fun hname => ?_)⟩
        rw [List.map_singleton, List.mem_singleton] at hname
        rwa [hname]
      · rfl

theorem entries_afterCalls (calls : List (String × Nat)) :
    (afterCalls calls).entries = firstCalls calls := by
  induction calls using List.reverseRecOn with
  | nil => rfl
  | append_singleton calls c ih =>
      have hhas : (afterCalls calls).has c.1 = true ↔ c.1 ∈ calls.map (·.1) := by
        rw [has_iff_mem_names, names, ih, mem_map_firstCalls]
      rw [afterCalls_concat, firstCalls_concat, register]
      split_ifs with hregistered hc hc
      · exact ih.trans (List.append_nil _).symm
      · exact absurd (hhas.mp hregistered) hc
      · exact absurd (hhas.mpr hc) hregistered
      · exact congrArg (· ++ [c]) ih

/-- A registry keeps the first call with each name. -/
structure FirstCome (calls : List (String × Nat)) : Prop where
  entries : (afterCalls calls).entries = firstCalls calls
  refused : ∀ c : String × Nat, c.1 ∈ calls.map (·.1) →
    (afterCalls calls).register c.1 c.2 = .error (.invalid (.repeatedContentType c.1)) ∧
      afterCalls (calls ++ [c]) = afterCalls calls
  taken : ∀ c : String × Nat, c.1 ∉ calls.map (·.1) →
    (afterCalls calls).register c.1 c.2 = .ok (afterCalls (calls ++ [c])) ∧
      (afterCalls (calls ++ [c])).entries = (afterCalls calls).entries ++ [c]

theorem firstCome (calls : List (String × Nat)) : FirstCome calls := by
  have hhas (c : String × Nat) :
      (afterCalls calls).has c.1 = true ↔ c.1 ∈ calls.map (·.1) := by
    rw [has_iff_mem_names, names, entries_afterCalls, mem_map_firstCalls]
  refine ⟨entries_afterCalls calls, fun c hc => ?_, fun c hc => ?_⟩
  · have hrefused : (afterCalls calls).register c.1 c.2 =
        .error (.invalid (.repeatedContentType c.1)) :=
      if_pos ((hhas c).mpr hc)
    refine ⟨hrefused, ?_⟩
    rw [afterCalls_concat, hrefused]
    rfl
  · have htaken : (afterCalls calls).register c.1 c.2 =
        .ok ⟨(afterCalls calls).entries ++ [c]⟩ :=
      if_neg fun h => hc ((hhas c).mp h)
    rw [afterCalls_concat, htaken]
    exact ⟨rfl, rfl⟩

end Registry

theorem Sql.Database.registry_of_ofEntries {layouts : List Layout} {baseCode : String}
    {interval : Nat} {r' : Registry} (hvalid : ∀ l ∈ layouts, l.validate = .ok ())
    (h : Registry.ofEntries (layouts.map fun l => (l.name, l.interval.getD interval)) = .ok r') :
    (⟨baseCode, layouts⟩ : Sql.Database).registry interval = .ok r' := by
  rw [Registry.ofEntries] at h
  rw [registry]
  dsimp only
  generalize Registry.empty = r at h ⊢
  induction layouts generalizing r with
  | nil =>
      cases h
      rfl
  | cons l rest ih =>
      obtain ⟨hl, hrest⟩ := List.forall_mem_cons.mp hvalid
      rw [List.map_cons, List.foldlM_cons] at h
      rw [List.foldlM_cons, hl]
      cases hregister : r.register l.name (l.interval.getD interval) with
      | error e =>
          rw [hregister] at h
          cases h
      | ok r₁ =>
          rw [hregister] at h
          exact ih hrest r₁ h

namespace Deployment

def story : Layout :=
  ⟨"story", "stories", "story_translations", "story_id", ["title", "body"], none⟩

def page : Layout := ⟨"page", "pages", "page_translations", "page_id", ["title"], some 30⟩

/-- The file lists two content types, of which the second has an interval of its own. -/
def library : String → Option String
  | "types.json" => some ("[\x7b\"name\":\"story\",\"item_table\":\"stories\"," ++
      "\"translation_table\":\"story_translations\",\"foreign_key\":\"story_id\"," ++
      "\"text_fields\":[\"title\",\"body\"]\x7d,\x7b\"name\":\"page\"," ++
      "\"item_table\":\"pages\",\"translation_table\":\"page_translations\"," ++
      "\"foreign_key\":\"page_id\",\"text_fields\":[\"title\"]," ++
      "\"reconcile_interval_minutes\":30\x7d]")
  | _ => none

end Deployment

namespace Config

variable {read : String → Option String} {c : Config} {layouts : List Layout}

/-- A registry that was built from layouts, as those of a database or as entries alone. -/
structure Registered (c : Config) (layouts : List Layout) (r : Registry) : Prop where
  built : (⟨c.baseCode, layouts⟩ : Sql.Database).registry c.interval = .ok r
  direct : Registry.ofEntries (c.entries layouts) = .ok r
  entries : r.entries = layouts.map fun l => (l.name, l.interval.getD c.interval)
  found : ∀ l ∈ layouts, r.get? l.name = some (l.name, l.interval.getD c.interval) ∧
    layouts.find? (·.name = l.name) = some l
  absent : ∀ name, (∀ l ∈ layouts, l.name ≠ name) →
    r.get? name = none ∧ layouts.find? (·.name = name) = none

theorem get?_entries (c : Config) (layouts : List Layout) (name : String) :
    Registry.get? ⟨c.entries layouts⟩ name =
      (layouts.find? (·.name = name)).map fun l => (l.name, c.intervalFor l) := by
  rw [Registry.get?, entries, List.find?_map]
  rfl

theorem registered_of_layouts (h : c.layouts read = .ok layouts) :
    Registered c layouts ⟨c.entries layouts⟩ := by
  obtain ⟨hvalid, hnames, -⟩ := Layout.checkAll_eq_ok_iff.mp (Layout.checkAll_of_load h)
  have hdirect : Registry.ofEntries (c.entries layouts) = .ok ⟨c.entries layouts⟩ := by
    refine Registry.ofEntries_of_nodup ?_
    rwa [map_fst_entries]
  refine ⟨Sql.Database.registry_of_ofEntries hvalid hdirect, hdirect, rfl, fun l hl => ?_,
    fun name hname => ?_⟩
  · have hfind : layouts.find? (·.name = l.name) = some l := find?_of_nodup_map hnames hl rfl
    refine ⟨?_, hfind⟩
    rw [get?_entries, hfind]
    rfl
  · have hfind : layouts.find? (·.name = name) = none := by simpa using hname
    refine ⟨?_, hfind⟩
    rw [get?_entries, hfind]
    rfl

/-- Whatever is loaded can be registered, and is found under its own name. -/
theorem registered_as_loaded (read : String → Option String) (c : Config) :
    (∀ path text layouts, read path = some text → Layout.listOfText? text = some layouts →
      Layout.Loads read path layouts) ∧
    (∀ layouts, c.layouts read = .ok layouts → ∃ r, Registered c layouts r) ∧
    ∀ calls, Registry.FirstCome calls :=
  ⟨fun _ _ _ hread hlisted => Layout.loads_of_listed hread hlisted,
    fun _ h => ⟨_, registered_of_layouts h⟩, Registry.firstCome⟩

open Deployment in
theorem page_registered_as_loaded :
    (∃ text, library "types.json" = some text ∧ Layout.listOfText? text = some [story, page] ∧
      Layout.Loads library "types.json" [story, page]) ∧
    (config 60 (some "types.json")).layouts library = .ok [story, page] ∧
    (∃ r, Registered (config 60 (some "types.json")) [story, page] r ∧
      r.entries = [("story", 60), ("page", 30)]) ∧
    Registry.FirstCome [("page", 30), ("story", 60), ("page", 5)] ∧
    (Registry.afterCalls [("page", 30), ("story", 60), ("page", 5)]).entries =
      [("page", 30), ("story", 60)] := by
  obtain ⟨hloads, hregistered, hfirst⟩ :=
    registered_as_loaded library (config 60 (some "types.json"))
  obtain ⟨text, hread, hlisted⟩ : ∃ text, library "types.json" = some text ∧
      Layout.listOfText? text = some [story, page] :=
    Option.bind_eq_some_iff.mp (by decide +kernel)
  have hload : Layout.Loads library "types.json" [story, page] := hloads _ _ _ hread hlisted
  have hlayouts : (config 60 (some "types.json")).layouts library = .ok [story, page] :=
    hload.loaded.mpr ⟨by decide +kernel, by decide⟩
  obtain ⟨r, hr⟩ := hregistered _ hlayouts
  exact ⟨⟨text, hread, hlisted, hload⟩, hlayouts, ⟨r, hr, hr.entries⟩, hfirst _, by decide⟩

end Config

end Polyglot
