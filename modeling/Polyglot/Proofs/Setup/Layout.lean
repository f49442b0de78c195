import Mathlib.Data.List.Nodup
import Polyglot.Setup.Layout

namespace Polyglot.Layout

/-- A layout that passes its check. -/
structure Valid (l : Layout) : Prop where
  name : isBlank l.name = false
  names : ∀ n ∈ l.names, isIdentifier n.2 = true
  fields : l.textFields ≠ []
  identifiers : ∀ field ∈ l.textFields, isIdentifier field = true
  unmanaged : ∀ field ∈ l.textFields, field ∉ managedColumns
  foreign : l.foreignKey ∉ l.textFields
  nodup : l.textFields.Nodup

theorem fieldFlaw_eq_none_iff {foreignKey : String} {seen fields : List String} :
    fieldFlaw foreignKey seen fields = none ↔
      (∀ field ∈ fields, isIdentifier field = true ∧ field ∉ managedColumns ∧
        field ≠ foreignKey ∧ field ∉ seen) ∧ fields.Nodup := by
  induction fields generalizing seen with
  | nil => simp [fieldFlaw]
  | cons field rest ih =>
      rw [fieldFlaw, List.forall_mem_cons, List.nodup_cons]
      split_ifs with hidentifier hmanaged hseen
      · simp [Bool.eq_false_iff.mpr (by simpa using hidentifier)]
      · refine iff_of_false (by simp) fun h => ?_
        exact hmanaged.elim h.1.1.2.1 h.1.1.2.2.1
      · exact iff_of_false (by simp) fun h => h.1.1.2.2.2 hseen
      · rw [ih]
        constructor
        · rintro ⟨hrest, hnodup⟩
          refine ⟨⟨⟨by simpa using hidentifier, fun h => hmanaged (Or.inl h),
            fun h => hmanaged (Or.inr h), hseen⟩, fun other hother => ?_⟩, fun h => ?_, hnodup⟩
          · obtain ⟨hi, hm, hf, hs⟩ := hrest other hother
            exact ⟨hi, hm, hf, fun h => hs (List.mem_cons_of_mem field h)⟩
          · exact (hrest field h).2.2.2 List.mem_cons_self
        · rintro ⟨⟨-, hrest⟩, hfield, hnodup⟩
          refine ⟨fun other hother => ?_, hnodup⟩
          obtain ⟨hi, hm, hf, hs⟩ := hrest other hother
          refine ⟨hi, hm, hf, fun h => ?_⟩
          rcases List.mem_cons.mp h with rfl | h
          · exact hfield hother
          · exact hs h

theorem flaw_eq_none_iff {l : Layout} :
    l.flaw = none ↔ (∀ n ∈ l.names, isIdentifier n.2 = true) ∧ l.textFields ≠ [] ∧
      fieldFlaw l.foreignKey [] l.textFields = none := by
  rw [flaw]
  cases hfind : l.names.find? fun n => !isIdentifier n.2 with
  | some n =>
      have hbad := List.find?_some hfind
      refine iff_of_false (by simp) fun h => ?_
      simp [h.1 n (List.mem_of_find?_eq_some hfind)] at hbad
  | none =>
      have hnames : ∀ n ∈ l.names, isIdentifier n.2 = true := by simpa using hfind
      rw [and_iff_right hnames]
      cases l.textFields <;> simp

theorem validate_eq_ok_iff (l : Layout) : l.validate = .ok () ↔ l.Valid := by
  have hvalidate : l.validate = .ok () ↔ isBlank l.name = false ∧ l.flaw = none := by
    rw [validate]
    cases isBlank l.name <;> cases l.flaw <;> simp
  rw [hvalidate, flaw_eq_none_iff, fieldFlaw_eq_none_iff]
  constructor
  · rintro ⟨hname, hnames, hfields, hevery, hnodup⟩
    refine ⟨hname, hnames, hfields, fun field h => (hevery field h).1,
      fun field h => (hevery field h).2.1, fun h => ?_, hnodup⟩
    exact (hevery _ h).2.2.1 rfl
  · intro h
    refine ⟨h.name, h.names, h.fields, fun field hfield => ?_, h.nodup⟩
    refine ⟨h.identifiers field hfield, h.unmanaged field hfield, ?_, List.not_mem_nil⟩
    rintro rfl
    exact h.foreign hfield

end Polyglot.Layout
