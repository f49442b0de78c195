import Mathlib.Data.List.Nodup
import Polyglot.Proofs.Setup.Layout
import Polyglot.Sql.Commands

namespace Polyglot

namespace Sql

def Statement.written : Statement → List String
  | .insert _ columns _ => columns
  | .update _ assignments _ => assignments.map (·.1)
  | _ => []

@[simp] theorem map_fst_assignFrom (first : Nat) (columns : List String) :
    (assignFrom first columns).map (·.1) = columns := by
  induction columns generalizing first with
  | nil => rfl
  | cons column rest ih => rw [assignFrom, List.map_cons, ih]

/-- If no name stands twice, each name finds the value in its place. -/
theorem map_lookup_zip {α : Type} {names : List String} (hnodup : names.Nodup) {values : List α}
    (hlength : values.length = names.length) :
    names.map (fun name => (names.zip values).lookup name) = values.map some := by
  induction names generalizing values with
  | nil => simp [List.length_eq_zero_iff.mp hlength]
  | cons name rest ih =>
      obtain ⟨v, values, rfl⟩ := List.exists_cons_of_length_eq_add_one hlength
      obtain ⟨hname, hnodup⟩ := List.nodup_cons.mp hnodup
      have hlater : rest.map (fun other => ((name :: rest).zip (v :: values)).lookup other) =
          rest.map (fun other => (rest.zip values).lookup other) := by
        refine List.map_congr_left fun other hother => ?_
        rw [List.zip_cons_cons, SortedMap.lookup_cons_eq, if_neg]
        rintro rfl
        exact hname hother
      rw [List.map_cons, hlater, ih hnodup (Nat.succ.inj hlength), List.zip_cons_cons,
        SortedMap.lookup_cons_eq, if_pos rfl, List.map_cons]

end Sql

namespace Layout

open Sql

variable {l : Layout} {before after : List String}

theorem outputNames_selectRecords (l : Layout) :
    l.selectRecords.outputNames = ["id", "content_id", "language_id"] ++ l.textFields ++
      ["is_synced", "created_by", "updated_by", "created_at", "updated_at"] := by
  have hof : Output.name ∘ Output.of = id := rfl
  rw [selectRecords, Statement.outputNames, recordColumns, List.map_append, List.map_append,
    List.map_map, List.map_map, hof, List.map_id, List.map_id]
  rfl

theorem written_overwriteRecord (l : Layout) :
    l.overwriteRecord.written = l.textFields ++ ["updated_by", "updated_at"] := by
  simp [overwriteRecord, Statement.written]

theorem written_writeRecord (l : Layout) :
    l.writeRecord.written = l.textFields ++ ["is_synced", "updated_by", "updated_at"] := by
  simp [writeRecord, Statement.written]

theorem Valid.nodup_around_iff (h : l.Valid) (before after : List String) :
    (before ++ l.textFields ++ after).Nodup ↔
      (before ++ after).Nodup ∧ ∀ column ∈ before ++ after, column ∉ l.textFields := by
  have hperm : (before ++ l.textFields ++ after).Perm (l.textFields ++ (before ++ after)) := by
    rw [← List.append_assoc]
    exact List.perm_append_comm.append_right after
  rw [hperm.nodup_iff, List.nodup_append', List.disjoint_comm]
  exact and_iff_right h.nodup

theorem Valid.not_mem_of_managed (h : l.Valid) {column : String}
    (hmanaged : column ∈ managedColumns) : column ∉ l.textFields :=
  fun hfield => h.unmanaged column hfield hmanaged

theorem Valid.nodup_outputNames (h : l.Valid) :
    l.selectRecords.outputNames.Nodup ↔ "content_id" ∉ l.textFields := by
  rw [outputNames_selectRecords, h.nodup_around_iff, and_iff_right (by decide)]
  refine ⟨fun hout => hout "content_id" (by decide), fun hfield column hcolumn => ?_⟩
  by_cases heq : column = "content_id"
  · rwa [heq]
  · refine h.not_mem_of_managed ?_
    simp only [List.cons_append, List.nil_append, List.mem_cons, heq, false_or] at hcolumn
    simpa [managedColumns] using hcolumn

theorem Valid.nodup_insertColumns (h : l.Valid) :
    l.insertColumns.Nodup ↔
      l.foreignKey ∉ ["language_id", "is_synced", "created_by", "updated_by"] := by
  have hout : ∀ column ∈ [l.foreignKey, "language_id"] ++ ["is_synced", "created_by", "updated_by"],
      column ∉ l.textFields := by
    have hmanaged : ["language_id", "is_synced", "created_by", "updated_by"] ⊆ managedColumns := by
      decide
    exact List.forall_mem_cons.mpr
      ⟨h.foreign, fun _ hcolumn => h.not_mem_of_managed (hmanaged hcolumn)⟩
  rw [insertColumns, h.nodup_around_iff, and_iff_left hout]
  simp

theorem Valid.nodup_written (h : l.Valid) {after : List String} (hnodup : after.Nodup)
    (hmanaged : after ⊆ managedColumns) : (l.textFields ++ after).Nodup :=
  (h.nodup_around_iff [] after).mpr
    ⟨hnodup, fun _ hcolumn => h.not_mem_of_managed (hmanaged hcolumn)⟩

/-- The statements of a layout that passes its check name a column at most once, but for the two
clashes that the check does not know of. Each value of a row is then found under its name. -/
theorem columns_unambiguous_iff (h : l.validate = .ok ()) :
    (l.selectRecords.outputNames.Nodup ↔ "content_id" ∉ l.textFields) ∧
    ("content_id" ∉ l.textFields → ∀ values : List Value,
      values.length = l.selectRecords.outputNames.length →
        l.selectRecords.outputNames.map
          (fun name => (l.selectRecords.outputNames.zip values).lookup name) =
            values.map some) ∧
    (∀ rows, (l.insertRecords rows).written.Nodup ↔
      l.foreignKey ∉ ["language_id", "is_synced", "created_by", "updated_by"]) ∧
    l.overwriteRecord.written.Nodup ∧ l.writeRecord.written.Nodup := by
  have hvalid := (validate_eq_ok_iff l).mp h
  refine ⟨hvalid.nodup_outputNames, fun hfield values => ?_, fun _ => hvalid.nodup_insertColumns,
    ?_, ?_⟩
  · exact map_lookup_zip (hvalid.nodup_outputNames.mpr hfield)
  · rw [written_overwriteRecord]
    exact hvalid.nodup_written (by decide) (by decide)
  · rw [written_writeRecord]
    exact hvalid.nodup_written (by decide) (by decide)

def story : Layout :=
  ⟨"story", "stories", "story_translations", "story_id", ["title", "summary", "content"], none⟩

theorem story_unambiguous :
    story.validate = .ok () ∧ story.selectRecords.outputNames.Nodup ∧
      (story.insertRecords 2).written.Nodup ∧ story.overwriteRecord.written.Nodup := by
  have hvalid : story.validate = .ok () := by decide
  obtain ⟨hselect, -, hinsert, hoverwrite, -⟩ := columns_unambiguous_iff hvalid
  exact ⟨hvalid, hselect.mpr (by decide), (hinsert 2).mpr (by decide), hoverwrite⟩

/-- The check lets a layout pass whose records cannot be read, because two columns of the result are
called alike. -/
theorem content_id_field_ambiguous :
    let page : Layout := ⟨"page", "pages", "page_translations", "page_id", ["title", "content_id"],
      none⟩
    page.validate = .ok () ∧ ¬ page.selectRecords.outputNames.Nodup := by
  decide

end Layout

end Polyglot
