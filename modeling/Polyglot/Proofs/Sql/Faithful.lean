import Polyglot.Flow.Copies
import Polyglot.Proofs.Sql.Row

namespace Polyglot

namespace Sql

def Value.ofText? : Option String → Value
  | some s => .text s
  | none => .null

theorem Value.ofText?_injective : Function.Injective Value.ofText? := by
  rintro (_ | s) (_ | s') heq
  · rfl
  · cases heq
  · cases heq
  · cases heq
    rfl

theorem fieldValue_eq_ofText? (text : Text) (field : String) :
    fieldValue text field = .ofText? (text.get? field) := by
  rw [fieldValue]
  cases text.get? field <;> rfl

end Sql

namespace Layout

open Sql

variable {l : Layout} {r q : Record} {text : Text} {cells : List (Option String)}

/-- A row of the record table as it comes back, with these values for the text fields and the other
columns of a record. -/
def resultRow (l : Layout) (r : Record) (values : List Value) : Row :=
  l.selectRecords.outputNames.zip
    ([.int r.id, .int r.item, .int r.language] ++ values ++
      [.bool r.follows, .text r.createdBy, .text r.updatedBy, .instant r.createdAt,
        .instant r.updatedAt])

def decode (l : Layout) (r : Record) (cells : List (Option String)) : Except Error Record :=
  Row.record l.textFields (l.resultRow r (cells.map .ofText?))

def cellsOf (l : Layout) (text : Text) : List (Option String) :=
  l.textFields.map fun field => text.get? field

theorem map_snd_fieldSettings (l : Layout) (text : Text) :
    (l.fieldSettings text).map (·.2) = (l.cellsOf text).map .ofText? := by
  rw [fieldSettings, cellsOf, List.map_map, List.map_map]
  exact List.map_congr_left fun field _ => fieldValue_eq_ofText? text field

theorem fieldValues_eq_ok_iff (htext : text.keys ⊆ l.textFields) :
    l.fieldValues text = .ok (cells.map .ofText?) ↔ l.cellsOf text = cells := by
  rw [fieldValues_eq_ok htext, map_snd_fieldSettings, Except.ok.injEq,
    Value.ofText?_injective.list_map.eq_iff]

theorem resultRow_cellsOf (l : Layout) (r : Record) (text : Text) :
    l.resultRow r ((l.cellsOf text).map .ofText?) = l.rowUnder "content_id" { r with text } := by
  rw [← zip_outputNames, resultRow, ← map_snd_fieldSettings]
  simp [row, rowUnder]

theorem cellsOf_inj {text' : Text} (htext : text.keys ⊆ l.textFields)
    (htext' : text'.keys ⊆ l.textFields) : l.cellsOf text = l.cellsOf text' ↔ text = text' := by
  refine ⟨fun heq => SortedMap.ext_get? fun field => ?_, congrArg l.cellsOf⟩
  by_cases hfield : field ∈ l.textFields
  · exact List.map_inj_left.mp heq field hfield
  · have hnone {text : Text} (htext : text.keys ⊆ l.textFields) : text.get? field = none := by
      by_contra hsome
      exact hfield (htext (SortedMap.mem_keys.mpr (Option.isSome_iff_ne_none.mpr hsome)))
    rw [hnone htext, hnone htext']

/-- A copy is left alone if and only if it has the text. -/
theorem overwrite_eq_pure_iff (text : Text) (actor : Actor) (q : Record) :
    Copies.overwrite text actor q = pure ⟨0, 1, 0, 0⟩ ↔ q.text = text := by
  rw [Copies.overwrite]
  split_ifs with htext
  · exact iff_of_true rfl htext
  · exact iff_of_false (fun heq => by cases heq) htext

section

variable (h : l.selectRecords.outputNames.Nodup)
include h

theorem decode_cellsOf (r : Record) (htext : text.keys ⊆ l.textFields) :
    l.decode r (l.cellsOf text) = .ok { r with text } := by
  rw [outputNames_selectRecords] at h
  -- in results the item's column goes by this name, whatever its name in the table
  have hfeasible : ({ l with foreignKey := "content_id" } : Layout).Feasible := by
    rw [Feasible, columnNames_eq]
    exact h
  rw [decode, resultRow_cellsOf]
  exact hfeasible.record_rowUnder hfeasible.key_not_mem htext

/-- Whatever the text fields hold, they hold it of some text. -/
theorem exists_cellsOf_eq (hlength : cells.length = l.textFields.length) :
    ∃ text : Text, text.keys ⊆ l.textFields ∧ l.cellsOf text = cells := by
  have hnodup : l.textFields.Nodup := by
    rw [outputNames_selectRecords] at h
    exact (List.nodup_append.mp (List.nodup_append.mp h).1).2.1
  obtain ⟨text, hget⟩ :=
    exists_text (fun field => ((l.textFields.zip cells).lookup field).join) l.textFields
  refine ⟨text, fun field hfield => ?_, ?_⟩
  · by_contra hout
    have hsome := SortedMap.mem_keys.mp hfield
    rw [hget, if_neg hout] at hsome
    cases hsome
  · calc l.cellsOf text
        = l.textFields.map fun field => ((l.textFields.zip cells).lookup field).join :=
          List.map_congr_left fun field hfield => by rw [hget, if_pos hfield]
      _ = (cells.map some).map Option.join := by
          rw [← map_lookup_zip hnodup hlength, List.map_map]
          rfl
      _ = cells := by simp [Function.comp_def]

/-- A record that was read has the text that its row holds. -/
theorem cellsOf_of_decode (hlength : cells.length = l.textFields.length)
    (hq : l.decode r cells = .ok q) : q.text.keys ⊆ l.textFields ∧ l.cellsOf q.text = cells := by
  obtain ⟨text, htext, rfl⟩ := exists_cellsOf_eq h hlength
  rw [decode_cellsOf h r htext] at hq
  cases hq
  exact ⟨htext, rfl⟩

end

/-- Texts are as good as what is stored of them. -/
structure Faithful (l : Layout) : Prop where
  read : ∀ (r : Record) (text : Text), text.keys ⊆ l.textFields →
    l.fieldValues text = .ok ((l.cellsOf text).map .ofText?) ∧
      l.decode r (l.cellsOf text) = .ok { r with text }
  written : ∀ (r : Record) (cells : List (Option String)), cells.length = l.textFields.length →
    ∃ text : Text, l.decode r cells = .ok { r with text } ∧ text.keys ⊆ l.textFields ∧
      l.cellsOf text = cells ∧ l.fieldValues text = .ok (cells.map .ofText?)
  compared : ∀ (r q : Record) (cells : List (Option String)) (text : Text) (actor : Actor),
    cells.length = l.textFields.length → text.keys ⊆ l.textFields → l.decode r cells = .ok q →
      (q.text = text ↔ l.fieldValues text = .ok (cells.map .ofText?)) ∧
      (Copies.overwrite text actor q = pure ⟨0, 1, 0, 0⟩ ↔
        l.fieldValues text = .ok (cells.map .ofText?))
  converged : ∀ (r r' q q' : Record) (cells cells' : List (Option String)) (actor : Actor),
    cells.length = l.textFields.length → cells'.length = l.textFields.length →
    l.decode r cells = .ok q → l.decode r' cells' = .ok q' →
      (q.text = q'.text ↔ cells = cells') ∧
      (Copies.overwrite q'.text actor q = pure ⟨0, 1, 0, 0⟩ ↔ cells = cells')

theorem faithful_of_nodup (h : l.selectRecords.outputNames.Nodup) : l.Faithful where
  read r text htext :=
    ⟨(fieldValues_eq_ok_iff htext).mpr rfl, decode_cellsOf h r htext⟩
  written r cells hlength := by
    obtain ⟨text, htext, hcells⟩ := exists_cellsOf_eq h hlength
    refine ⟨text, ?_, htext, hcells, (fieldValues_eq_ok_iff htext).mpr hcells⟩
    rw [← hcells]
    exact decode_cellsOf h r htext
  compared r q cells text actor hlength htext hq := by
    obtain ⟨hknown, hcells⟩ := cellsOf_of_decode h hlength hq
    rw [overwrite_eq_pure_iff, and_self, fieldValues_eq_ok_iff htext, ← hcells,
      cellsOf_inj htext hknown]
    exact eq_comm
  converged r r' q q' cells cells' actor hlength hlength' hq hq' := by
    obtain ⟨hknown, hcells⟩ := cellsOf_of_decode h hlength hq
    obtain ⟨hknown', hcells'⟩ := cellsOf_of_decode h hlength' hq'
    rw [overwrite_eq_pure_iff, and_self, ← hcells, ← hcells', cellsOf_inj hknown hknown']

/-- An empty summary is not an absent one. -/
theorem story_faithful :
    let r : Record := ⟨5, 7, 2, .empty, true, "ann", "ann", 1, 1⟩
    story.selectRecords.outputNames.Nodup ∧ story.Faithful ∧
      story.decode r [some "Once", some "", none] =
        .ok { r with text := .ofList [("title", "Once"), ("summary", "")] } ∧
      story.decode r [some "Once", none, none] =
        .ok { r with text := .ofList [("title", "Once")] } := by
  have hnodup : story.selectRecords.outputNames.Nodup := by decide
  exact ⟨hnodup, faithful_of_nodup hnodup, rfl, rfl⟩

end Layout

end Polyglot
