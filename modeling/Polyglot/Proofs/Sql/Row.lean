import Polyglot.Proofs.Sql.Table
import Polyglot.Proofs.Store.Sound

namespace Polyglot

namespace Sql

theorem lookup_of_mem {row : Row} (hnodup : (row.map (·.1)).Nodup) {column : String} {v : Value}
    (h : (column, v) ∈ row) : row.lookup column = some v := by
  induction row with
  | nil => cases h
  | cons e rest ih =>
      obtain ⟨hfirst, hrest⟩ := List.nodup_cons.mp hnodup
      rw [SortedMap.lookup_cons_eq]
      rcases List.mem_cons.mp h with rfl | h
      · rw [if_pos rfl]
      · rw [if_neg, ih hrest h]
        rintro rfl
        exact hfirst (List.mem_map.mpr ⟨_, h, rfl⟩)

end Sql

namespace Layout

open Sql

/-- A record as a row in which the column `key` holds the item's id. -/
def rowUnder (l : Layout) (key : String) (r : Record) : Row :=
  [("id", .int r.id), (key, .int r.item), ("language_id", .int r.language)] ++
    l.fieldSettings r.text ++
    [("is_synced", .bool r.follows), ("created_by", .text r.createdBy),
      ("updated_by", .text r.updatedBy), ("created_at", .instant r.createdAt),
      ("updated_at", .instant r.updatedAt)]

def row (l : Layout) (r : Record) : Row := l.rowUnder l.foreignKey r

variable {l : Layout} {referred : Referred} {m : Moment} {r : Record} {records : List Record}
  {text : Text} {item : ItemId} {actor : Actor} {id : RecordId} {follows : Bool}

theorem map_fst_rowUnder (l : Layout) (key : String) (r : Record) :
    (l.rowUnder key r).map (·.1) = ["id", key, "language_id"] ++ l.textFields ++
      ["is_synced", "created_by", "updated_by", "created_at", "updated_at"] := by
  simp [rowUnder]

theorem lookup_fieldSettings (l : Layout) (text : Text) (column : String) :
    (l.fieldSettings text).lookup column =
      if column ∈ l.textFields then some (fieldValue text column) else none := by
  rw [fieldSettings]
  induction l.textFields with
  | nil => rfl
  | cons field rest ih =>
      rw [List.map_cons, SortedMap.lookup_cons_eq, ih]
      by_cases h : column = field <;> simp [h]

theorem Feasible.cell_row (h : l.Feasible) {column : String} {v : Value}
    (hmem : (column, v) ∈ l.row r) : (l.row r).cell column = v := by
  rw [Row.cell, lookup_of_mem _ hmem, Option.getD_some]
  rw [row, map_fst_rowUnder, ← columnNames_eq]
  exact h

section Cell

variable (h : l.Feasible)
include h

theorem Feasible.cell_id : (l.row r).cell "id" = .int r.id := h.cell_row (by simp [row, rowUnder])

theorem Feasible.cell_key : (l.row r).cell l.foreignKey = .int r.item :=
  h.cell_row (by simp [row, rowUnder])

theorem Feasible.cell_language : (l.row r).cell "language_id" = .int r.language :=
  h.cell_row (by simp [row, rowUnder])

theorem Feasible.cell_flag : (l.row r).cell "is_synced" = .bool r.follows :=
  h.cell_row (by simp [row, rowUnder])

end Cell

theorem fieldValue_takes (text : Text) (field : String) :
    (⟨field, .text, true⟩ : Column).Takes (fieldValue text field) := by
  rw [fieldValue]
  cases text.get? field with
  | none => exact Or.inr ⟨rfl, rfl⟩
  | some s => exact Or.inl rfl

theorem Feasible.takes_row (h : l.Feasible) {c : Column} (hc : c ∈ l.columns) :
    c.Takes ((l.row r).cell c.name) := by
  obtain ⟨v, hmem, htakes⟩ : ∃ v, (c.name, v) ∈ l.row r ∧ c.Takes v := by
    rw [columns, List.mem_append, List.mem_append] at hc
    rcases hc with (hc | hc) | hc
    · simp only [List.mem_cons, List.not_mem_nil, or_false] at hc
      rcases hc with rfl | rfl | rfl
      · exact ⟨.int r.id, by simp [row, rowUnder], Or.inl rfl⟩
      · exact ⟨.int r.item, by simp [row, rowUnder], Or.inl rfl⟩
      · exact ⟨.int r.language, by simp [row, rowUnder], Or.inl rfl⟩
    · obtain ⟨field, hfield, rfl⟩ := List.mem_map.mp hc
      exact ⟨_, by simp [row, rowUnder, fieldSettings, hfield], fieldValue_takes r.text field⟩
    · simp only [List.mem_cons, List.not_mem_nil, or_false] at hc
      rcases hc with rfl | rfl | rfl | rfl | rfl
      · exact ⟨.bool r.follows, by simp [row, rowUnder], Or.inl rfl⟩
      · exact ⟨.text r.createdBy, by simp [row, rowUnder], Or.inl rfl⟩
      · exact ⟨.text r.updatedBy, by simp [row, rowUnder], Or.inl rfl⟩
      · exact ⟨.instant r.createdAt, by simp [row, rowUnder], Or.inl rfl⟩
      · exact ⟨.instant r.updatedAt, by simp [row, rowUnder], Or.inl rfl⟩
  rw [h.cell_row hmem]
  exact htakes

/-- Which records can be in the table together. -/
theorem Feasible.admits_iff (h : l.Feasible) :
    l.Admits referred (records.map l.row) ↔ (records.map (·.id)).Nodup ∧
      (records.map fun r => (r.item, r.language)).Nodup ∧
      ∀ r ∈ records, r.item ∈ referred.items ∧ r.language ∈ referred.languages := by
  have hids : (records.map l.row).map (·.cell "id") = (records.map (·.id)).map Value.int := by
    simp [h.cell_id]
  have hkeys :
      (records.map l.row).map (fun row => (row.cell l.foreignKey, row.cell "language_id")) =
        (records.map fun r => (r.item, r.language)).map (Prod.map Value.int Value.int) := by
    simp [h.cell_key, h.cell_language]
  have hint : Function.Injective Value.int := fun _ _ heq => by cases heq; rfl
  constructor
  · rintro ⟨-, hid, hkey, hitems, hlanguages⟩
    rw [hids] at hid
    rw [hkeys] at hkey
    refine ⟨hid.of_map _, hkey.of_map _, fun r hr => ⟨?_, ?_⟩⟩
    · simpa [h.cell_key] using hitems (l.row r) (List.mem_map_of_mem hr)
    · simpa [h.cell_language] using hlanguages (l.row r) (List.mem_map_of_mem hr)
  · rintro ⟨hid, hkey, hreferred⟩
    refine ⟨?_, ?_, ?_, ?_, ?_⟩
    · intro _ hrow c hc
      obtain ⟨r, -, rfl⟩ := List.mem_map.mp hrow
      exact h.takes_row hc
    · rw [hids]
      exact hid.map hint
    · rw [hkeys]
      exact hkey.map (hint.prodMap hint)
    · rintro _ hrow
      obtain ⟨r, hr, rfl⟩ := List.mem_map.mp hrow
      simpa [h.cell_key] using (hreferred r hr).1
    · rintro _ hrow
      obtain ⟨r, hr, rfl⟩ := List.mem_map.mp hrow
      simpa [h.cell_language] using (hreferred r hr).2

theorem updated_fieldSettings (l : Layout) (text old : Text) (others : List (String × Value)) :
    Row.updated (l.fieldSettings text ++ others) (l.fieldSettings old) = l.fieldSettings text := by
  rw [Row.updated, fieldSettings.eq_def l old, fieldSettings.eq_def l text, List.map_map]
  refine List.map_congr_left fun field hfield => ?_
  rw [← fieldSettings, Function.comp_apply, List.lookup_append, lookup_fieldSettings,
    if_pos hfield]
  rfl

theorem lookup_fieldSettings_append (text : Text) (others : List (String × Value))
    {column : String} (hcolumn : column ∉ l.textFields) :
    (l.fieldSettings text ++ others).lookup column = others.lookup column := by
  rw [List.lookup_append, lookup_fieldSettings, if_neg hcolumn, Option.none_or]

/-- Setting the texts, and the flag if it is given, makes the row that of the record rewritten. -/
theorem Feasible.updated_row (h : l.Feasible) (flag : Option Bool) (now : Instant) :
    (l.row r).updated (l.fieldSettings text ++ (flag.toList.map (fun b => ("is_synced", .bool b)) ++
      [("updated_by", .text actor), ("updated_at", .instant now)])) =
        l.row (r.rewritten text (flag.getD r.follows) actor now) := by
  -- no setting of one group reaches a column of another, since all names differ
  have hfields : ∀ column ∈ managedColumns, column ∉ l.textFields := fun _ => h.not_mem_of_managed
  have hkey : ∀ column ∈ managedColumns, l.foreignKey ≠ column := fun _ hc => (h.ne_key hc).symm
  simp only [managedColumns, List.forall_mem_cons] at hfields hkey
  rw [row, rowUnder, Row.updated, List.map_append, List.map_append]
  refine congrArg₂ (· ++ ·) (congrArg₂ (· ++ ·) ?_ (updated_fieldSettings l text r.text _)) ?_
  · cases flag <;>
      simp [lookup_fieldSettings_append, hfields, h.key_not_mem, SortedMap.lookup_cons_eq, hkey,
        Record.rewritten]
  · cases flag <;>
      simp [lookup_fieldSettings_append, hfields, SortedMap.lookup_cons_eq, Record.rewritten]

theorem lookup_draftSettings (l : Layout) (item : ItemId) (actor : Actor) (d : Draft)
    (column : String) :
    (l.draftSettings item actor d).lookup column =
      if column = l.foreignKey then some (.int item)
      else if column = "language_id" then some (.int d.language)
      else if column ∈ l.textFields then some (fieldValue d.text column)
      else ([("is_synced", .bool d.follows), ("created_by", .text actor),
        ("updated_by", .text actor)] : Row).lookup column := by
  simp only [draftSettings, List.cons_append, List.nil_append, SortedMap.lookup_cons_eq,
    List.lookup_append, lookup_fieldSettings]
  split_ifs <;> rfl

theorem Feasible.newRow_draftSettings (h : l.Feasible) (k : Nat) (d : Draft) :
    l.newRow m k (l.draftSettings item actor d) =
      l.row (d.record item actor m.now (m.ids k)) := by
  have hfields : ∀ column ∈ managedColumns, column ∉ l.textFields := fun _ => h.not_mem_of_managed
  have hkey : ∀ column ∈ managedColumns, column ≠ l.foreignKey := fun _ => h.ne_key
  simp only [managedColumns, List.forall_mem_cons] at hfields hkey
  rw [newRow, columnNames_eq, List.map_append, List.map_append]
  refine congrArg₂ (· ++ ·) (congrArg₂ (· ++ ·) ?_ ?_) ?_
  · simp [lookup_draftSettings, preset, hfields, hkey, SortedMap.lookup_cons_eq, Draft.record]
  · refine List.map_congr_left fun field hfield => ?_
    have hne : field ≠ l.foreignKey := by
      rintro rfl
      exact h.key_not_mem hfield
    have hlanguage : field ≠ "language_id" := by
      rintro rfl
      exact hfields.2.1 hfield
    rw [lookup_draftSettings, if_neg hne, if_neg hlanguage, if_pos hfield]
    rfl
  · simp [lookup_draftSettings, preset, hfields, hkey, SortedMap.lookup_cons_eq, Draft.record]

def textSettings (l : Layout) (flag : Option Bool) (text : Text) (actor : Actor) :
    List (String × Value) :=
  l.fieldSettings text ++ (flag.toList.map (fun b => ("is_synced", .bool b)) ++
    [("updated_by", .text actor)])

/-- Sets columns of the row of an id if it meets more conditions. -/
def updateById (l : Layout) (settings : List (String × Value)) (more : List Condition)
    (id : RecordId) : Exchange :=
  ⟨.update l.recordTable (assignFrom 1 (settings.map (·.1)) ++ [("updated_at", .now)])
    (.equals "id" (.parameter (settings.length + 1)) :: more), settings.map (·.2) ++ [.int id]⟩

theorem Feasible.accepted_updateById (h : l.Feasible) (flag : Option Bool)
    {more : List Condition} (hmore : more.map (·.column) ⊆ l.columnNames) :
    (l.updateById (l.textSettings flag text actor) more id).statement.Accepted l.recordTable
      l.columnNames := by
  have hwritten : (l.updateById (l.textSettings flag text actor) more id).statement.written =
      l.textFields ++ (flag.toList.map (fun _ => "is_synced") ++ ["updated_by", "updated_at"]) := by
    simp [updateById, textSettings, Statement.written, Function.comp_def]
  have hcolumns : (l.updateById (l.textSettings flag text actor) more id).statement.columns =
      (l.updateById (l.textSettings flag text actor) more id).statement.written ++
        "id" :: more.map (·.column) := rfl
  have hafter : (flag.toList.map (fun _ => "is_synced") ++ ["updated_by", "updated_at"]).Nodup ∧
      flag.toList.map (fun _ => "is_synced") ++ ["updated_by", "updated_at"] ⊆ managedColumns := by
    cases flag <;> simp [managedColumns]
  refine ⟨rfl, ?_, ?_⟩
  · rw [hcolumns, hwritten, List.append_subset, List.append_subset, List.cons_subset]
    exact ⟨⟨l.textFields_subset, List.Subset.trans hafter.2 l.managedColumns_subset⟩,
      l.managedColumns_subset (by decide), hmore⟩
  · rw [hwritten, List.nodup_append']
    refine ⟨((nodup_columnNames_iff l).mp h).1, hafter.1, fun column hcolumn hin => ?_⟩
    exact h.not_mem_of_managed (hafter.2 hin) hcolumn

theorem respond_updateById (settings : List (String × Value)) (more : List Condition)
    (rows : List Row)
    (haccepted : (l.updateById settings more id).statement.Accepted l.recordTable l.columnNames) :
    let hit := meets m (l.updateById settings more id).parameters
      (.equals "id" (.parameter (settings.length + 1)) :: more)
    l.respond referred m (l.updateById settings more id) rows =
      l.commit referred rows
        (rows.map fun row =>
          if hit row then row.updated (settings ++ [("updated_at", .instant m.now)]) else row)
        (rows.countP hit) := by
  have hsettings : List.map
      (fun a : String × Operand => (a.1, a.2.value m (l.updateById settings more id).parameters))
      (assignFrom 1 (settings.map (·.1)) ++ [("updated_at", .now)]) =
        settings ++ [("updated_at", .instant m.now)] := by
    rw [List.map_append, updateById, map_value_assignFrom]
    rfl
  rw [respond, if_pos haccepted, ← hsettings]
  rfl

theorem Feasible.holds_id (h : l.Feasible) (settings : List (String × Value)) :
    Condition.holds m (settings.map (·.2) ++ [.int id]) (l.row r)
      (.equals "id" (.parameter (settings.length + 1))) = decide (r.id = id) := by
  simp [Condition.holds, h.cell_id, Operand.value]

theorem Feasible.holds_flag (h : l.Feasible) (parameters : List Value) :
    Condition.holds m parameters (l.row r) (.equals "is_synced" .yes) = r.follows := by
  simp [Condition.holds, h.cell_flag, Operand.value]

/-- A record can change in the table, if its id and its place stay. -/
theorem Feasible.admits_map (h : l.Feasible) (hadmits : l.Admits referred (records.map l.row))
    (f : Record → Record)
    (hf : ∀ r, (f r).id = r.id ∧ (f r).item = r.item ∧ (f r).language = r.language) :
    l.Admits referred ((records.map f).map l.row) := by
  obtain ⟨hids, hkeys, hreferred⟩ := h.admits_iff.mp hadmits
  refine h.admits_iff.mpr ⟨?_, ?_, ?_⟩
  · simpa [hf, Function.comp_def] using hids
  · simpa [hf, Function.comp_def] using hkeys
  · intro _ hmem
    obtain ⟨r, hr, rfl⟩ := List.mem_map.mp hmem
    simpa [hf] using hreferred r hr

theorem Feasible.respond_textSettings (h : l.Feasible)
    (hadmits : l.Admits referred (records.map l.row)) {flag : Option Bool} {more : List Condition}
    {keeps : Record → Bool} (hcolumns : more.map (·.column) ⊆ l.columnNames)
    (hmore : ∀ parameters r, meets m parameters more (l.row r) = keeps r) :
    l.respond referred m (l.updateById (l.textSettings flag text actor) more id)
      (records.map l.row) =
        (.affected (records.countP fun r => decide (r.id = id) && keeps r),
          (records.map fun r => if decide (r.id = id) && keeps r then
            r.rewritten text (flag.getD r.follows) actor m.now else r).map l.row) := by
  have hhit (r : Record) : meets m
      (l.updateById (l.textSettings flag text actor) more id).parameters
      (.equals "id" (.parameter ((l.textSettings flag text actor).length + 1)) :: more) (l.row r) =
        (decide (r.id = id) && keeps r) := by
    rw [← hmore (l.updateById (l.textSettings flag text actor) more id).parameters, meets,
      List.all_cons, updateById, h.holds_id, meets]
  have hset : l.textSettings flag text actor ++ [("updated_at", .instant m.now)] =
      l.fieldSettings text ++ (flag.toList.map (fun b => ("is_synced", .bool b)) ++
        [("updated_by", .text actor), ("updated_at", .instant m.now)]) := by
    simp [textSettings]
  rw [respond_updateById _ _ _ (h.accepted_updateById flag hcolumns), List.map_map,
    List.countP_map, hset]
  simp only [Function.comp_def, hhit, h.updated_row, ← apply_ite l.row]
  rw [commit, if_pos, List.map_map]
  · rfl
  · rw [← Function.comp_def l.row, ← List.map_map]
    refine h.admits_map hadmits _ fun r => ?_
    split <;> exact ⟨rfl, rfl, rfl⟩

def overwriteOf (l : Layout) (id : RecordId) (text : Text) (actor : Actor) : Exchange :=
  l.updateById (l.textSettings none text actor) [.equals "is_synced" .yes] id

def writeOf (l : Layout) (id : RecordId) (text : Text) (follows : Bool) (actor : Actor) :
    Exchange :=
  l.updateById (l.textSettings (some follows) text actor) [] id

theorem overwriteExchange_eq_overwriteOf (h : text.keys ⊆ l.textFields) :
    l.overwriteExchange id text actor = .ok (l.overwriteOf id text actor) := by
  rw [overwriteExchange_eq_ok h]
  simp [overwriteOf, updateById, textSettings, overwriteRecord, assignFrom_append, assignFrom,
    Nat.add_comm 1]

theorem writeExchange_eq_writeOf (h : text.keys ⊆ l.textFields) :
    l.writeExchange id text follows actor = .ok (l.writeOf id text follows actor) := by
  rw [writeExchange_eq_ok h]
  simp [writeOf, updateById, textSettings, writeRecord, assignFrom_append, assignFrom,
    Nat.add_comm 1]

theorem Feasible.respond_overwriteOf (h : l.Feasible)
    (hadmits : l.Admits referred (records.map l.row)) :
    l.respond referred m (l.overwriteOf id text actor) (records.map l.row) =
      (.affected (records.countP fun r => r.id = id ∧ r.follows = true), (records.map fun r =>
        if r.id = id ∧ r.follows = true then r.rewritten text true actor m.now
          else r).map l.row) := by
  have hflag (parameters : List Value) (r : Record) :
      meets m parameters [.equals "is_synced" .yes] (l.row r) = r.follows := by
    rw [meets, List.all_cons, h.holds_flag, List.all_nil, Bool.and_true]
  have hcolumns : [Condition.equals "is_synced" .yes].map (·.column) ⊆ l.columnNames := by
    simp [Condition.column, columnNames_eq]
  rw [overwriteOf, h.respond_textSettings hadmits hcolumns hflag]
  refine congrArg₂ Prod.mk (congrArg Response.affected ?_) (congrArg (List.map l.row) ?_)
  · exact List.countP_congr fun r _ => by simp
  · refine List.map_congr_left fun r _ => ?_
    cases hfollows : r.follows <;> simp

theorem Feasible.respond_writeOf (h : l.Feasible)
    (hadmits : l.Admits referred (records.map l.row)) :
    l.respond referred m (l.writeOf id text follows actor) (records.map l.row) =
      (.affected (records.countP (·.id = id)), (records.map fun r =>
        if r.id = id then r.rewritten text follows actor m.now else r).map l.row) := by
  have hall (parameters : List Value) (r : Record) : meets m parameters [] (l.row r) = true := rfl
  rw [writeOf, h.respond_textSettings hadmits (List.nil_subset _) hall]
  simp

theorem Feasible.map_cell_row (h : l.Feasible) (r : Record) :
    l.columnNames.map (l.row r).cell = (l.row r).map (·.2) := by
  have hnames : l.columnNames = (l.row r).map (·.1) := by
    rw [row, map_fst_rowUnder, columnNames_eq]
  rw [hnames, List.map_map]
  exact List.map_congr_left fun e he => h.cell_row he

theorem map_column_recordColumns (l : Layout) :
    l.recordColumns.map (·.column) = l.columnNames := by
  simp [recordColumns, columnNames_eq, Output.of, Function.comp_def]

theorem accepted_selectRecords (l : Layout) :
    l.selectRecords.Accepted l.recordTable l.columnNames where
  table := rfl
  columns := by
    rw [selectRecords, Statement.columns, map_column_recordColumns]
    refine List.append_subset.mpr ⟨List.append_subset.mpr ⟨List.Subset.refl _, ?_⟩, ?_⟩
    all_goals simp [columnNames_eq, Condition.column]
  written := .nil

theorem Feasible.respond_selectRecords (h : l.Feasible) (item : ItemId) :
    l.respond referred m ⟨l.selectRecords, [.int item]⟩ (records.map l.row) =
      (.rows (((records.filter (·.item = item)).mergeSort fun r r' => r.language ≤ r'.language).map
        fun r => (l.row r).map (·.2)), records.map l.row) := by
  have hmeets : meets m [.int item] [.equals l.foreignKey (.parameter 1)] ∘ l.row =
      fun r => decide (r.item = item) := by
    funext r
    simp [meets, Condition.holds, h.cell_key, Operand.value]
  have harranged (found : List Record) : arranged (found.map l.row) (some "language_id") =
      (found.mergeSort fun r r' => r.language ≤ r'.language).map l.row := by
    refine (List.map_mergeSort fun r _ r' _ => ?_).symm
    rw [h.cell_language, h.cell_language]
    rfl
  have hcells (r : Record) : l.recordColumns.map (fun o => (l.row r).cell o.column) =
      (l.row r).map (·.2) := by
    rw [← h.map_cell_row, ← map_column_recordColumns, List.map_map]
    rfl
  rw [respond, if_pos l.accepted_selectRecords]
  simp only [selectRecords, List.filter_map, hmeets, harranged, List.map_map, Function.comp_def,
    hcells]

theorem zip_outputNames (l : Layout) (r : Record) :
    l.selectRecords.outputNames.zip ((l.row r).map (·.2)) = l.rowUnder "content_id" r := by
  have hvalues : (l.row r).map (·.2) = (l.rowUnder "content_id" r).map (·.2) := by
    simp [row, rowUnder]
  rw [hvalues, outputNames_selectRecords, ← map_fst_rowUnder, List.zip_map']
  exact List.map_id _

theorem fields_eq_ok {row : Row} {columns : List String}
    (h : ∀ column ∈ columns, row.lookup column = some (fieldValue text column)) :
    ∃ text' : Text, row.fields columns = .ok text' ∧
      ∀ column, text'.get? column = if column ∈ columns then text.get? column else none := by
  induction columns with
  | nil => exact ⟨.empty, rfl, fun _ => rfl⟩
  | cons first rest ih =>
      obtain ⟨hfirst, hrest⟩ := List.forall_mem_cons.mp h
      obtain ⟨others, hothers, hget⟩ := ih hrest
      have htext? : row.text? first = .ok (text.get? first) := by
        rw [Row.text?, Row.value, hfirst, fieldValue]
        cases text.get? first <;> rfl
      cases hvalue : text.get? first with
      | none =>
          refine ⟨others, ?_, fun column => ?_⟩
          · rw [Row.fields, htext?, hothers, hvalue]
            rfl
          · by_cases heq : column = first <;> simp [hget, heq, hvalue]
      | some s =>
          refine ⟨others.insert first s, ?_, fun column => ?_⟩
          · rw [Row.fields, htext?, hothers, hvalue]
            rfl
          · by_cases heq : column = first <;> simp [hget, heq, hvalue]

theorem fields_eq_undecodable {row : Row} {columns : List String} {column : String}
    (hmem : column ∈ columns) (h : row.text? column = undecodable) :
    row.fields columns = undecodable := by
  have herror (first : String) :
      (∃ v, row.text? first = .ok v) ∨ row.text? first = undecodable := by
    rw [Row.text?, Row.value]
    cases row.lookup first with
    | none => exact Or.inr rfl
    | some v =>
        cases v with
        | null => exact Or.inl ⟨none, rfl⟩
        | text s => exact Or.inl ⟨some s, rfl⟩
        | bool | int | instant => exact Or.inr rfl
  induction columns with
  | nil => cases hmem
  | cons first rest ih =>
      rcases herror first with ⟨v, hv⟩ | hundecodable
      · have hrest : column ∈ rest := by
          rcases List.mem_cons.mp hmem with rfl | hrest
          · rw [h] at hv
            cases hv
          · exact hrest
        rw [Row.fields, hv, ih hrest]
        rfl
      · rw [Row.fields, hundecodable]
        rfl

theorem Feasible.record_rowUnder (h : l.Feasible) (hfield : "content_id" ∉ l.textFields)
    (htext : r.text.keys ⊆ l.textFields) :
    Row.record l.textFields (l.rowUnder "content_id" r) = .ok r := by
  have hnodup : ((l.rowUnder "content_id" r).map (·.1)).Nodup := by
    have hfeasible := (nodup_columnNames_iff { l with foreignKey := "content_id" }).mpr
      ⟨((nodup_columnNames_iff l).mp h).1, ((nodup_columnNames_iff l).mp h).2.1, hfield,
        (by decide : "content_id" ∉ managedColumns)⟩
    rwa [map_fst_rowUnder, ← columnNames_eq { l with foreignKey := "content_id" }]
  have hvalue (column : String) (v : Value) (hmem : (column, v) ∈ l.rowUnder "content_id" r) :
      (l.rowUnder "content_id" r).value column = .ok v := by
    rw [Row.value, lookup_of_mem hnodup hmem]
  have hfields : ∀ field ∈ l.textFields,
      (l.rowUnder "content_id" r).lookup field = some (fieldValue r.text field) := fun field hmem =>
    lookup_of_mem hnodup (by simp [rowUnder, fieldSettings, hmem])
  obtain ⟨text', hread, hget⟩ := fields_eq_ok hfields
  have htext' : text' = r.text := by
    refine SortedMap.ext_get? fun column => ?_
    rw [hget]
    split_ifs with hcolumn
    · rfl
    · cases hnone : r.text.get? column with
      | none => rfl
      | some s => exact absurd (htext (SortedMap.mem_keys.mpr (by simp [hnone]))) hcolumn
  rw [Row.record, hread, htext']
  simp only [Row.int, Row.bool, Row.text, Row.instant, hvalue "id" (.int r.id) (by simp [rowUnder]),
    hvalue "content_id" (.int r.item) (by simp [rowUnder]),
    hvalue "language_id" (.int r.language) (by simp [rowUnder]),
    hvalue "is_synced" (.bool r.follows) (by simp [rowUnder]),
    hvalue "created_by" (.text r.createdBy) (by simp [rowUnder]),
    hvalue "updated_by" (.text r.updatedBy) (by simp [rowUnder]),
    hvalue "created_at" (.instant r.createdAt) (by simp [rowUnder]),
    hvalue "updated_at" (.instant r.updatedAt) (by simp [rowUnder])]
  rfl

/-- A text field that is called like the item's column is not found in its own place. -/
theorem record_rowUnder_eq_undecodable (hfield : "content_id" ∈ l.textFields) (r : Record) :
    Row.record l.textFields (l.rowUnder "content_id" r) = undecodable := by
  have hlookup : (l.rowUnder "content_id" r).lookup "content_id" = some (.int r.item) := by
    simp [rowUnder, SortedMap.lookup_cons_eq]
  have htext? : (l.rowUnder "content_id" r).text? "content_id" = undecodable := by
    rw [Row.text?, Row.value, hlookup]
    rfl
  rw [Row.record, fields_eq_undecodable hfield htext?]
  rfl

theorem insertColumns_sublist (l : Layout) : l.insertColumns.Sublist l.columnNames := by
  rw [columnNames_eq, insertColumns]
  refine ((List.sublist_cons_self _ _).append (.refl _)).append ?_
  decide

def insertOf (l : Layout) (item : ItemId) (drafts : List Draft) (actor : Actor) : Exchange :=
  ⟨l.insertRecords drafts.length,
    (drafts.map fun d => (l.draftSettings item actor d).map (·.2)).flatten⟩

theorem Feasible.accepted_insertOf (h : l.Feasible) {drafts : List Draft} :
    (l.insertOf item drafts actor).statement.Accepted l.recordTable l.columnNames where
  table := rfl
  columns := l.insertColumns_sublist.subset
  written := List.Nodup.sublist l.insertColumns_sublist h

theorem Feasible.respond_insertOf (h : l.Feasible) {drafts : List Draft} :
    l.respond referred m (l.insertOf item drafts actor) (records.map l.row) =
      l.commit referred (records.map l.row)
        ((records ++ drafts.mapIdx fun k d => d.record item actor m.now (m.ids k)).map l.row)
        drafts.length := by
  have hvalues : (parameterRows l.insertColumns.length 1 drafts.length).map
      (·.map (·.value m (l.insertOf item drafts actor).parameters)) =
        drafts.map fun d => (l.draftSettings item actor d).map (·.2) := by
    have hwidth : ∀ values ∈ drafts.map (fun d => (l.draftSettings item actor d).map (·.2)),
        values.length = l.insertColumns.length := by
      intro values hvalues
      obtain ⟨d, -, rfl⟩ := List.mem_map.mp hvalues
      rw [List.length_map, ← map_fst_draftSettings l item actor d, List.length_map]
    simpa [insertOf] using map_value_parameterRows m hwidth []
  have hzip (d : Draft) : l.insertColumns.zip ((l.draftSettings item actor d).map (·.2)) =
      l.draftSettings item actor d := by
    rw [← map_fst_draftSettings l item actor d, List.zip_map']
    exact List.map_id _
  have hadded : (parameterRows l.insertColumns.length 1 drafts.length).mapIdx (fun k operands =>
      l.newRow m k (l.insertColumns.zip
        (operands.map (·.value m (l.insertOf item drafts actor).parameters)))) =
      (drafts.mapIdx fun k d => d.record item actor m.now (m.ids k)).map l.row := by
    -- row by row: what is bound for row `k` is what draft `k` sets
    refine List.ext_getElem? fun k => ?_
    have hk := congrArg (fun rows => rows[k]?.map fun values =>
      l.newRow m k (l.insertColumns.zip values)) hvalues
    simp only [List.getElem?_map, Option.map_map, Function.comp_def, hzip,
      h.newRow_draftSettings] at hk
    simp only [List.getElem?_map, List.getElem?_mapIdx, Option.map_map, Function.comp_def, hk]
  rw [respond, if_pos h.accepted_insertOf]
  simp only [insertOf, insertRecords] at hadded ⊢
  rw [hadded, ← List.map_append, List.length_map, List.length_mapIdx]

theorem exists_text (values : String → Option String) (fields : List String) :
    ∃ text : Text, ∀ field, text.get? field = if field ∈ fields then values field else none := by
  induction fields with
  | nil => exact ⟨.empty, fun _ => rfl⟩
  | cons first rest ih =>
      obtain ⟨text, hget⟩ := ih
      cases hvalue : values first with
      | none =>
          refine ⟨text, fun field => ?_⟩
          by_cases heq : field = first <;> simp [hget, heq, hvalue]
      | some s =>
          refine ⟨text.insert first s, fun field => ?_⟩
          by_cases heq : field = first <;> simp [hget, heq, hvalue]

/-- Every row of the table holds a record. -/
theorem Feasible.exists_record (h : l.Feasible) {row : Row}
    (hcolumns : row.map (·.1) = l.columnNames)
    (htyped : ∀ c ∈ l.columns, c.Takes (row.cell c.name)) :
    ∃ r : Record, row = l.row r ∧ r.text.keys ⊆ l.textFields := by
  have hrow : row = l.columnNames.map fun column => (column, row.cell column) := by
    have hnodup : (row.map (·.1)).Nodup := hcolumns ▸ h
    rw [← hcolumns, List.map_map]
    conv_lhs => rw [← List.map_id row]
    refine List.map_congr_left fun e he => ?_
    rw [Function.comp_apply, Row.cell, lookup_of_mem hnodup he]
    rfl
  obtain ⟨id, hid⟩ := (htyped ⟨"id", .integer, false⟩ (by simp [columns])).integer
  obtain ⟨item, hitem⟩ := (htyped ⟨l.foreignKey, .integer, false⟩ (by simp [columns])).integer
  obtain ⟨language, hlanguage⟩ :=
    (htyped ⟨"language_id", .integer, false⟩ (by simp [columns])).integer
  obtain ⟨follows, hfollows⟩ := (htyped ⟨"is_synced", .boolean, false⟩ (by simp [columns])).boolean
  obtain ⟨createdBy, hcreatedBy⟩ := (htyped ⟨"created_by", .text, false⟩ (by simp [columns])).text
  obtain ⟨updatedBy, hupdatedBy⟩ := (htyped ⟨"updated_by", .text, false⟩ (by simp [columns])).text
  obtain ⟨createdAt, hcreatedAt⟩ :=
    (htyped ⟨"created_at", .timestamp, false⟩ (by simp [columns])).timestamp
  obtain ⟨updatedAt, hupdatedAt⟩ :=
    (htyped ⟨"updated_at", .timestamp, false⟩ (by simp [columns])).timestamp
  obtain ⟨text, hget⟩ := exists_text (fun field => (row.cell field).text?) l.textFields
  refine ⟨⟨id, item, language, text, follows, createdBy, updatedBy, createdAt, updatedAt⟩, ?_, ?_⟩
  · rw [hrow, columnNames_eq, List.map_append, List.map_append]
    refine congrArg₂ (· ++ ·) (congrArg₂ (· ++ ·) ?_ ?_) ?_
    · simp [hid, hitem, hlanguage]
    · refine List.map_congr_left fun field hfield => congrArg (Prod.mk field) ?_
      rw [fieldValue, hget, if_pos hfield]
      rcases (htyped ⟨field, .text, true⟩ (by simp [columns, hfield])).text_or_null with
        ⟨s, hs⟩ | hnull
      · rw [show row.cell field = .text s from hs]
        rfl
      · rw [show row.cell field = .null from hnull]
        rfl
    · simp [hfollows, hcreatedBy, hupdatedBy, hcreatedAt, hupdatedAt]
  · intro field hfield
    by_contra hout
    have hsome := SortedMap.mem_keys.mp hfield
    rw [hget, if_neg hout] at hsome
    cases hsome

theorem Feasible.exists_records (h : l.Feasible) {rows : List Row}
    (hcolumns : ∀ row ∈ rows, row.map (·.1) = l.columnNames)
    (htyped : ∀ row ∈ rows, ∀ c ∈ l.columns, c.Takes (row.cell c.name)) :
    ∃ records : List Record, rows = records.map l.row ∧
      ∀ r ∈ records, r.text.keys ⊆ l.textFields := by
  induction rows with
  | nil => exact ⟨[], rfl, List.forall_mem_nil _⟩
  | cons row rest ih =>
      obtain ⟨hcolumn, hcolumns'⟩ := List.forall_mem_cons.mp hcolumns
      obtain ⟨htype, htyped'⟩ := List.forall_mem_cons.mp htyped
      obtain ⟨records, rfl, htexts⟩ := ih hcolumns' htyped'
      obtain ⟨r, rfl, htext⟩ := h.exists_record hcolumn htype
      exact ⟨r :: records, rfl, List.forall_mem_cons.mpr ⟨htext, htexts⟩⟩

end Layout

end Polyglot
