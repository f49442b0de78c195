import Polyglot.Proofs.Sql.Parameters

/-!
The record table of a content type, by its schema: its columns, which rows it admits, and how the
database answers a statement on it. A row holds a record, column by column.
-/

namespace Polyglot

namespace Sql

inductive Kind where
  | boolean
  | integer
  | text
  | timestamp
deriving DecidableEq

namespace Value

def kind? : Value → Option Kind
  | .null => none
  | .bool _ => some .boolean
  | .int _ => some .integer
  | .text _ => some .text
  | .instant _ => some .timestamp

def text? : Value → Option String
  | .text s => some s
  | _ => none

/-- The order of integers, the only one that results are put into. -/
def before : Value → Value → Bool
  | .int i, .int j => i ≤ j
  | _, _ => true

end Value

structure Column where
  name : String
  kind : Kind
  nullable : Bool
deriving DecidableEq

def Column.Takes (c : Column) (v : Value) : Prop :=
  v.kind? = some c.kind ∨ v = .null ∧ c.nullable = true

instance (c : Column) (v : Value) : Decidable (c.Takes v) :=
  inferInstanceAs (Decidable (_ ∨ _))

namespace Column.Takes

variable {name : String} {v : Value}

theorem integer (h : (⟨name, .integer, false⟩ : Column).Takes v) : ∃ i, v = .int i := by
  cases v <;> simp_all [Column.Takes, Value.kind?]

theorem boolean (h : (⟨name, .boolean, false⟩ : Column).Takes v) : ∃ b, v = .bool b := by
  cases v <;> simp_all [Column.Takes, Value.kind?]

theorem text (h : (⟨name, .text, false⟩ : Column).Takes v) : ∃ s, v = .text s := by
  cases v <;> simp_all [Column.Takes, Value.kind?]

theorem timestamp (h : (⟨name, .timestamp, false⟩ : Column).Takes v) : ∃ t, v = .instant t := by
  cases v <;> simp_all [Column.Takes, Value.kind?]

theorem text_or_null (h : (⟨name, .text, true⟩ : Column).Takes v) :
    (∃ s, v = .text s) ∨ v = .null := by
  cases v <;> simp_all [Column.Takes, Value.kind?]

end Column.Takes

/-- What the database adds of its own: the time, and the ids that its sequence gives next. -/
structure Moment where
  now : Instant
  ids : Nat → RecordId

/-- What an operand stands for; a parameter is known by its place among those bound, from 1. -/
def Operand.value (m : Moment) (parameters : List Value) : Operand → Value
  | .parameter n => parameters.getD (n - 1) .null
  | .yes => .bool true
  | .now => .instant m.now

namespace Row

def cell (r : Row) (column : String) : Value := (r.lookup column).getD .null

def updated (settings : List (String × Value)) (r : Row) : Row :=
  r.map fun e => (e.1, (settings.lookup e.1).getD e.2)

end Row

namespace Condition

def column : Condition → String
  | .equals column _ => column
  | .isNull column => column

/-- Whether a row meets the condition. NULL equals nothing. -/
def holds (m : Moment) (parameters : List Value) (r : Row) : Condition → Bool
  | .equals column operand => r.cell column ≠ .null && r.cell column = operand.value m parameters
  | .isNull column => r.cell column = .null

end Condition

def meets (m : Moment) (parameters : List Value) (conditions : List Condition) (r : Row) : Bool :=
  conditions.all (·.holds m parameters r)

def arranged (rows : List Row) : Option String → List Row
  | none => rows
  | some column => rows.mergeSort fun r r' => (r.cell column).before (r'.cell column)

namespace Statement

def table : Statement → String
  | .select _ table _ _ => table
  | .anyRow table _ => table
  | .insert table _ _ => table
  | .update table _ _ => table

def columns : Statement → List String
  | .select outputs _ conditions order =>
      outputs.map (·.column) ++ conditions.map (·.column) ++ order.toList
  | .anyRow _ conditions => conditions.map (·.column)
  | .insert _ columns _ => columns
  | .update _ assignments conditions => assignments.map (·.1) ++ conditions.map (·.column)

end Statement

/-- The statement can be carried out on a table with these columns. -/
structure Statement.Accepted (table : String) (columns : List String) (x : Statement) : Prop where
  table : x.table = table
  columns : x.columns ⊆ columns
  written : x.written.Nodup

instance (table : String) (columns : List String) (x : Statement) :
    Decidable (x.Accepted table columns) :=
  decidable_of_iff (x.table = table ∧ x.columns ⊆ columns ∧ x.written.Nodup)
    ⟨fun ⟨h₁, h₂, h₃⟩ => ⟨h₁, h₂, h₃⟩, fun h => ⟨h.table, h.columns, h.written⟩⟩

/-- The ids in the tables that a record table refers to. -/
structure Referred where
  items : List ItemId
  languages : List LanguageId

end Sql

namespace Layout

open Sql

def columns (l : Layout) : List Column :=
  [⟨"id", .integer, false⟩, ⟨l.foreignKey, .integer, false⟩, ⟨"language_id", .integer, false⟩] ++
    l.textFields.map (⟨·, .text, true⟩) ++
    [⟨"is_synced", .boolean, false⟩, ⟨"created_by", .text, false⟩, ⟨"updated_by", .text, false⟩,
      ⟨"created_at", .timestamp, false⟩, ⟨"updated_at", .timestamp, false⟩]

def columnNames (l : Layout) : List String := l.columns.map (·.name)

/-- What a column of a new row holds if it is not set; the row is number `k` of its statement. -/
def preset (m : Moment) (k : Nat) (column : String) : Value :=
  if column = "id" then .int (m.ids k)
  else if column = "is_synced" then .bool false
  else if column ∈ ["created_at", "updated_at"] then .instant m.now
  else .null

def newRow (l : Layout) (m : Moment) (k : Nat) (settings : List (String × Value)) : Row :=
  l.columnNames.map fun column => (column, (settings.lookup column).getD (preset m k column))

/-- The table can be in this state. -/
structure Admits (l : Layout) (referred : Referred) (rows : List Row) : Prop where
  typed : ∀ row ∈ rows, ∀ c ∈ l.columns, c.Takes (row.cell c.name)
  ids : (rows.map (·.cell "id")).Nodup
  keys : (rows.map fun row => (row.cell l.foreignKey, row.cell "language_id")).Nodup
  items : ∀ row ∈ rows, row.cell l.foreignKey ∈ referred.items.map .int
  languages : ∀ row ∈ rows, row.cell "language_id" ∈ referred.languages.map .int

instance (l : Layout) (referred : Referred) (rows : List Row) :
    Decidable (l.Admits referred rows) :=
  decidable_of_iff
    ((∀ row ∈ rows, ∀ c ∈ l.columns, c.Takes (row.cell c.name)) ∧
      (rows.map (·.cell "id")).Nodup ∧
      (rows.map fun row => (row.cell l.foreignKey, row.cell "language_id")).Nodup ∧
      (∀ row ∈ rows, row.cell l.foreignKey ∈ referred.items.map .int) ∧
      ∀ row ∈ rows, row.cell "language_id" ∈ referred.languages.map .int)
    ⟨fun ⟨h₁, h₂, h₃, h₄, h₅⟩ => ⟨h₁, h₂, h₃, h₄, h₅⟩,
      fun h => ⟨h.typed, h.ids, h.keys, h.items, h.languages⟩⟩

/-- Every row of a change is made, or none. -/
def commit (l : Layout) (referred : Referred) (rows changed : List Row) (count : Nat) :
    Response × List Row :=
  if l.Admits referred changed then (.affected count, changed)
  else (.failed "a constraint is violated", rows)

def respond (l : Layout) (referred : Referred) (m : Moment) (x : Exchange) (rows : List Row) :
    Response × List Row :=
  if x.statement.Accepted l.recordTable l.columnNames then
    match x.statement with
    | .select outputs _ conditions order =>
        let found := arranged (rows.filter (meets m x.parameters conditions)) order
        (.rows (found.map fun row => outputs.map fun o => row.cell o.column), rows)
    | .anyRow _ conditions => (.rows [[.bool (rows.any (meets m x.parameters conditions))]], rows)
    | .insert _ columns newRows =>
        let added := newRows.mapIdx fun k operands =>
          l.newRow m k (columns.zip (operands.map (·.value m x.parameters)))
        l.commit referred rows (rows ++ added) added.length
    | .update _ assignments conditions =>
        let settings := assignments.map fun a => (a.1, a.2.value m x.parameters)
        let changed := rows.map fun row =>
          if meets m x.parameters conditions row then row.updated settings else row
        l.commit referred rows changed (rows.countP (meets m x.parameters conditions))
  else (.failed "the statement is refused", rows)

/-- A table with these columns can be created: no two are called alike. -/
def Feasible (l : Layout) : Prop := l.columnNames.Nodup

variable {l : Layout}

theorem columnNames_eq (l : Layout) :
    l.columnNames = ["id", l.foreignKey, "language_id"] ++ l.textFields ++
      ["is_synced", "created_by", "updated_by", "created_at", "updated_at"] := by
  simp [columnNames, columns, Function.comp_def]

theorem textFields_subset (l : Layout) : l.textFields ⊆ l.columnNames := by
  intro field hfield
  simp [columnNames_eq, hfield]

theorem managedColumns_subset (l : Layout) : managedColumns ⊆ l.columnNames := by
  simp [columnNames_eq, managedColumns]

theorem nodup_columnNames_iff (l : Layout) :
    l.columnNames.Nodup ↔ l.textFields.Nodup ∧ (∀ field ∈ l.textFields, field ∉ managedColumns) ∧
      l.foreignKey ∉ l.textFields ∧ l.foreignKey ∉ managedColumns := by
  have hperm : l.columnNames.Perm ((l.foreignKey :: l.textFields) ++ managedColumns) := by
    rw [columnNames_eq, managedColumns, List.perm_iff_count]
    intro column
    simp only [List.count_append, List.count_cons, List.count_nil]
    omega
  have hmanaged : managedColumns.Nodup := by decide
  rw [hperm.nodup_iff, List.nodup_append', List.nodup_cons, List.disjoint_cons_left]
  constructor
  · rintro ⟨⟨hkey, hnodup⟩, -, hkey', hfields⟩
    exact ⟨hnodup, fun _ hfield => hfields hfield, hkey, hkey'⟩
  · rintro ⟨hnodup, hfields, hkey, hkey'⟩
    exact ⟨⟨hkey, hnodup⟩, hmanaged, hkey', fun _ hfield => hfields _ hfield⟩

/-- What a layout that passes its check still needs for its table. -/
theorem Valid.feasible_iff (h : l.Valid) : l.Feasible ↔ l.foreignKey ∉ managedColumns := by
  rw [Feasible, nodup_columnNames_iff, and_iff_right h.nodup, and_iff_right h.unmanaged,
    and_iff_right h.foreign]

namespace Feasible

theorem not_mem_of_managed (h : l.Feasible) {column : String} (hmanaged : column ∈ managedColumns) :
    column ∉ l.textFields :=
  fun hfield => ((nodup_columnNames_iff l).mp h).2.1 column hfield hmanaged

theorem key_not_mem (h : l.Feasible) : l.foreignKey ∉ l.textFields :=
  ((nodup_columnNames_iff l).mp h).2.2.1

theorem ne_key (h : l.Feasible) {column : String} (hmanaged : column ∈ managedColumns) :
    column ≠ l.foreignKey := by
  rintro rfl
  exact ((nodup_columnNames_iff l).mp h).2.2.2 hmanaged

end Feasible

end Layout

namespace Sql

/-- Assignments set each column to the value that is bound for it. -/
theorem map_value_assignFrom (m : Moment) (settings : List (String × Value))
    (others : List Value) :
    (assignFrom 1 (settings.map (·.1))).map
      (fun a => (a.1, a.2.value m (settings.map (·.2) ++ others))) = settings := by
  refine List.ext_getElem? fun k => ?_
  rw [List.getElem?_map, getElem?_assignFrom, List.getElem?_map]
  cases hk : settings[k]? with
  | none => rfl
  | some e =>
      have hlt : k < (settings.map (·.2)).length := by
        simpa using (List.getElem?_eq_some_iff.mp hk).1
      have hvalue : (settings.map (·.2) ++ others)[k]? = some e.2 := by
        rw [List.getElem?_append_left hlt, List.getElem?_map, hk]
        rfl
      simp [Operand.value, hvalue]

theorem map_value_range' (m : Moment) (earlier values later : List Value) :
    ((List.range' (earlier.length + 1) values.length).map .parameter).map
      (Operand.value m (earlier ++ (values ++ later))) = values := by
  refine List.ext_getElem (by simp) fun k _ hk => ?_
  have hplace : earlier.length + 1 + k - 1 = earlier.length + k := by omega
  simp [Operand.value, hplace, List.getElem?_append_right, List.getElem?_append_left hk, hk]

/-- New rows hold the values that are bound for them. -/
theorem map_value_parameterRows (m : Moment) {width : Nat} {rows : List (List Value)}
    (hwidth : ∀ row ∈ rows, row.length = width) (earlier : List Value) :
    (parameterRows width (earlier.length + 1) rows.length).map
      (·.map (·.value m (earlier ++ rows.flatten))) = rows := by
  induction rows generalizing earlier with
  | nil => rfl
  | cons row rest ih =>
      obtain ⟨hrow, hrest⟩ := List.forall_mem_cons.mp hwidth
      have hlater := ih hrest (earlier ++ row)
      rw [List.length_append, hrow, Nat.add_right_comm, List.append_assoc] at hlater
      have hfirst := map_value_range' m earlier row rest.flatten
      rw [hrow] at hfirst
      rw [List.length_cons, parameterRows, List.map_cons, List.flatten_cons, hlater, hfirst]

end Sql

end Polyglot
