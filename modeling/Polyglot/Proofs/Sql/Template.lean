import Polyglot.Proofs.Sql.Words

namespace Polyglot.Layout

open Sql

/-- The statements that are made for a layout. -/
inductive Command where
  | listItems
  | itemExists
  | selectRecords
  | insertRecords (rows : Nat)
  | overwriteRecord
  | writeRecord
deriving DecidableEq

def statement (l : Layout) : Command → Statement
  | .listItems => l.listItems
  | .itemExists => l.itemExists
  | .selectRecords => l.selectRecords
  | .insertRecords rows => l.insertRecords rows
  | .overwriteRecord => l.overwriteRecord
  | .writeRecord => l.writeRecord

inductive Role where
  | itemTable
  | recordTable
  | foreignKey
  | field (k : Nat)
deriving DecidableEq

def nameOf (l : Layout) : Role → String
  | .itemTable => l.itemTable
  | .recordTable => l.recordTable
  | .foreignKey => l.foreignKey
  | .field k => l.textFields.getD k ""

/-- A place in a template: a token that is always the same, or one for a name. -/
inductive Slot where
  | token (t : Token)
  | name (r : Role)
deriving DecidableEq

def Slot.fill (l : Layout) : Slot → Token
  | .token t => t
  | .name r => .word (l.nameOf r)

/-- The words and the other characters of a text, which stand in the statements of all layouts. -/
def fixed (text : String) : List Slot := (cut text.toList).map .token

def number (n : Nat) : Slot := .token (.word (toString n))

def listed (n : Nat) (part : Nat → List Slot) : List Slot :=
  (fixed ", ").intercalate ((List.range n).map part)

def fieldList (n : Nat) : List Slot := listed n fun k => [.name (.field k)]

def assignmentList (n : Nat) : List Slot :=
  listed n fun k => .name (.field k) :: fixed " = $" ++ [number (k + 1)]

/-- A statement as far as it does not depend on names, but only on the number of text fields. -/
def template (n : Nat) : Command → List Slot
  | .listItems =>
      fixed "SELECT id FROM " ++ [.name .itemTable] ++
        fixed " WHERE deleted_at IS NULL ORDER BY id"
  | .itemExists =>
      fixed "SELECT EXISTS (SELECT 1 FROM " ++ [.name .itemTable] ++
        fixed " WHERE id = $1 AND deleted_at IS NULL)"
  | .selectRecords =>
      fixed "SELECT id, " ++ [.name .foreignKey] ++ fixed " AS content_id, language_id, " ++
        fieldList n ++
        fixed ", is_synced, created_by, updated_by, created_at, updated_at FROM " ++
        [.name .recordTable] ++ fixed " WHERE " ++ [.name .foreignKey] ++
        fixed " = $1 ORDER BY language_id"
  | .insertRecords rows =>
      fixed "INSERT INTO " ++ [.name .recordTable] ++ fixed " (" ++ [.name .foreignKey] ++
        fixed ", language_id, " ++ fieldList n ++
        fixed ", is_synced, created_by, updated_by) VALUES " ++
        listed rows fun i =>
          fixed "(" ++ listed (n + 5) (fun k => fixed "$" ++ [number (i * (n + 5) + k + 1)]) ++
            fixed ")"
  | .overwriteRecord =>
      fixed "UPDATE " ++ [.name .recordTable] ++ fixed " SET " ++ assignmentList n ++
        fixed ", updated_by = $" ++ [number (n + 1)] ++
        fixed ", updated_at = now() WHERE id = $" ++ [number (n + 2)] ++
        fixed " AND is_synced = true"
  | .writeRecord =>
      fixed "UPDATE " ++ [.name .recordTable] ++ fixed " SET " ++ assignmentList n ++
        fixed ", is_synced = $" ++ [number (n + 1)] ++ fixed ", updated_by = $" ++
        [number (n + 2)] ++ fixed ", updated_at = now() WHERE id = $" ++ [number (n + 3)]

variable {l : Layout}

theorem commaSeparated_append {parts parts' : List (List Token)} (h : parts ≠ [])
    (h' : parts' ≠ []) :
    commaSeparated (parts ++ parts') =
      commaSeparated parts ++ [.mark ',', .mark ' '] ++ commaSeparated parts' := by
  induction parts with
  | nil => exact absurd rfl h
  | cons part rest ih =>
      rw [List.cons_append, commaSeparated_cons part (by simp [h'])]
      cases rest with
      | nil => rfl
      | cons next rest =>
          rw [ih (List.cons_ne_nil _ _), commaSeparated_cons part (List.cons_ne_nil _ _)]
          simp only [List.append_assoc]

theorem map_fill_listed (l : Layout) (n : Nat) (part : Nat → List Slot) :
    (listed n part).map (Slot.fill l) =
      commaSeparated ((List.range n).map fun k => (part k).map (Slot.fill l)) := by
  have hfill (parts : List (List Slot)) : ((fixed ", ").intercalate parts).map (Slot.fill l) =
      commaSeparated (parts.map (·.map (Slot.fill l))) := by
    induction parts with
    | nil => rfl
    | cons part rest ih =>
        cases rest with
        | nil => rw [List.intercalate_singleton, List.map_singleton, commaSeparated]
        | cons next rest =>
            rw [List.intercalate_cons_cons, List.map_append, List.map_append, ih]
            exact (commaSeparated_cons (part.map (Slot.fill l)) (by simp)).symm
  rw [listed, hfill, List.map_map]
  rfl

theorem textFields_eq (l : Layout) :
    l.textFields = (List.range l.textFields.length).map fun k => l.nameOf (.field k) := by
  refine List.ext_getElem (by simp) fun k hk _ => ?_
  simp [nameOf, hk]

theorem assignFrom_textFields (l : Layout) :
    assignFrom 1 l.textFields = (List.range l.textFields.length).map fun k =>
      (l.nameOf (.field k), .parameter (k + 1)) := by
  refine List.ext_getElem? fun k => ?_
  rw [getElem?_assignFrom]
  by_cases hk : k < l.textFields.length
  · simp [nameOf, hk, Nat.add_comm]
  · simp [hk]

theorem parameterRows_eq (width first rows : Nat) :
    parameterRows width first rows = (List.range rows).map fun i =>
      (List.range width).map fun k => .parameter (i * width + k + first) := by
  induction rows generalizing first with
  | zero => rfl
  | succ rows ih =>
      rw [parameterRows, ih, List.range_succ_eq_map, List.map_cons, List.map_map,
        List.range'_eq_map_range, List.map_map]
      congr 1
      · exact List.map_congr_left fun k _ => by simp [Nat.add_comm]
      · refine List.map_congr_left fun i _ => List.map_congr_left fun k _ => ?_
        congr 1
        rw [Nat.succ_mul]
        omega

theorem map_fill_fieldList (l : Layout) :
    (fieldList l.textFields.length).map (Slot.fill l) =
      commaSeparated (l.textFields.map fun field => [.word field]) := by
  rw [fieldList, map_fill_listed, textFields_eq l, List.map_map, ← textFields_eq l]
  rfl

theorem map_fill_assignmentList (l : Layout) :
    (assignmentList l.textFields.length).map (Slot.fill l) =
      commaSeparated ((assignFrom 1 l.textFields).map fun a => equation a.1 a.2) := by
  rw [assignmentList, map_fill_listed, assignFrom_textFields, List.map_map]
  rfl

set_option maxRecDepth 4000 in
/-- The tokens of a statement are those of its template with the names filled in. -/
theorem tokens_statement (h : l.textFields ≠ []) (c : Command) :
    (l.statement c).tokens = (template l.textFields.length c).map (Slot.fill l) := by
  have hassigned : assignFrom 1 l.textFields ≠ [] := by simpa [assignFrom_textFields] using h
  cases c with
  | listItems => rfl
  | itemExists => rfl
  | selectRecords =>
      simp only [template, List.map_append, map_fill_fieldList]
      rw [statement, selectRecords, Statement.tokens, recordColumns, List.map_append,
        List.map_append, commaSeparated_append, commaSeparated_append]
      · simp only [List.append_assoc, List.map_map]
        rfl
      all_goals simp [h]
  | insertRecords rows =>
      simp only [template, List.map_append, map_fill_fieldList, map_fill_listed]
      rw [statement, insertRecords, length_insertColumns, parameterRows_eq, Statement.tokens,
        insertColumns, List.map_append, List.map_append, commaSeparated_append,
        commaSeparated_append]
      · simp only [bracketed, List.cons_append, List.append_assoc, List.map_map, Function.comp_def]
        rfl
      all_goals simp [h]
  | overwriteRecord =>
      simp only [template, List.map_append, map_fill_assignmentList]
      rw [statement, overwriteRecord, Statement.tokens, List.map_append, commaSeparated_append]
      · simp only [List.append_assoc]
        rfl
      all_goals simp [hassigned]
  | writeRecord =>
      simp only [template, List.map_append, map_fill_assignmentList]
      rw [statement, writeRecord, Statement.tokens, List.map_append, commaSeparated_append]
      · simp only [List.append_assoc]
        rfl
      all_goals simp [hassigned]

def roles (n : Nat) : List Role :=
  [.itemTable, .recordTable, .foreignKey] ++ (List.range n).map .field

theorem isWord_of_isIdentifier {name : String} (h : isIdentifier name = true) :
    isWord name = true := by
  rw [isIdentifier] at h
  rw [isWord]
  cases hname : name.toList with
  | nil => simp [hname] at h
  | cons c rest =>
      simp only [hname, Bool.and_eq_true, List.all_eq_true] at h
      obtain ⟨⟨hc, hrest⟩, -⟩ := h
      simp only [List.isEmpty_cons, Bool.not_false, Bool.true_and, List.all_eq_true,
        List.forall_mem_cons]
      exact ⟨by simp [isWordChar, isIdentifierChar, hc], fun d hd => by
        simp [isWordChar, hrest d hd]⟩

/-- All names that a statement can have are words, if the layout passes its check. -/
theorem Valid.isWord_own (h : l.Valid) :
    isWord l.itemTable = true ∧ isWord l.recordTable = true ∧ isWord l.foreignKey = true ∧
      ∀ field ∈ l.textFields, isWord field = true := by
  have hnames := h.names
  simp only [Layout.names, List.forall_mem_cons] at hnames
  exact ⟨isWord_of_isIdentifier hnames.1, isWord_of_isIdentifier hnames.2.1,
    isWord_of_isIdentifier hnames.2.2.1, fun field hfield =>
      isWord_of_isIdentifier (h.identifiers field hfield)⟩

theorem Valid.isWord_nameOf (h : l.Valid) :
    ∀ role ∈ roles l.textFields.length, isWord (l.nameOf role) = true := by
  obtain ⟨hitem, hrecord, hkey, hfields⟩ := h.isWord_own
  rw [l.textFields_eq, List.forall_mem_map] at hfields
  simp only [roles, List.forall_mem_append, List.forall_mem_cons, List.forall_mem_map, nameOf]
  exact ⟨⟨hitem, hrecord, hkey, nofun⟩, hfields⟩

/-- The columns and results that are called the same for all layouts. -/
def commonNames : List String := ["deleted_at", "content_id", "exists"] ++ managedColumns

theorem Valid.isWord_names (h : l.Valid) (c : Command) :
    ∀ name ∈ (l.statement c).names, isWord name = true := by
  obtain ⟨hitem, hrecord, hkey, hfields⟩ := h.isWord_own
  have hcommon : ∀ name ∈ commonNames, isWord name = true := by decide
  simp only [commonNames, managedColumns, List.cons_append, List.nil_append,
    List.forall_mem_cons] at hcommon
  rw [Statement.names, List.forall_mem_append, List.forall_mem_cons]
  cases c with
  | listItems =>
      simp [statement, listItems, Statement.table, Statement.columns, Statement.outputNames,
        Condition.column, Output.of, Output.name, hitem, hcommon]
  | itemExists =>
      simp [statement, itemExists, Statement.table, Statement.columns, Statement.outputNames,
        Condition.column, hitem, hcommon]
  | selectRecords =>
      refine ⟨⟨hrecord, ?_⟩, ?_⟩
      · simpa [statement, selectRecords, recordColumns, Statement.columns, Condition.column,
          Output.of, or_imp, forall_and, hkey, hcommon] using hfields
      · simpa [statement, outputNames_selectRecords, or_imp, forall_and, hcommon] using hfields
  | insertRecords rows =>
      simpa [statement, insertRecords, insertColumns, Statement.table, Statement.columns,
        Statement.outputNames, or_imp, forall_and, hrecord, hkey, hcommon] using hfields
  | overwriteRecord =>
      simpa [statement, overwriteRecord, Statement.table, Statement.columns, Statement.outputNames,
        Condition.column, or_imp, forall_and, hrecord, hcommon] using hfields
  | writeRecord =>
      simpa [statement, writeRecord, Statement.table, Statement.columns, Statement.outputNames,
        Condition.column, or_imp, forall_and, hrecord, hcommon] using hfields

def separators : List Char := [' ', ',', '(', ')', '"', '\'', ';', '$', '-', '/', '*']

/-- Whatever its names are, a layout that passes its check has them where the template has a place
for them, and nowhere else. -/
theorem names_in_place (h : l.validate = .ok ()) (c : Command) :
    cut (l.statement c).text.toList = (template l.textFields.length c).map (Slot.fill l) ∧
      ∀ role ∈ roles l.textFields.length, isWord (l.nameOf role) = true ∧
        ∀ separator ∈ separators, separator ∉ (l.nameOf role).toList := by
  have hvalid := (validate_eq_ok_iff l).mp h
  refine ⟨?_, fun role hrole => ?_⟩
  · rw [Statement.cut_text (hvalid.isWord_names c), tokens_statement hvalid.fields]
  · have hword := hvalid.isWord_nameOf role hrole
    refine ⟨hword, fun separator hseparator hmem => ?_⟩
    rw [isWord, Bool.and_eq_true, List.all_eq_true] at hword
    have hnone : separators.all (fun c => !isWordChar c) = true := by decide
    have hchar := List.all_eq_true.mp hnone separator hseparator
    rw [hword.2 separator hmem] at hchar
    cases hchar

/-- The first column that is set is the title. -/
theorem story_names_in_place :
    story.validate = .ok () ∧
      cut (story.statement .overwriteRecord).text.toList =
        (template 3 .overwriteRecord).map (Slot.fill story) ∧
      (template 3 .overwriteRecord)[6]? = some (.name (.field 0)) ∧
      (cut (story.statement .overwriteRecord).text.toList)[6]? = some (.word "title") := by
  have hvalid : story.validate = .ok () := by decide
  have hcut := (names_in_place hvalid .overwriteRecord).1
  refine ⟨hvalid, hcut, by decide, ?_⟩
  rw [hcut]
  decide

end Polyglot.Layout
