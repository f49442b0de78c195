import Polyglot.Setup.Layout
import Polyglot.Sql.Row
import Polyglot.Sql.Statement

namespace Polyglot.Sql

structure Exchange where
  statement : Statement
  parameters : List Value
deriving DecidableEq

def languageColumns : List Output :=
  ["id", "code", "name", "is_active", "deleted_at"].map Output.of

def selectLanguages (conditions : List Condition) (order : Option String) : Statement :=
  .select languageColumns "languages" (conditions ++ [.isNull "deleted_at"]) order

def lookupExchange (baseCode : String) : Lookup → Exchange
  | .byCode code => ⟨selectLanguages [.equals "code" (.parameter 1)] none, [.text code]⟩
  | .byId id => ⟨selectLanguages [.equals "id" (.parameter 1)] none, [.int id]⟩
  | .active => ⟨selectLanguages [.equals "is_active" .yes] (some "id"), []⟩
  | .base =>
      ⟨selectLanguages [.equals "code" (.parameter 1), .equals "is_active" .yes] none,
        [.text baseCode]⟩

/-- Columns set to the parameters from number `first` on. -/
def assignFrom (first : Nat) : List String → List (String × Operand)
  | [] => []
  | column :: rest => (column, .parameter first) :: assignFrom (first + 1) rest

/-- Rows of `width` parameters each, numbered on from `first`. -/
def parameterRows (width first : Nat) : Nat → List (List Operand)
  | 0 => []
  | rows + 1 =>
      (List.range' first width).map .parameter :: parameterRows width (first + width) rows

end Polyglot.Sql

namespace Polyglot.Layout

open Polyglot.Sql

def listItems (l : Layout) : Statement :=
  .select [.of "id"] l.itemTable [.isNull "deleted_at"] (some "id")

def itemExists (l : Layout) : Statement :=
  .anyRow l.itemTable [.equals "id" (.parameter 1), .isNull "deleted_at"]

def recordColumns (l : Layout) : List Output :=
  [.of "id", ⟨l.foreignKey, some "content_id"⟩, .of "language_id"] ++
    l.textFields.map .of ++
    ["is_synced", "created_by", "updated_by", "created_at", "updated_at"].map .of

def selectRecords (l : Layout) : Statement :=
  .select l.recordColumns l.recordTable [.equals l.foreignKey (.parameter 1)]
    (some "language_id")

def insertColumns (l : Layout) : List String :=
  [l.foreignKey, "language_id"] ++ l.textFields ++ ["is_synced", "created_by", "updated_by"]

def insertRecords (l : Layout) (rows : Nat) : Statement :=
  .insert l.recordTable l.insertColumns (parameterRows l.insertColumns.length 1 rows)

/-- Sets the text fields only while the row follows. -/
def overwriteRecord (l : Layout) : Statement :=
  let n := l.textFields.length
  .update l.recordTable
    (assignFrom 1 l.textFields ++
      [("updated_by", .parameter (n + 1)), ("updated_at", .now)])
    [.equals "id" (.parameter (n + 2)), .equals "is_synced" .yes]

/-- Sets the text fields and the flag. -/
def writeRecord (l : Layout) : Statement :=
  let n := l.textFields.length
  .update l.recordTable
    (assignFrom 1 l.textFields ++
      [("is_synced", .parameter (n + 1)), ("updated_by", .parameter (n + 2)),
        ("updated_at", .now)])
    [.equals "id" (.parameter (n + 3))]

/-- The values of a text in the order of the columns. A field without a column is refused, so
that no text is lost. -/
def fieldValues (l : Layout) (text : Text) : Except Error (List Value) :=
  match text.keys.find? (· ∉ l.textFields) with
  | some field => .error (.invalid (.unknownField l.name field))
  | none =>
      .ok (l.textFields.map fun field =>
        match text.get? field with
        | some value => .text value
        | none => .null)

def draftValues (l : Layout) (item : ItemId) (actor : Actor) (d : Draft) :
    Except Error (List Value) := do
  return [.int item, .int d.language] ++ (← l.fieldValues d.text) ++
    [.bool d.follows, .text actor, .text actor]

def insertExchange (l : Layout) (item : ItemId) (drafts : List Draft) (actor : Actor) :
    Except Error Exchange := do
  return ⟨l.insertRecords drafts.length, (← drafts.mapM (l.draftValues item actor)).flatten⟩

def overwriteExchange (l : Layout) (id : RecordId) (text : Text) (actor : Actor) :
    Except Error Exchange := do
  return ⟨l.overwriteRecord, (← l.fieldValues text) ++ [.text actor, .int id]⟩

def writeExchange (l : Layout) (id : RecordId) (text : Text) (follows : Bool) (actor : Actor) :
    Except Error Exchange := do
  return ⟨l.writeRecord, (← l.fieldValues text) ++ [.bool follows, .text actor, .int id]⟩

end Polyglot.Layout
