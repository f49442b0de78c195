import Polyglot.Blank
import Polyglot.Json.Reader
import Polyglot.Setup.Error

/-!
Where the texts of a content type are stored: its tables and columns. All names but the content
type's own become parts of SQL statements, so they are checked first. A file of layouts replaces
the built-in ones.
-/

namespace Polyglot

structure Layout where
  name : String
  itemTable : String
  recordTable : String
  foreignKey : String
  textFields : List String
  /-- Minutes between two reconciliations, where they differ from the usual ones. -/
  interval : Option Nat
deriving DecidableEq

def isIdentifierStart (c : Char) : Bool := ('a' ≤ c && c ≤ 'z') || c = '_'

def isIdentifierChar (c : Char) : Bool := isIdentifierStart c || ('0' ≤ c && c ≤ '9')

/-- Whether a name can stand in SQL without quotes: lower case letters, digits and underscores,
not a digit first, and 63 characters at most. -/
def isIdentifier (name : String) : Bool :=
  match name.toList with
  | [] => false
  | c :: rest => isIdentifierStart c && rest.all isIdentifierChar && rest.length ≤ 62

namespace Layout

/-- Columns that text fields cannot use, because the engine writes them itself. -/
def managedColumns : List String :=
  ["id", "language_id", "is_synced", "created_by", "updated_by", "created_at", "updated_at"]

/-- The first flaw in a list of text fields, of which `seen` came before. -/
def fieldFlaw (foreignKey : String) (seen : List String) : List String → Option Flaw
  | [] => none
  | field :: rest =>
      if !isIdentifier field then some (.badField field)
      else if field ∈ managedColumns ∨ field = foreignKey then some (.managedField field)
      else if field ∈ seen then some (.repeatedField field)
      else fieldFlaw foreignKey (field :: seen) rest

def names (l : Layout) : List (String × String) :=
  [("item_table", l.itemTable), ("translation_table", l.recordTable),
    ("foreign_key", l.foreignKey)]

def flaw (l : Layout) : Option Flaw :=
  match l.names.find? fun n => !isIdentifier n.2 with
  | some (role, name) => some (.badName role name)
  | none => if l.textFields.isEmpty then some .noFields else fieldFlaw l.foreignKey [] l.textFields

def validate (l : Layout) : Except SetupError Unit :=
  if isBlank l.name then .error .blankName
  else
    match l.flaw with
    | some flaw => .error (.flawed l.name flaw)
    | none => .ok ()

def builtIn : List Layout :=
  [⟨"bulletin", "bulletins", "bulletin_translations", "bulletin_id", ["title", "content"], none⟩,
    ⟨"ir", "ir_documents", "ir_document_translations", "ir_document_id",
      ["title", "description"], none⟩,
    ⟨"electronic_disclosure", "electronic_disclosures", "electronic_disclosure_translations",
      "electronic_disclosure_id", ["title", "description"], none⟩,
    ⟨"brochure", "brochures", "brochure_translations", "brochure_id",
      ["title", "description"], none⟩,
    ⟨"popup", "popups", "popup_translations", "popup_id", ["title", "content"], none⟩,
    ⟨"story", "stories", "story_translations", "story_id", ["title", "summary", "content"],
      none⟩,
    ⟨"meeting_record", "meeting_records", "meeting_record_translations", "meeting_record_id",
      ["title", "agenda", "content"], none⟩]

/-- The optional number of minutes: absent, null or a number of 32 bits. -/
def intervalOfJson? : Option Json → Option (Option Nat)
  | none => some none
  | some .null => some none
  | some j => (j.natBelow? 0x100000000).map some

def ofJson? (j : Json) : Option Layout := do
  let known := ["name", "item_table", "translation_table", "foreign_key", "text_fields",
    "reconcile_interval_minutes"]
  match ← j.fields? known with
  | [some name, some itemTable, some recordTable, some foreignKey, some textFields, interval] =>
      return {
        name := ← name.text?
        itemTable := ← itemTable.text?
        recordTable := ← recordTable.text?
        foreignKey := ← foreignKey.text?
        textFields := ← (← textFields.array?).mapM Json.text?
        interval := ← intervalOfJson? interval }
  | _ => none

def checkAll (seen : List String) : List Layout → Except SetupError Unit
  | [] => .ok ()
  | l :: rest => do
      l.validate
      if l.name ∈ seen then .error (.repeatedType l.name) else checkAll (l.name :: seen) rest

def listOfText? (text : String) : Option (List Layout) := do
  (← (← Json.read? text).array?).mapM ofJson?

/-- The layouts of the file at a path, or the built-in ones where there is no path. -/
def load (read : String → Option String) (path : Option String) :
    Except SetupError (List Layout) := do
  let layouts ←
    match path with
    | none => .ok builtIn
    | some path =>
        match read path with
        | none => .error (.unreadableFile path)
        | some text =>
            match listOfText? text with
            | none => .error (.malformedFile path)
            | some layouts => .ok layouts
  checkAll [] layouts
  return layouts

end Layout

end Polyglot
